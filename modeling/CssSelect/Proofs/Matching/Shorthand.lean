import Mathlib.Data.List.Forall2
import CssSelect.Proofs.Document.Elements
import CssSelect.Proofs.Matching.Answers
import CssSelect.Proofs.Selector.Operator
import CssSelect.Document.View

/-!
Classes and ids as attributes. In a document the class `.a` is the word `a` of the attribute `class`,
and the id `#a` is the value `a` of the attribute `id`; neither form asks for more than the other,
whatever stands behind the dot. Matching sees no more of a condition than its answers, so one form
may stand for the other anywhere in a selector.
-/
namespace CssSelect

variable {ν : Type}

/-! ## Two forms of a condition -/

namespace SubclassSelector

/-- `[class~="name"]`, which says what `.name` says. -/
def classAsAttribute (name : String) : SubclassSelector :=
  .attribute ⟨"class", some ⟨.includes, name, none⟩⟩

/-- `[id="name"]`, which says what `#name` says. -/
def idAsAttribute (name : String) : SubclassSelector :=
  .attribute ⟨"id", some ⟨.equals, name, none⟩⟩

/-- What may stand in the place of a condition: the condition itself, or the other form of a class
or an id. -/
inductive Respelled : SubclassSelector → SubclassSelector → Prop
  | same (subclass : SubclassSelector) : Respelled subclass subclass
  | classLong (name : String) : Respelled (.className name) (classAsAttribute name)
  | classShort (name : String) : Respelled (classAsAttribute name) (.className name)
  | idLong (name : String) : Respelled (.id name) (idAsAttribute name)
  | idShort (name : String) : Respelled (idAsAttribute name) (.id name)

end SubclassSelector

/-- Conditions of a compound are replaced. -/
structure CompoundSelector.Respelled (compound other : CompoundSelector) : Prop where
  type : compound.type = other.type
  subclasses : List.Forall₂ SubclassSelector.Respelled compound.subclasses other.subclasses

/-- Conditions are replaced anywhere in a selector. -/
structure ComplexSelector.Respelled (selector other : ComplexSelector) : Prop where
  head : selector.head.Respelled other.head
  tail : List.Forall₂ (fun link other => link.1 = other.1 ∧ link.2.Respelled other.2)
    selector.tail other.tail

/-- Conditions are replaced anywhere in a list of selectors. -/
def SelectorList.Respelled (list other : SelectorList) : Prop :=
  List.Forall₂ ComplexSelector.Respelled list.members other.members

/-- The view of a tree in which classes and ids are attributes. -/
structure View.ShorthandsAgree (view : View ν) : Prop where
  className : ∀ node name, (SubclassSelector.className name).test view node =
    (SubclassSelector.classAsAttribute name).test view node
  id : ∀ node name, (SubclassSelector.id name).test view node =
    (SubclassSelector.idAsAttribute name).test view node

section Respelled

variable {view : View ν} (agree : view.ShorthandsAgree)

include agree

theorem SubclassSelector.Respelled.test_eq {subclass other : SubclassSelector}
    (respelled : subclass.Respelled other) (node : ν) :
    subclass.test view node = other.test view node := by
  cases respelled with
  | same => rfl
  | classLong name => exact agree.className node name
  | classShort name => exact (agree.className node name).symm
  | idLong name => exact agree.id node name
  | idShort name => exact (agree.id node name).symm

theorem CompoundSelector.Respelled.test_eq {compound other : CompoundSelector}
    (respelled : compound.Respelled other) : compound.test view = other.test view := by
  funext node
  have same := testAll_congr
    (respelled.subclasses.imp fun _ _ replaced => replaced.test_eq agree node)
  rw [test, test, respelled.type, same]

variable [BEq ν] [Hashable ν]

theorem ComplexSelector.Respelled.test_eq {selector other : ComplexSelector}
    (respelled : selector.Respelled other) (node : ν) :
    selector.test view node = other.test view node := by
  refine walkLeft_congr rfl (respelled.head.test_eq agree) (List.rel_reverse ?_) [node]
  exact respelled.tail.imp fun _ _ replaced => ⟨replaced.1, replaced.2.test_eq agree⟩

theorem SelectorList.Respelled.test_eq {list other : SelectorList}
    (respelled : list.Respelled other) : list.test view = other.test view :=
  funext fun node =>
    walkMembers_congr (respelled.imp fun _ _ replaced => replaced.test_eq agree node)

end Respelled

/-! ## Documents -/

theorem Element.hasClass_eq (element : Element) (name : String) :
    element.hasClass name = AttributeSelector.accepts
      ⟨"class", some ⟨.includes, name, none⟩⟩ (element.attributes.get? "class") := by
  rw [hasClass]
  cases element.attributes.get? "class" with
  | none => rfl
  | some names => exact (AttributeOperator.accepts_includes names name).symm

theorem AttributeSelector.accepts_id (name : String) (value : Option String) :
    (value == some name) = accepts ⟨"id", some ⟨.equals, name, none⟩⟩ value := by
  cases value <;> rfl

namespace Tree

theorem hasClass_view (tree : Tree) (id : NodeId) (name : String) :
    tree.view.hasClass id name = AttributeSelector.accepts
      ⟨"class", some ⟨.includes, name, none⟩⟩ (tree.view.attributeValue id "class") := by
  simp only [view]
  cases tree.element? id with
  | none => rfl
  | some element => exact element.hasClass_eq name

theorem shorthandsAgree_view (tree : Tree) : tree.view.ShorthandsAgree where
  className id name := congrArg (tree.view.ask id) (tree.hasClass_view id name)
  id id name := congrArg (tree.view.ask id)
    (AttributeSelector.accepts_id name (tree.view.attributeValue id "id"))

/-- In every tree, at every position, `.name` has the outcome of `[class~="name"]` and `#name` that of
`[id="name"]`, whatever the name is. So one form may be replaced by the other anywhere in a list of
selectors: the list has the same outcome at every position, and all searches give the same. -/
theorem shorthands_agree (tree : Tree) :
    (∀ id name, (SubclassSelector.className name).test tree.view id =
        (SubclassSelector.attribute ⟨"class", some ⟨.includes, name, none⟩⟩).test tree.view id ∧
      (SubclassSelector.id name).test tree.view id =
        (SubclassSelector.attribute ⟨"id", some ⟨.equals, name, none⟩⟩).test tree.view id) ∧
    ∀ list other : SelectorList, list.Respelled other → ∀ id,
      list.test tree.view id = other.test tree.view id ∧
      tree.view.firstMatch id list = tree.view.firstMatch id other ∧
      tree.view.allMatches id list = tree.view.allMatches id other ∧
      tree.view.closestMatch id list = tree.view.closestMatch id other := by
  have agree := tree.shorthandsAgree_view
  refine ⟨fun id name => ⟨agree.className id name, agree.id id name⟩, ?_⟩
  intro list other respelled id
  have same := respelled.test_eq agree
  exact ⟨congrFun same id, View.firstMatch_congr same id, View.allMatches_congr same id,
    View.closestMatch_congr same id⟩

/-- An element with two classes and an id, and another one below it. -/
def labelled : Tree :=
  ((empty.append root (.element ⟨"a", .ofList [("class", "x\ty"), ("id", "k")]⟩)).2.append 1
    (.element ⟨"b", .empty⟩)).2

/-- `.y#k > b, .` with an empty name behind the last dot. -/
def shortForms : SelectorList :=
  ⟨[⟨⟨none, [.className "y", .id "k"]⟩, [(.child, ⟨some (.tag "b"), []⟩)]⟩,
    ⟨⟨none, [.className ""]⟩, []⟩]⟩

/-- `[class~="y"]#k > b, [class~=""]`. -/
def mixedForms : SelectorList :=
  ⟨[⟨⟨none, [.classAsAttribute "y", .id "k"]⟩, [(.child, ⟨some (.tag "b"), []⟩)]⟩,
    ⟨⟨none, [.classAsAttribute ""]⟩, []⟩]⟩

theorem shorthands_agree_labelled : shortForms.Respelled mixedForms ∧
    shortForms.test labelled.view 2 = .ok true ∧ mixedForms.test labelled.view 2 = .ok true ∧
    (SubclassSelector.className "").test labelled.view 1 =
      (SubclassSelector.attribute ⟨"class", some ⟨.includes, "", none⟩⟩).test labelled.view 1 := by
  have respelled : shortForms.Respelled mixedForms :=
    .cons ⟨⟨rfl, .cons (.classLong "y") (.cons (.same _) .nil)⟩, .cons ⟨rfl, rfl, .nil⟩ .nil⟩
      (.cons ⟨⟨rfl, .cons (.classLong "") .nil⟩, .nil⟩ .nil)
  have built : labelled.WellBuilt := (WellBuilt.empty.append (by decide) _).append (by decide) _
  have step : labelled.view.Related .child 1 2 := rfl
  have chain : ComplexSelector.Chain ⟨⟨none, [.className "y", .id "k"]⟩,
      [(.child, ⟨some (.tag "b"), []⟩)]⟩ labelled.view 2 :=
    ⟨1, by decide +kernel, .join step (by decide +kernel) (.done 2)⟩
  obtain ⟨matched, tested, matched_iff⟩ := SelectorList.walkMembers_outcome
    built.wellLinked.covers (by decide : 2 ∈ List.range labelled.size) shortForms.members (by decide)
  rw [matched_iff.mpr ⟨_, List.mem_cons_self, chain⟩] at tested
  obtain ⟨single, anywhere⟩ := shorthands_agree labelled
  have same := (anywhere shortForms mixedForms respelled 2).1
  exact ⟨respelled, tested, same.symm.trans tested, (single 1 "").1⟩

end Tree

end CssSelect
