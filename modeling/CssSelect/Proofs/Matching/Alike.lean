import Mathlib.Data.List.Forall2
import Mathlib.Data.List.Induction
import CssSelect.Proofs.Matching.Answers
import CssSelect.Proofs.Traversal.Preorder

/-!
Two views that look alike. A relation pairs nodes of which the engine is told the same; from
paired nodes every link leads to paired nodes again. Matching cannot tell two such nodes
apart, and traversals visit paired nodes in step. Children matter to traversals alone: matching
is the same in a view that has none.
-/
namespace CssSelect

variable {ν μ : Type}

/-! ## Children -/

/-- The view of a tree in which no node has children. Matching cannot tell it from the view itself:
its walks go to parents and to siblings only. -/
def View.childless (view : View ν) : View ν :=
  { view with children := fun _ => [] }

section Childless

variable (view : View ν)

theorem CompoundSelector.test_childless (compound : CompoundSelector) :
    compound.test view.childless = compound.test view := by
  funext node
  have type : testType view.childless node compound.type = testType view node compound.type := rfl
  have subclasses : testAll view.childless node compound.subclasses =
      testAll view node compound.subclasses :=
    testAll_congr (List.forall₂_same.mpr fun subclass _ => by cases subclass <;> rfl)
  rw [test, test, type, subclasses]

theorem View.Covers.childless {view : View ν} {region : List ν} (covers : view.Covers region) :
    view.childless.Covers region :=
  ⟨covers.knows, covers.parent, covers.previousSibling⟩

variable [BEq ν] [Hashable ν]

theorem View.collect_childless : view.childless.collect = view.collect := by
  funext combinator candidates
  cases combinator <;> rfl

theorem ComplexSelector.test_childless (selector : ComplexSelector) (node : ν) :
    selector.test view.childless node = selector.test view node := by
  refine walkLeft_congr view.collect_childless (selector.head.test_childless view) ?_ [node]
  exact List.forall₂_same.mpr fun link _ => ⟨rfl, link.2.test_childless view⟩

theorem SelectorList.test_childless (list : SelectorList) (node : ν) :
    list.test view.childless node = list.test view node :=
  SelectorList.test_congr fun selector _ => selector.test_childless view node

end Childless

/-! ## Pairs -/

/-- Paired nodes have the same properties, and their links lead to paired nodes. What texts they
have, and what follows them, is not asked for by selectors. -/
structure Alike (view : View ν) (other : View μ) (Pair : ν → μ → Prop) : Prop where
  knows : ∀ {node twin}, Pair node twin → view.knows node = other.knows twin
  tagName : ∀ {node twin}, Pair node twin → view.tagName node = other.tagName twin
  id : ∀ {node twin}, Pair node twin → view.id node = other.id twin
  hasClass : ∀ {node twin}, Pair node twin → view.hasClass node = other.hasClass twin
  attributeValue : ∀ {node twin}, Pair node twin →
    view.attributeValue node = other.attributeValue twin
  parent : ∀ {node twin}, Pair node twin → Option.Rel Pair (view.parent node) (other.parent twin)
  previousSibling : ∀ {node twin}, Pair node twin →
    Option.Rel Pair (view.previousSibling node) (other.previousSibling twin)
  children : ∀ {node twin}, Pair node twin →
    List.Forall₂ Pair (view.children node) (other.children twin)

namespace Alike

variable {view : View ν} {other : View μ} {Pair : ν → μ → Prop}

theorem rel_swap {node : Option ν} {twin : Option μ} (paired : Option.Rel Pair node twin) :
    Option.Rel (fun twin node => Pair node twin) twin node := by
  cases paired with
  | some paired => exact .some paired
  | none => exact .none

theorem swap (alike : Alike view other Pair) : Alike other view fun twin node => Pair node twin where
  knows paired := (alike.knows paired).symm
  tagName paired := (alike.tagName paired).symm
  id paired := (alike.id paired).symm
  hasClass paired := (alike.hasClass paired).symm
  attributeValue paired := (alike.attributeValue paired).symm
  parent paired := rel_swap (alike.parent paired)
  previousSibling paired := rel_swap (alike.previousSibling paired)
  children paired := (alike.children paired).flip

/-! ## Links -/

theorem exists_of_rel {node : Option ν} {twin : Option μ} (paired : Option.Rel Pair node twin)
    {next : ν} (taken : node = some next) : ∃ nextTwin, twin = some nextTwin ∧ Pair next nextTwin := by
  subst taken
  obtain ⟨paired⟩ := paired
  exact ⟨_, rfl, paired⟩

theorem exists_leads {step : ν → Option ν} {otherStep : μ → Option μ}
    (each : ∀ {node twin}, Pair node twin → Option.Rel Pair (step node) (otherStep twin))
    {node next : ν} {twin : μ} (paired : Pair node twin) (path : View.Leads step node next) :
    ∃ nextTwin, View.Leads otherStep twin nextTwin ∧ Pair next nextTwin := by
  induction path with
  | single taken =>
    obtain ⟨nextTwin, taken, paired⟩ := exists_of_rel (each paired) taken
    exact ⟨nextTwin, .single taken, paired⟩
  | tail _ taken ih =>
    obtain ⟨between, path, paired⟩ := ih
    obtain ⟨nextTwin, taken, paired⟩ := exists_of_rel (each paired) taken
    exact ⟨nextTwin, path.tail taken, paired⟩

/-- A combinator leads to the left from paired nodes to paired nodes. -/
theorem exists_related (alike : Alike view other Pair) {combinator : Combinator} {left right : ν}
    {twin : μ} (paired : Pair right twin) (related : view.Related combinator left right) :
    ∃ leftTwin, other.Related combinator leftTwin twin ∧ Pair left leftTwin := by
  cases combinator with
  | descendant => exact exists_leads alike.parent paired related
  | child => exact exists_of_rel (alike.parent paired) related
  | nextSibling => exact exists_of_rel (alike.previousSibling paired) related
  | subsequentSibling => exact exists_leads alike.previousSibling paired related
  | column => exact related.elim

/-! ## Matching -/

section Compound

variable {node : ν} {twin : μ}

theorem ask (alike : Alike view other Pair) (paired : Pair node twin) {α : Type} (answer : α) :
    view.ask node answer = other.ask twin answer := by
  rw [View.ask, View.ask, alike.knows paired]

theorem testAll (alike : Alike view other Pair) (paired : Pair node twin)
    (subclasses : List SubclassSelector) :
    CompoundSelector.testAll view node subclasses = CompoundSelector.testAll other twin subclasses := by
  refine CompoundSelector.testAll_congr (List.forall₂_same.mpr fun subclass _ => ?_)
  cases subclass <;>
    simp only [SubclassSelector.test, alike.id paired, alike.hasClass paired,
      alike.attributeValue paired, alike.ask paired]

theorem meets_iff (alike : Alike view other Pair) (paired : Pair node twin)
    (compound : CompoundSelector) : compound.Meets view node ↔ compound.Meets other twin := by
  have type : CompoundSelector.testType view node compound.type =
      CompoundSelector.testType other twin compound.type := by
    unfold CompoundSelector.testType
    simp only [alike.tagName paired, alike.ask paired]
  rw [CompoundSelector.Meets, CompoundSelector.Meets, CompoundSelector.test, CompoundSelector.test,
    type, alike.testAll paired]

end Compound

/-- The chain of one side is followed on the other. The induction takes the compounds from the
right, where the paired nodes are. -/
theorem exists_linked (alike : Alike view other Pair) {first last : ν} {twin : μ}
    {tail : List (Combinator × CompoundSelector)} (paired : Pair last twin)
    (chain : Linked view first tail last) :
    ∃ firstTwin, Linked other firstTwin tail twin ∧ Pair first firstTwin := by
  induction tail using List.reverseRecOn generalizing last twin with
  | nil =>
    cases chain
    exact ⟨twin, .done twin, paired⟩
  | append_singleton tail link ih =>
    obtain ⟨combinator, compound⟩ := link
    obtain ⟨meets, left, related, rest⟩ := linked_append_iff.mp chain
    obtain ⟨leftTwin, otherRelated, leftPaired⟩ := alike.exists_related paired related
    obtain ⟨firstTwin, otherRest, firstPaired⟩ := ih leftPaired rest
    have otherMeets := (alike.meets_iff paired compound).mp meets
    exact ⟨firstTwin, linked_append_iff.mpr ⟨otherMeets, leftTwin, otherRelated, otherRest⟩,
      firstPaired⟩

theorem chain_of_chain (alike : Alike view other Pair) {node : ν} {twin : μ}
    (paired : Pair node twin) {selector : ComplexSelector} (chain : selector.Chain view node) :
    selector.Chain other twin := by
  obtain ⟨first, meets, linked⟩ := chain
  obtain ⟨firstTwin, otherLinked, firstPaired⟩ := alike.exists_linked paired linked
  exact ⟨firstTwin, (alike.meets_iff firstPaired selector.head).mp meets, otherLinked⟩

theorem chain_iff (alike : Alike view other Pair) {node : ν} {twin : μ} (paired : Pair node twin)
    (selector : ComplexSelector) : selector.Chain view node ↔ selector.Chain other twin :=
  ⟨alike.chain_of_chain paired, alike.swap.chain_of_chain paired⟩

section Test

variable [BEq ν] [Hashable ν] [LawfulBEq ν] [LawfulHashable ν]
  [BEq μ] [Hashable μ] [LawfulBEq μ] [LawfulHashable μ]
  {region : List ν} {otherRegion : List μ} {node : ν} {twin : μ}

theorem test_columnFree (alike : Alike view other Pair) (covers : view.Covers region)
    (otherCovers : other.Covers otherRegion) (start : node ∈ region) (otherStart : twin ∈ otherRegion)
    (paired : Pair node twin) {selector : ComplexSelector} (free : selector.ColumnFree) :
    selector.test view node = selector.test other twin := by
  obtain ⟨matched, tested, matched_iff⟩ := selector.test_decides covers start free
  obtain ⟨otherMatched, otherTested, otherMatched_iff⟩ :=
    selector.test_decides otherCovers otherStart free
  have same : matched = otherMatched := by
    rw [Bool.eq_iff_iff, matched_iff, otherMatched_iff, alike.chain_iff paired]
  rw [tested, otherTested, same]

theorem complexTest (alike : Alike view other Pair) (covers : view.Covers region)
    (otherCovers : other.Covers otherRegion) (start : node ∈ region) (otherStart : twin ∈ otherRegion)
    (paired : Pair node twin) (selector : ComplexSelector) :
    selector.test view node = selector.test other twin := by
  by_cases free : selector.ColumnFree
  · exact alike.test_columnFree covers otherCovers start otherStart paired free
  · obtain ⟨rest, behind⟩ := ComplexSelector.exists_behindColumns free
    obtain ⟨matched, tested, stopped⟩ := ComplexSelector.test_of_behindColumns covers start behind
    obtain ⟨otherMatched, otherTested, otherStopped⟩ :=
      ComplexSelector.test_of_behindColumns otherCovers otherStart behind
    have same := alike.test_columnFree covers otherCovers start otherStart paired behind.free
    rw [tested, otherTested] at same
    rw [stopped, otherStopped, Except.ok.inj same]

/-- A selector list has the same outcome at paired nodes. -/
theorem listTest (alike : Alike view other Pair) (covers : view.Covers region)
    (otherCovers : other.Covers otherRegion) (start : node ∈ region) (otherStart : twin ∈ otherRegion)
    (paired : Pair node twin) (list : SelectorList) :
    list.test view node = list.test other twin :=
  SelectorList.test_congr fun selector _ =>
    alike.complexTest covers otherCovers start otherStart paired selector

end Test

/-! ## Traversals -/

/-- Paired forests have paired preorders. -/
theorem forall₂_preorder (alike : Alike view other Pair) {forest nodes : List ν}
    {twins twinNodes : List μ} (all : View.Preorder view forest nodes)
    (otherAll : View.Preorder other twins twinNodes) (paired : List.Forall₂ Pair forest twins) :
    List.Forall₂ Pair nodes twinNodes := by
  induction all generalizing twins twinNodes with
  | nil =>
    cases paired
    cases otherAll
    exact .nil
  | cons _ _ _ ihInner ihRest =>
    obtain _ | ⟨first, rest⟩ := paired
    obtain _ | ⟨_, otherInner, otherRest⟩ := otherAll
    exact .cons first
      (List.rel_append (ihInner otherInner (alike.children first)) (ihRest otherRest rest))

end Alike

end CssSelect
