import CssSelect.Proofs.Document.Elements
import CssSelect.Proofs.Document.Numbering
import CssSelect.Proofs.Matching.Alike

/-!
Documents that differ in their texts only. They have the same elements in the same order, and
each is loaded if the other is. The two trees number their nodes differently; an element of the
one has its twin in the other at the same place among the child elements of its parent's twin, and
the views of the trees are alike at twins.
-/
namespace CssSelect

namespace Outline

/-- A text is put somewhere into a forest: among its roots, or below one of them. -/
inductive TextInserted : List Outline → List Outline → Prop
  | here (content : String) (others : List Outline) : TextInserted others (.text content :: others)
  | behind {others longer : List Outline} (outline : Outline) (inserted : TextInserted others longer) :
      TextInserted (outline :: others) (outline :: longer)
  | inside {children longer : List Outline} (tag : String) (attributes : List (String × String))
      (others : List Outline) (inserted : TextInserted children longer) :
      TextInserted (.element tag attributes children :: others)
        (.element tag attributes longer :: others)

mutual

/-- The node without the texts below it, and nothing if it is a text itself. -/
def ownElement : Outline → List Outline
  | .text _ => []
  | .element tag attributes children => [.element tag attributes (elementsOnly children)]

/-- The forest without its texts. -/
def elementsOnly : List Outline → List Outline
  | [] => []
  | outline :: outlines => outline.ownElement ++ elementsOnly outlines

end

theorem elementsOnly_element (tag : String) (attributes : List (String × String))
    (children others : List Outline) :
    elementsOnly (.element tag attributes children :: others) =
      .element tag attributes (elementsOnly children) :: elementsOnly others :=
  rfl

theorem elementsOnly_of_textInserted {outlines longer : List Outline}
    (inserted : TextInserted outlines longer) : elementsOnly longer = elementsOnly outlines := by
  induction inserted with
  | here content others => rfl
  | behind outline _ ih => rw [elementsOnly, elementsOnly, ih]
  | inside tag attributes others _ ih => rw [elementsOnly_element, elementsOnly_element, ih]

/-- Putting texts in and taking texts out leaves what is no text. -/
theorem elementsOnly_eq {document other : List Outline}
    (texts : Relation.EqvGen TextInserted document other) :
    elementsOnly document = elementsOnly other := by
  induction texts with
  | rel _ _ inserted => exact (elementsOnly_of_textInserted inserted).symm
  | refl => rfl
  | symm _ _ _ ih => exact ih.symm
  | trans _ _ _ _ _ first second => exact first.trans second

theorem map_elementsAll (first second : Nat) (outlines : List Outline) :
    (elementsAll first outlines).map Prod.snd =
      (elementsAll second (elementsOnly outlines)).map Prod.snd := by
  induction outlines using forest_induction generalizing first second with
  | nil => rfl
  | text content others ih =>
    exact ih _ _
  | element tag attributes inner others ihInner ihOthers =>
    rw [elementsOnly_element]
    simp only [elementsAll, elements, List.map_append, List.map_cons]
    rw [ihInner, ihOthers]

/-- Texts do not matter for the elements of a document and their order. -/
theorem map_elementsAll_eq {document other : List Outline}
    (texts : Relation.EqvGen TextInserted document other) :
    (elementsAll 1 document).map Prod.snd = (elementsAll 1 other).map Prod.snd := by
  rw [map_elementsAll 1 1 document, map_elementsAll 1 1 other, elementsOnly_eq texts]

end Outline

namespace Tree

open Outline (countAll tops elementOf elementsAll elementsOnly elementsOnly_element
  forest_induction TextInserted)

/-- Texts do not matter for whether a document is loaded. -/
theorem exists_ofOutlines_iff {document other : List Outline}
    (texts : Relation.EqvGen TextInserted document other) :
    (∃ tree, ofOutlines document = .ok tree) ↔ ∃ tree, ofOutlines other = .ok tree := by
  have by_elements : ∀ outlines, (∃ tree, ofOutlines outlines = .ok tree) ↔
      ∀ element ∈ (elementsAll 1 outlines).map Prod.snd, element.tag.isEmpty = false := by
    intro outlines
    rw [List.forall_mem_map]
    exact exists_insertAll_iff 1
  rw [by_elements, by_elements, Outline.map_elementsAll_eq texts]

section Shows

variable {tree : Tree} {first : Nat}

theorem isElement_of_text {id : NodeId} {content : String}
    (shown : (tree.get? id).map Node.kind = some (.text content)) : tree.isElement id = false := by
  rw [isElement, element?_eq_bind, shown]
  rfl

theorem element?_of_element {id : NodeId} {element : Element}
    (shown : (tree.get? id).map Node.kind = some (.element element)) :
    tree.element? id = some element := by
  rw [element?_eq_bind, shown]
  rfl

theorem isElement_of_element {id : NodeId} {element : Element}
    (shown : (tree.get? id).map Node.kind = some (.element element)) : tree.isElement id = true := by
  rw [isElement, element?_of_element shown]
  rfl

theorem Shows.filter_text {content : String} {others : List Outline}
    (shown : tree.Shows first (.text content :: others)) :
    (tops first (.text content :: others)).filter tree.isElement =
      (tops (first + 1) others).filter tree.isElement := by
  have dropped : ¬ tree.isElement first = true := by
    rw [isElement_of_text shown.1.1]
    decide
  rw [tops, List.filter_cons_of_neg dropped]
  rfl

theorem Shows.filter_element {tag : String} {attributes : List (String × String)}
    {children others : List Outline}
    (shown : tree.Shows first (.element tag attributes children :: others)) :
    (tops first (.element tag attributes children :: others)).filter tree.isElement =
      first :: (tops (first + (countAll children + 1)) others).filter tree.isElement := by
  rw [tops, List.filter_cons_of_pos (isElement_of_element shown.1.1)]
  rfl

/-- The tree has the elements of a document where these are numbered. -/
theorem Shows.element?_eq {outlines : List Outline} (shown : tree.Shows first outlines) :
    ∀ entry ∈ elementsAll first outlines, tree.element? entry.1 = some entry.2 := by
  induction outlines using forest_induction generalizing first with
  | nil => exact fun _ member => absurd member List.not_mem_nil
  | text content others ih => exact ih shown.2
  | element tag attributes inner others ihInner ihOthers =>
    obtain ⟨⟨isElement, _, below⟩, rest⟩ := shown
    simp only [elementsAll, Outline.elements]
    rw [List.forall_mem_append, List.forall_mem_cons]
    exact ⟨⟨element?_of_element isElement, ihInner below⟩, ihOthers rest⟩

/-- A traversal goes through the elements of a document in their order. -/
theorem Shows.preorder {outlines : List Outline} (shown : tree.Shows first outlines) :
    View.Preorder tree.view ((tops first outlines).filter tree.isElement)
      ((elementsAll first outlines).map Prod.fst) := by
  induction outlines using forest_induction generalizing first with
  | nil => exact .nil
  | text content others ih =>
    rw [shown.filter_text]
    exact ih shown.2
  | element tag attributes inner others ihInner ihOthers =>
    rw [shown.filter_element]
    obtain ⟨_, placed, below⟩ := shown.1
    have children : tree.view.children first = (tops (first + 1) inner).filter tree.isElement := by
      rw [← placed]
      rfl
    simp only [elementsAll, Outline.elements, List.cons_append, List.map_cons, List.map_append]
    exact .cons rfl (children ▸ ihInner below) (ihOthers shown.2)

/-- The children of a node are the roots of a forest that the tree shows. -/
def ShowsBelow (tree : Tree) (id : NodeId) (outlines : List Outline) : Prop :=
  ∃ first, tree.children id = tops first outlines ∧ tree.Shows first outlines

theorem Shows.length_filter {outlines : List Outline} (shown : tree.Shows first outlines) :
    ((tops first outlines).filter tree.isElement).length = (elementsOnly outlines).length := by
  induction outlines using forest_induction generalizing first with
  | nil => rfl
  | text content others ih =>
    rw [shown.filter_text]
    exact ih shown.2
  | element tag attributes inner others _ ihOthers =>
    rw [shown.filter_element, elementsOnly_element, List.length_cons, List.length_cons]
    exact congrArg (· + 1) (ihOthers shown.2)

/-- What stands at a place among the roots that are elements. -/
theorem Shows.exists_element {outlines : List Outline} (shown : tree.Shows first outlines)
    {place : Nat} {id : NodeId}
    (found : ((tops first outlines).filter tree.isElement)[place]? = some id) :
    ∃ tag attributes inner,
      (elementsOnly outlines)[place]? = some (.element tag attributes (elementsOnly inner)) ∧
      tree.element? id = some (elementOf tag attributes) ∧ tree.ShowsBelow id inner := by
  induction outlines using forest_induction generalizing first place with
  | nil => cases found
  | text content others ih =>
    rw [shown.filter_text] at found
    exact ih shown.2 found
  | element tag attributes inner others _ ihOthers =>
    rw [shown.filter_element] at found
    rw [elementsOnly_element]
    cases place with
    | zero =>
      cases found
      obtain ⟨isElement, placed, below⟩ := shown.1
      exact ⟨tag, attributes, inner, rfl, element?_of_element isElement, _, placed, below⟩
    | succ place => exact ihOthers shown.2 found

end Shows

/-! ## Twins -/

/-- The documents of two trees are twins, and so are elements at the same place among the child
elements of twins. -/
inductive Twins (tree other : Tree) : NodeId → NodeId → Prop
  | documents : Twins tree other root root
  | child {above twinAbove id twin : NodeId} {place : Nat} (parents : Twins tree other above twinAbove)
      (here : (tree.childElements above)[place]? = some id)
      (there : (other.childElements twinAbove)[place]? = some twin) : Twins tree other id twin

/-- What twins have in common: both are the same element, or no element, and below them are
forests that differ in their texts only. -/
structure SameButTexts (tree other : Tree) (id twin : NodeId) : Prop where
  element : tree.element? id = other.element? twin
  below : ∃ outlines otherOutlines, elementsOnly outlines = elementsOnly otherOutlines ∧
    tree.ShowsBelow id outlines ∧ other.ShowsBelow twin otherOutlines

section Loaded

variable {tree other : Tree} {document otherDocument : List Outline}

/-- Going down from the roots, the same element is met at the same place. -/
theorem Twins.sameButTexts (grown : empty.GrownBy root document tree)
    (otherGrown : empty.GrownBy root otherDocument other)
    (same : elementsOnly document = elementsOnly otherDocument) {id twin : NodeId}
    (twins : Twins tree other id twin) : SameButTexts tree other id twin := by
  induction twins with
  | documents =>
    obtain ⟨isDocument, children, shown⟩ := grown.below_root
    obtain ⟨otherDocumentToo, otherChildren, otherShown⟩ := otherGrown.below_root
    exact ⟨element?_congr (isDocument.trans otherDocumentToo.symm), document, otherDocument, same,
      ⟨1, children, shown⟩, 1, otherChildren, otherShown⟩
  | child _ here there ih =>
    obtain ⟨_, outlines, otherOutlines, same, ⟨first, children, shown⟩,
      otherFirst, otherChildren, otherShown⟩ := ih
    rw [childElements, children] at here
    rw [childElements, otherChildren] at there
    obtain ⟨tag, attributes, inner, found, element, below⟩ := shown.exists_element here
    obtain ⟨_, _, otherInner, otherFound, otherElement, otherBelow⟩ :=
      otherShown.exists_element there
    rw [← same, found] at otherFound
    obtain ⟨rfl, rfl, sameInner⟩ := Outline.element.inj (Option.some.inj otherFound)
    exact ⟨element.trans otherElement.symm, inner, otherInner, sameInner, below, otherBelow⟩

theorem SameButTexts.isElement {id twin : NodeId} (same : SameButTexts tree other id twin) :
    tree.isElement id = other.isElement twin := by
  rw [Tree.isElement, Tree.isElement, same.element]

/-- The element children of twins are twins, one after the other. -/
theorem Twins.children {id twin : NodeId} (twins : Twins tree other id twin)
    (same : SameButTexts tree other id twin) :
    List.Forall₂ (Twins tree other) (tree.childElements id) (other.childElements twin) := by
  obtain ⟨_, outlines, otherOutlines, same, ⟨first, children, shown⟩,
    otherFirst, otherChildren, otherShown⟩ := same
  have length : (tree.childElements id).length = (other.childElements twin).length := by
    rw [childElements, childElements, children, otherChildren, shown.length_filter,
      otherShown.length_filter, same]
  rw [List.forall₂_iff_get]
  exact ⟨length, fun place here there =>
    .child twins (List.getElem?_eq_getElem here) (List.getElem?_eq_getElem there)⟩

/-- The parents of twins are twins. Above a top-level element stands the document, which is no
element on either side. -/
theorem Twins.parent (linked : tree.WellLinked) (otherLinked : other.WellLinked)
    (agree : ∀ {id twin}, Twins tree other id twin → tree.isElement id = other.isElement twin)
    {id twin : NodeId} (twins : Twins tree other id twin) :
    Option.Rel (Twins tree other) (tree.parentElement? id) (other.parentElement? twin) := by
  cases twins with
  | documents =>
    rw [parentElement?, parentElement?, linked.root_parent, otherLinked.root_parent]
    exact .none
  | child parents here there =>
    rw [linked.parentElement?_of_childElement (List.mem_of_getElem? here),
      otherLinked.parentElement?_of_childElement (List.mem_of_getElem? there), agree parents]
    split
    · exact .some parents
    · exact .none

/-- The elements before twins are twins, as they stand at the same place. -/
theorem Twins.previousSibling (linked : tree.WellLinked) (otherLinked : other.WellLinked)
    {id twin : NodeId} (twins : Twins tree other id twin) :
    Option.Rel (Twins tree other) (tree.previousElement? id) (other.previousElement? twin) := by
  cases twins with
  | documents =>
    rw [linked.previousElement?_of_orphan linked.root_parent,
      otherLinked.previousElement?_of_orphan otherLinked.root_parent]
    exact .none
  | @child _ _ _ _ place parents here there =>
    cases place with
    | zero =>
      rw [linked.previousElement?_of_childElement here,
        otherLinked.previousElement?_of_childElement there]
      exact .none
    | succ place =>
      obtain ⟨before, found, previous⟩ := linked.exists_previousElement here
      obtain ⟨otherBefore, otherFound, otherPrevious⟩ := otherLinked.exists_previousElement there
      rw [previous, otherPrevious]
      exact .some (.child parents found otherFound)

/-- The views of two loaded trees are alike at twins if the documents differ in texts only. -/
theorem alike_of_sameElements (grown : empty.GrownBy root document tree)
    (otherGrown : empty.GrownBy root otherDocument other)
    (same : elementsOnly document = elementsOnly otherDocument) :
    Alike tree.view other.view (Twins tree other) := by
  have linked : tree.WellLinked := (grown.built .empty).wellLinked
  have otherLinked : other.WellLinked := (otherGrown.built .empty).wellLinked
  have common : ∀ {id twin}, Twins tree other id twin → SameButTexts tree other id twin :=
    fun twins => twins.sameButTexts grown otherGrown same
  constructor
  case knows => exact fun _ => rfl
  case tagName => exact fun twins => congrArg (Option.map Element.tag) (common twins).element
  case id => exact fun twins => congrArg (Option.bind · Element.id?) (common twins).element
  case hasClass =>
    intro id twin twins
    funext name
    exact congrArg (Option.any (Element.hasClass · name)) (common twins).element
  case attributeValue =>
    intro id twin twins
    funext name
    exact congrArg (Option.bind · fun element => element.attributes.get? name)
      (common twins).element
  case parent =>
    exact fun twins => twins.parent linked otherLinked fun parents => (common parents).isElement
  case previousSibling => exact fun twins => twins.previousSibling linked otherLinked
  case children => exact fun twins => twins.children (common twins)

end Loaded

end Tree

end CssSelect
