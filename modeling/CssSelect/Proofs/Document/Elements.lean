import Mathlib.Data.Finset.Card
import CssSelect.Document.View
import CssSelect.Proofs.Document.Links
import CssSelect.Proofs.Traversal.Preorder

/-!
The elements of a tree whose links agree. Skipping what is no element leaves children lists in
their order, and an element's neighbour is the one next to it in the shorter list. Subtrees are
finite, so every walk and every traversal comes to an end.
-/
namespace CssSelect.Tree

open View (Leads Preorder)

variable {tree : Tree}

theorem mem_childElements_iff (linked : tree.WellLinked) {above id : NodeId} :
    id ∈ tree.childElements above ↔ tree.isElement id = true ∧ tree.parent? id = some above := by
  rw [childElements, List.mem_filter, linked.mem_children_iff, and_comm]

theorem lt_size_of_isElement {id : NodeId} (element : tree.isElement id = true) :
    id < tree.size := by
  apply Nat.lt_of_not_le
  intro outside
  rw [isElement, element?, get?_eq_none outside] at element
  cases element

/-! ## Neighbours -/

section Walk

variable {step : NodeId → Option NodeId} {id : NodeId}

theorem firstElement_none : tree.firstElement step none = none :=
  iterate_of_result rfl

theorem firstElement_of_element (element : tree.isElement id = true) :
    tree.firstElement step (some id) = some id := by
  apply iterate_of_result
  rw [passOver, if_pos element]

theorem firstElement_of_other (other : tree.isElement id = false) :
    tree.firstElement step (some id) = tree.firstElement step (step id) := by
  apply iterate_of_next
  rw [passOver, if_neg (by rw [other]; decide)]

end Walk

/-- The element before a child is the last element before its place. -/
theorem WellLinked.previousElement?_of_child (linked : tree.WellLinked) {above id : NodeId}
    {place : Nat} (found : (tree.children above)[place]? = some id) :
    tree.previousElement? id =
      (((tree.children above).take place).filter tree.isElement).getLast? := by
  induction place generalizing id with
  | zero =>
    rw [previousElement?, linked.previous_first above id found, firstElement_none]
    rfl
  | succ place ih =>
    -- The walk comes to the child before, and ends there or goes on as from that child.
    have inside : place < (tree.children above).length :=
      Nat.lt_of_succ_lt (List.getElem?_eq_some_iff.mp found).1
    have before := List.getElem?_eq_getElem inside
    rw [previousElement?, linked.previous_later above place id found, before,
      List.take_succ_eq_append_getElem inside, List.filter_append]
    cases element : tree.isElement (tree.children above)[place] with
    | true =>
      rw [firstElement_of_element element, List.filter_singleton, element]
      exact List.getLast?_concat.symm
    | false =>
      rw [firstElement_of_other element, List.filter_singleton, element]
      exact (ih before).trans (congrArg List.getLast? (List.append_nil _).symm)

/-- The element after a child is the first element behind its place. The induction is on how many
children are left behind that place. -/
theorem WellLinked.nextElement?_of_child (linked : tree.WellLinked) {above id : NodeId}
    {place : Nat} (found : (tree.children above)[place]? = some id) :
    tree.nextElement? id =
      (((tree.children above).drop (place + 1)).filter tree.isElement).head? := by
  induction left : (tree.children above).length - (place + 1) generalizing id place with
  | zero =>
    have last : (tree.children above).length ≤ place + 1 := Nat.le_of_sub_eq_zero left
    rw [nextElement?, linked.next above place id found, List.getElem?_eq_none last,
      firstElement_none, List.drop_of_length_le last]
    rfl
  | succ left ih =>
    have inside : place + 1 < (tree.children above).length := by omega
    have after := List.getElem?_eq_getElem inside
    rw [nextElement?, linked.next above place id found, after, List.drop_eq_getElem_cons inside]
    cases element : tree.isElement (tree.children above)[place + 1] with
    | true =>
      rw [firstElement_of_element element, List.filter_cons_of_pos element]
      rfl
    | false =>
      rw [firstElement_of_other element, List.filter_cons_of_neg (by rw [element]; decide)]
      exact ih after (by omega)

/-- A place in a filtered list, in the list itself: the same items are left before and behind it. -/
theorem exists_place_of_filter {α : Type} {keep : α → Bool} {items : List α} {place : Nat}
    {item : α} (found : (items.filter keep)[place]? = some item) :
    ∃ original, items[original]? = some item ∧
      (items.take original).filter keep = (items.filter keep).take place ∧
      (items.drop (original + 1)).filter keep = (items.filter keep).drop (place + 1) := by
  induction items generalizing place with
  | nil => cases found
  | cons first items ih =>
    cases kept : keep first with
    | true =>
      rw [List.filter_cons_of_pos kept] at found ⊢
      cases place with
      | zero => exact ⟨0, found, rfl, rfl⟩
      | succ place =>
        obtain ⟨original, there, before, behind⟩ := ih found
        exact ⟨original + 1, there, by simp [kept, before], behind⟩
    | false =>
      have dropped : ¬ keep first = true := by rw [kept]; decide
      rw [List.filter_cons_of_neg dropped] at found ⊢
      obtain ⟨original, there, before, behind⟩ := ih found
      exact ⟨original + 1, there, by simp [kept, before], behind⟩

/-- The element before a child element is the one before it among the child elements. -/
theorem WellLinked.previousElement?_of_childElement (linked : tree.WellLinked) {above id : NodeId}
    {place : Nat} (found : (tree.childElements above)[place]? = some id) :
    tree.previousElement? id = ((tree.childElements above).take place).getLast? := by
  obtain ⟨original, there, before, _⟩ := exists_place_of_filter found
  rw [linked.previousElement?_of_child there, before]
  rfl

/-- The element after a child element is the one after it among the child elements. -/
theorem WellLinked.nextElement?_of_childElement (linked : tree.WellLinked) {above id : NodeId}
    {place : Nat} (found : (tree.childElements above)[place]? = some id) :
    tree.nextElement? id = (tree.childElements above)[place + 1]? := by
  obtain ⟨original, there, _, behind⟩ := exists_place_of_filter found
  rw [linked.nextElement?_of_child there, behind, List.head?_drop]
  rfl

/-- A child element that is not the first of them has the one before it as its neighbour. -/
theorem WellLinked.exists_previousElement (linked : tree.WellLinked) {above id : NodeId}
    {place : Nat} (found : (tree.childElements above)[place + 1]? = some id) :
    ∃ before, (tree.childElements above)[place]? = some before ∧
      tree.previousElement? id = some before := by
  have inside : place < (tree.childElements above).length :=
    Nat.lt_of_succ_lt (List.getElem?_eq_some_iff.mp found).1
  refine ⟨_, List.getElem?_eq_getElem inside, ?_⟩
  rw [linked.previousElement?_of_childElement found, List.take_succ_eq_append_getElem inside,
    List.getLast?_concat]

/-- A node without a parent has no neighbour. -/
theorem WellLinked.previousElement?_of_orphan (linked : tree.WellLinked) {id : NodeId}
    (noParent : tree.parent? id = none) : tree.previousElement? id = none := by
  rw [previousElement?, (linked.orphan id noParent).1, firstElement_none]

theorem WellLinked.nextElement?_of_orphan (linked : tree.WellLinked) {id : NodeId}
    (noParent : tree.parent? id = none) : tree.nextElement? id = none := by
  rw [nextElement?, (linked.orphan id noParent).2, firstElement_none]

/-- Neighbours are child elements of one node, which may itself be no element. -/
theorem WellLinked.mem_childElements_of_previousElement? (linked : tree.WellLinked)
    {id before : NodeId} (left : tree.previousElement? id = some before) :
    ∃ above, tree.parent? id = some above ∧ before ∈ tree.childElements above := by
  cases up : tree.parent? id with
  | none =>
    rw [linked.previousElement?_of_orphan up] at left
    cases left
  | some above =>
    obtain ⟨place, found⟩ := linked.consistent.exists_place up
    rw [linked.previousElement?_of_child found] at left
    exact ⟨above, rfl, ((List.take_sublist place _).filter _).subset (List.mem_of_getLast? left)⟩

theorem WellLinked.mem_childElements_of_nextElement? (linked : tree.WellLinked)
    {id after : NodeId} (right : tree.nextElement? id = some after) :
    ∃ above, tree.parent? id = some above ∧ after ∈ tree.childElements above := by
  cases up : tree.parent? id with
  | none =>
    rw [linked.nextElement?_of_orphan up] at right
    cases right
  | some above =>
    obtain ⟨place, found⟩ := linked.consistent.exists_place up
    rw [linked.nextElement?_of_child found] at right
    exact ⟨above, rfl, ((List.drop_sublist _ _).filter _).subset (List.mem_of_head? right)⟩

theorem WellLinked.parentElement?_of_childElement (linked : tree.WellLinked) {above id : NodeId}
    (member : id ∈ tree.childElements above) :
    tree.parentElement? id = if tree.isElement above then some above else none := by
  rw [parentElement?, ((mem_childElements_iff linked).mp member).2]
  rfl

/-- No walk leaves the nodes of the tree. -/
theorem WellLinked.covers (linked : tree.WellLinked) : tree.view.Covers (List.range tree.size) where
  knows _ _ := rfl
  parent id _ next taken := by
    obtain ⟨above, _⟩ := Option.filter_eq_some_iff.mp taken
    exact List.mem_range.mpr (linked.parent_lt id next above)
  previousSibling id _ next taken := by
    obtain ⟨above, _, member⟩ := linked.mem_childElements_of_previousElement? taken
    exact List.mem_range.mpr (linked.child_lt above next (List.mem_of_mem_filter member))

/-! ## Walks come to an end -/

/-- Steps to allocated nodes that never lead back to where they started come to an end: the nodes
that can still be reached become fewer. -/
theorem wellFounded_of_acyclic {step : NodeId → NodeId → Prop} {size : Nat}
    (bounded : ∀ next id, step next id → next < size)
    (acyclic : ∀ id, ¬ Relation.TransGen step id id) : WellFounded step := by
  classical
  let reached (id : NodeId) := (Finset.range size).filter fun other => Relation.TransGen step other id
  refine Subrelation.wf ?_ (measure fun id => (reached id).card).wf
  intro next id taken
  refine Finset.card_lt_card (Finset.ssubset_iff_of_subset ?_ |>.mpr ⟨next, ?_, ?_⟩)
  · intro other member
    obtain ⟨allocated, path⟩ := Finset.mem_filter.mp member
    exact Finset.mem_filter.mpr ⟨allocated, path.tail taken⟩
  · exact Finset.mem_filter.mpr ⟨Finset.mem_range.mpr (bounded next id taken), .single taken⟩
  · intro member
    exact acyclic next (Finset.mem_filter.mp member).2

/-- There is no way down without an end. -/
theorem WellLinked.wellFounded_children (linked : tree.WellLinked) :
    WellFounded fun child above => tree.parent? child = some above :=
  wellFounded_of_acyclic
    (fun child above up => linked.child_lt above child ((linked.mem_children_iff above child).mpr up))
    linked.acyclic

/-- There is no way up without an end. -/
theorem WellLinked.wellFounded_parent (linked : tree.WellLinked) :
    WellFounded fun above child => tree.parent? child = some above := by
  refine wellFounded_of_acyclic (fun above child => linked.parent_lt child above) ?_
  intro id circle
  exact linked.acyclic id (Relation.transGen_swap.mp circle)

/-- The way down comes to an end in every view that shows no more children than the tree has. -/
theorem WellLinked.exists_preorder_of_sublist (linked : tree.WellLinked) {view : View NodeId}
    (known : ∀ id, view.knows id = true)
    (narrow : ∀ id, (view.children id).Sublist (tree.children id)) (root : NodeId) :
    ∃ nodes, Preorder view (view.children root) nodes := by
  induction root using linked.wellFounded_children.induction with
  | h root ih =>
    refine Preorder.exists_of_each (fun child _ => known child) fun child member => ?_
    exact ih child ((linked.mem_children_iff root child).mp ((narrow root).subset member))

/-- Every traversal comes to an end. -/
theorem WellLinked.exists_preorder (linked : tree.WellLinked) (root : NodeId) :
    ∃ nodes, Preorder tree.view (tree.childElements root) nodes :=
  linked.exists_preorder_of_sublist (fun _ => rfl) (fun _ => List.filter_sublist) root

end CssSelect.Tree
