import CssSelect.Proofs.Document.Loaded
import CssSelect.Proofs.Document.Elements
import CssSelect.Proofs.Matching.Alike

/-!
A new child, seen from the nodes that were there before. It stands behind all its siblings, so
nobody has it as a parent or as a sibling before; only its parent gets one more child. What
matching is told of an old node is the same as before, and a traversal that comes to the parent
visits one node more.
-/
namespace CssSelect.Tree

open View (Preorder)

variable {tree : Tree} {parent id : NodeId} {kind : NodeKind}

/-! ## Links of old nodes -/

theorem parent?_append (old : id < tree.size) :
    (tree.append parent kind).2.parent? id = tree.parent? id := by
  have exists_child : tree.size < (tree.alloc kind).2.size := by
    rw [size_alloc]
    exact Nat.lt_succ_self _
  rw [append]
  refine (parent?_link exists_child id).trans ?_
  rw [if_neg (Nat.ne_of_lt old), parent?_alloc]

theorem element?_append (old : id < tree.size) :
    (tree.append parent kind).2.element? id = tree.element? id :=
  element?_congr (kind_append old)

theorem isElement_append (old : id < tree.size) :
    (tree.append parent kind).2.isElement id = tree.isElement id := by
  rw [isElement, isElement, element?_append old]

theorem WellLinked.parentElement?_append (linked : tree.WellLinked) (old : id < tree.size) :
    (tree.append parent kind).2.parentElement? id = tree.parentElement? id := by
  rw [parentElement?, parentElement?, parent?_append old]
  cases up : tree.parent? id with
  | none => rfl
  | some above =>
    rw [Option.filter_some, Option.filter_some, isElement_append (linked.parent_lt id above up)]

/-- The children of a node are those that it had, with at most the new one behind them. -/
theorem exists_children_append (allocated : parent < tree.size) (id : NodeId) :
    ∃ added, (tree.append parent kind).2.children id = tree.children id ++ added := by
  rw [children_append allocated]
  split
  · next here => exact ⟨[tree.size], by rw [here]⟩
  · exact ⟨[], (List.append_nil _).symm⟩

theorem WellLinked.filter_isElement_append (linked : tree.WellLinked) {ids : List NodeId}
    {above : NodeId} (inside : ids ⊆ tree.children above) :
    ids.filter (tree.append parent kind).2.isElement = ids.filter tree.isElement :=
  List.filter_congr fun id member => isElement_append (linked.child_lt above id (inside member))

/-- Before a child stand the same elements as before the new one came. -/
theorem WellLinked.previousElement?_append (linked : tree.WellLinked)
    (allocated : parent < tree.size) (old : id < tree.size) :
    (tree.append parent kind).2.previousElement? id = tree.previousElement? id := by
  have grownLinked := linked.append allocated kind
  cases up : tree.parent? id with
  | none =>
    have noParent : (tree.append parent kind).2.parent? id = none := by
      rw [parent?_append old, up]
    rw [linked.previousElement?_of_orphan up, grownLinked.previousElement?_of_orphan noParent]
  | some above =>
    obtain ⟨place, found⟩ := linked.consistent.exists_place up
    obtain ⟨added, children⟩ : ∃ added, (tree.append parent kind).2.children above =
        tree.children above ++ added := exists_children_append allocated above
    have inside := (List.getElem?_eq_some_iff.mp found).1
    have grownFound : ((tree.append parent kind).2.children above)[place]? = some id := by
      rw [children, List.getElem?_append_left inside, found]
    rw [linked.previousElement?_of_child found, grownLinked.previousElement?_of_child grownFound,
      children, List.take_append_of_le_length (Nat.le_of_lt inside),
      linked.filter_isElement_append (List.take_subset place _)]

/-- Matching is told the same of an old node in both trees. -/
theorem WellLinked.alike_append (linked : tree.WellLinked) (allocated : parent < tree.size)
    (kind : NodeKind) :
    Alike tree.view.childless (tree.append parent kind).2.view.childless
      fun id twin => id < tree.size ∧ id = twin where
  knows _ := rfl
  tagName := by
    rintro id _ ⟨old, rfl⟩
    exact congrArg (Option.map Element.tag) (element?_append old).symm
  id := by
    rintro id _ ⟨old, rfl⟩
    exact congrArg (Option.bind · Element.id?) (element?_append old).symm
  hasClass := by
    rintro id _ ⟨old, rfl⟩
    funext name
    exact congrArg (Option.any (Element.hasClass · name)) (element?_append old).symm
  attributeValue := by
    rintro id _ ⟨old, rfl⟩
    funext name
    exact congrArg (Option.bind · fun element => element.attributes.get? name)
      (element?_append old).symm
  parent := by
    rintro id _ ⟨old, rfl⟩
    change Option.Rel _ (tree.parentElement? id) ((tree.append parent kind).2.parentElement? id)
    rw [linked.parentElement?_append old]
    cases up : tree.parentElement? id with
    | none => exact .none
    | some above =>
      have inside := linked.covers.parent id (List.mem_range.mpr old) above up
      exact .some ⟨List.mem_range.mp inside, rfl⟩
  previousSibling := by
    rintro id _ ⟨old, rfl⟩
    change Option.Rel _ (tree.previousElement? id) ((tree.append parent kind).2.previousElement? id)
    rw [linked.previousElement?_append allocated old]
    cases left : tree.previousElement? id with
    | none => exact .none
    | some before =>
      have inside := linked.covers.previousSibling id (List.mem_range.mpr old) before left
      exact .some ⟨List.mem_range.mp inside, rfl⟩
  children _ := .nil

/-! ## Traversals -/

/-- The child elements of a node are those that it had, and behind them the new node, without
anything below it, or nothing. -/
theorem exists_childElements_append (linked : tree.WellLinked) (allocated : parent < tree.size)
    (kind : NodeKind) (id : NodeId) :
    ∃ added, (tree.append parent kind).2.childElements id = tree.childElements id ++ added ∧
      Preorder (tree.append parent kind).2.view added added ∧ ∀ new ∈ added, new = tree.size := by
  have old : (tree.children id).filter (tree.append parent kind).2.isElement =
      tree.childElements id := linked.filter_isElement_append (List.Subset.refl _)
  rw [childElements, children_append allocated]
  by_cases here : id = parent
  · subst here
    have leaf : Preorder (tree.append id kind).2.view
        ((tree.append id kind).2.childElements tree.size) [] := by
      rw [childElements, children_append_new allocated]
      exact .nil
    have alone : Preorder (tree.append id kind).2.view [tree.size] ([tree.size] ++ []) :=
      .cons rfl leaf .nil
    refine ⟨[tree.size].filter (tree.append id kind).2.isElement, ?_, ?_, ?_⟩
    · rw [if_pos rfl, List.filter_append, old]
    · rw [List.filter_singleton]
      cases (tree.append id kind).2.isElement tree.size with
      | true => exact alone
      | false => exact .nil
    · intro new member
      exact List.mem_singleton.mp (List.mem_of_mem_filter member)
  · refine ⟨[], ?_, .nil, fun _ member => absurd member List.not_mem_nil⟩
    rw [if_neg here, old, List.append_nil]

/-- What is visited below the child elements that a node had is visited below those that it has,
and at most the new node behind it. -/
theorem WellLinked.exists_preorder_children (linked : tree.WellLinked)
    (allocated : parent < tree.size) {visited nodes : List NodeId}
    (all : Preorder (tree.append parent kind).2.view (tree.childElements id) visited)
    (rest : visited.filter (· ≠ tree.size) = nodes) :
    ∃ grown, Preorder (tree.append parent kind).2.view
        ((tree.append parent kind).2.childElements id) grown ∧
      grown.filter (· ≠ tree.size) = nodes := by
  obtain ⟨added, children, new, isNew⟩ := exists_childElements_append linked allocated kind id
  have noneLeft : added.filter (· ≠ tree.size) = [] := by
    rw [List.filter_eq_nil_iff]
    intro other member
    simpa using isNew other member
  refine ⟨visited ++ added, ?_, ?_⟩
  · rw [children]
    exact all.append new
  · rw [List.filter_append, rest, noneLeft, List.append_nil]

/-- A traversal of the grown tree visits the new node in addition, or the same nodes as before.
The induction is on the forest; the new node comes in at its parent, behind all below it. -/
theorem WellLinked.exists_preorder_append (linked : tree.WellLinked)
    (allocated : parent < tree.size) (kind : NodeKind) {forest nodes : List NodeId}
    (all : Preorder tree.view forest nodes) (old : ∀ id ∈ forest, id < tree.size) :
    ∃ grown, Preorder (tree.append parent kind).2.view forest grown ∧
      grown.filter (· ≠ tree.size) = nodes := by
  induction all with
  | nil => exact ⟨[], .nil, rfl⟩
  | @cons node others below behind _ _ _ ihInner ihRest =>
    obtain ⟨oldNode, oldOthers⟩ := List.forall_mem_cons.mp old
    have oldChildren : ∀ id ∈ tree.view.children node, id < tree.size :=
      fun id member => linked.child_lt node id (List.mem_of_mem_filter member)
    obtain ⟨visited, all, left⟩ := ihInner oldChildren
    obtain ⟨grownBelow, inner, leftBelow⟩ := linked.exists_preorder_children allocated all left
    obtain ⟨grownBehind, rest, leftBehind⟩ := ihRest oldOthers
    refine ⟨node :: (grownBelow ++ grownBehind), .cons rfl inner rest, ?_⟩
    rw [List.filter_cons_of_pos (by simpa using Nat.ne_of_lt oldNode), List.filter_append,
      leftBelow, leftBehind]

/-- The traversals of an old node in the two trees differ in the new node only. -/
theorem WellLinked.exists_traversal_append (linked : tree.WellLinked)
    (allocated : parent < tree.size) (kind : NodeKind) (root : NodeId) :
    ∃ nodes grown, tree.view.Traversal root nodes ∧
      (tree.append parent kind).2.view.Traversal root grown ∧
      grown.filter (· ≠ tree.size) = nodes := by
  obtain ⟨nodes, all⟩ := linked.exists_preorder root
  have old : ∀ id ∈ tree.childElements root, id < tree.size :=
    fun id member => linked.child_lt root id (List.mem_of_mem_filter member)
  obtain ⟨visited, grownAll, left⟩ := linked.exists_preorder_append allocated kind all old
  obtain ⟨grown, whole, left⟩ := linked.exists_preorder_children allocated grownAll left
  exact ⟨nodes, grown, View.traversal_iff.mpr ⟨rfl, all⟩, View.traversal_iff.mpr ⟨rfl, whole⟩, left⟩

end CssSelect.Tree
