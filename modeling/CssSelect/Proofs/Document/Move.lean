import CssSelect.Proofs.Document.Links

/-!
Putting a node behind the children of another when it already stands somewhere. Nothing takes it
out of its former place, so the links of the tree agree afterwards exactly if the node had no
parent: otherwise two lists have it, or one list has it twice. A node that is put behind itself
becomes its own neighbour, and the ways along its siblings have no end.
-/
namespace CssSelect.Tree

open View (Leads)

variable {tree : Tree} {parent child former : NodeId}

/-- What it means that a node was moved behind the children of another: all links agree, no other
place has the node, nothing comes behind it, and the neighbours that it had are next to each
other. -/
structure Moved (tree grown : Tree) (parent child : NodeId) : Prop where
  consistent : grown.Consistent
  last : (grown.children parent).getLast? = some child
  once : ∀ other place, (grown.children other)[place]? = some child →
    other = parent ∧ place + 1 = (grown.children parent).length
  next : grown.next? child = none
  neighbours : ∀ before after, tree.previous? child = some before → tree.next? child = some after →
    grown.next? before = some after ∧ grown.previous? after = some before

/-- A node that had no parent is moved as it should be. -/
theorem Consistent.moved_link (consistent : tree.Consistent) (free : tree.Attachable parent child) :
    tree.Moved (tree.link parent child) parent child where
  consistent := consistent.link free
  last := by rw [children_link free.exists_parent, if_pos rfl, List.getLast?_concat]
  once other place found := by
    rcases free.getElem?_children_link found with old | ⟨here, last, _⟩
    · exact absurd rfl (consistent.ne_of_getElem? free.orphan old)
    · rw [children_link free.exists_parent, if_pos rfl, List.length_append, List.length_singleton]
      exact ⟨here, congrArg (· + 1) last⟩
  next := by
    rw [next?_link (consistent.child_lt parent), if_neg (consistent.getLast?_ne free.orphan parent)]
    exact (consistent.orphan child free.orphan).2
  neighbours before after left _ := by
    rw [(consistent.orphan child free.orphan).1] at left
    cases left

/-- A node that had a parent keeps its place there, and no agreement is left: either the former
parent lists a child that says otherwise, or the same parent lists the child twice. -/
theorem Consistent.not_consistent_link (consistent : tree.Consistent)
    (exists_parent : parent < tree.size) (up : tree.parent? child = some former) :
    ¬ (tree.link parent child).Consistent := by
  intro agreed
  have listed : child ∈ tree.children former := (consistent.mem_children_iff former child).mpr up
  have exists_child : child < tree.size := consistent.child_lt former child listed
  by_cases same : former = parent
  · subst same
    have nodup := agreed.nodup_children former
    rw [children_link exists_parent, if_pos rfl, List.nodup_append] at nodup
    exact nodup.2.2 child listed child (List.mem_singleton_self child) rfl
  · have kept : child ∈ (tree.link parent child).children former := by
      rw [children_link exists_parent, if_neg same]
      exact listed
    rw [agreed.mem_children_iff, parent?_link exists_child, if_pos rfl] at kept
    exact same (Option.some.inj kept).symm

/-- A node that is put behind itself becomes its own neighbour on both sides. -/
theorem Consistent.neighbours_link_last (consistent : tree.Consistent)
    (last : (tree.children parent).getLast? = some child) :
    (tree.link parent child).previous? child = some child ∧
      (tree.link parent child).next? child = some child := by
  have exists_child := consistent.child_lt parent child (List.mem_of_getLast? last)
  constructor
  · rw [previous?_link exists_child, if_pos rfl, last, Option.some_or]
  · rw [next?_link (consistent.child_lt parent), if_pos last]

theorem follow_of_fixed {step : NodeId → Option NodeId} {id : NodeId} (fixed : step id = some id)
    (limit : Nat) : follow step limit (step id) = List.replicate limit id := by
  induction limit with
  | zero => rfl
  | succ limit ih => rw [fixed, follow, ih, List.replicate_succ]

/-- From a node that is put behind itself, neither way along the siblings has an end. -/
theorem Consistent.siblings_link_last (consistent : tree.Consistent)
    (last : (tree.children parent).getLast? = some child) (limit : Nat) :
    (tree.link parent child).precedingSiblings child limit = List.replicate limit child ∧
      (tree.link parent child).followingSiblings child limit = List.replicate limit child := by
  obtain ⟨previous, next⟩ := consistent.neighbours_link_last last
  exact ⟨follow_of_fixed previous limit, follow_of_fixed next limit⟩

/-- Appending always succeeds for allocated nodes, and puts the node behind the children of its new
parent without taking it from anywhere. So it moves the node exactly if there was nothing to take
it from; if the node had a parent, the links do not agree any more. -/
theorem appendChild?_moved_iff (consistent : tree.Consistent) (exists_parent : parent < tree.size)
    (exists_child : child < tree.size) (notRoot : child ≠ root) (notSelf : child ≠ parent)
    (notAbove : ¬ Leads tree.parent? parent child) :
    ∃ grown, tree.appendChild? parent child = some grown ∧
      (∀ id, grown.children id =
        if id = parent then tree.children parent ++ [child] else tree.children id) ∧
      (tree.Moved grown parent child ↔ tree.parent? child = none) ∧
      (grown.Consistent ↔ tree.parent? child = none) := by
  have moved : tree.parent? child = none → tree.Moved (tree.link parent child) parent child :=
    fun orphan => consistent.moved_link
      ⟨exists_parent, exists_child, notRoot, orphan, notSelf, notAbove⟩
  have orphan : (tree.link parent child).Consistent → tree.parent? child = none := by
    intro agreed
    cases up : tree.parent? child with
    | none => rfl
    | some former => exact absurd agreed (consistent.not_consistent_link exists_parent up)
  refine ⟨tree.link parent child, appendChild?_eq exists_parent exists_child,
    children_link exists_parent, ?_, ?_⟩
  · exact ⟨fun done => orphan done.consistent, moved⟩
  · exact ⟨orphan, fun noParent => (moved noParent).consistent⟩

/-- Three elements in a row. -/
def threeInRow : Tree :=
  (((empty.append root (.element ⟨"a", .empty⟩)).2.append root (.element ⟨"b", .empty⟩)).2.append
    root (.element ⟨"c", .empty⟩)).2

theorem wellLinked_threeInRow : threeInRow.WellLinked := by
  have built : threeInRow.WellBuilt := by
    refine WellBuilt.append (WellBuilt.append (WellBuilt.append .empty ?_ _) ?_ _) ?_ _
    all_goals decide
  exact built.wellLinked

/-- The same, and a fourth element that does not stand anywhere. -/
def rowAndDetached : Tree :=
  (threeInRow.alloc (.element ⟨"d", .empty⟩)).2

/-- The fourth element is put under the second one. -/
theorem appendChild?_moved_detached :
    rowAndDetached.Consistent ∧ rowAndDetached.Attachable 2 4 ∧
      ∃ grown, rowAndDetached.appendChild? 2 4 = some grown ∧ rowAndDetached.Moved grown 2 4 := by
  have consistent : rowAndDetached.Consistent := (wellLinked_threeInRow.alloc _).consistent
  have free : rowAndDetached.Attachable 2 4 := wellLinked_threeInRow.attachable_alloc (by decide) _
  obtain ⟨grown, appended, _, moved_iff, _⟩ := appendChild?_moved_iff consistent free.exists_parent
    free.exists_child free.notRoot free.notSelf free.notAbove
  exact ⟨consistent, free, grown, appended, moved_iff.mpr free.orphan⟩

/-- The second of three elements is put under the first one. It is a child of the first one then,
but the document lists it as before, and the third element has it as its neighbour. -/
theorem appendChild?_not_moved :
    threeInRow.Consistent ∧ 1 < threeInRow.size ∧ 2 < threeInRow.size ∧ 2 ≠ root ∧ 2 ≠ 1 ∧
      ¬ Leads threeInRow.parent? 1 2 ∧
      ∃ grown, threeInRow.appendChild? 1 2 = some grown ∧ ¬ grown.Consistent ∧
        ¬ threeInRow.Moved grown 1 2 ∧ grown.parent? 2 = some 1 ∧
        grown.children root = [1, 2, 3] ∧ grown.previous? 3 = some 2 := by
  have consistent := wellLinked_threeInRow.consistent
  have notAbove : ¬ Leads threeInRow.parent? 1 2 := by
    intro path
    rcases (View.leads_iff_of_some (rfl : threeInRow.parent? 1 = some root) 2).mp path with same | up
    · cases same
    · obtain ⟨_, taken, _⟩ := Relation.TransGen.head'_iff.mp up
      cases taken
  have broken : ¬ (threeInRow.link 1 2).Consistent :=
    consistent.not_consistent_link (by decide) (rfl : threeInRow.parent? 2 = some root)
  exact ⟨consistent, by decide, by decide, by decide, by decide, notAbove, threeInRow.link 1 2, rfl,
    broken, fun moved => broken moved.consistent, rfl, rfl, rfl⟩

end CssSelect.Tree
