import CssSelect.Proofs.Document.Update
import CssSelect.Proofs.Matching.Reach

/-!
The links of a tree agree with each other. A node keeps its parent, its children and its two
siblings, each of which says again what others say; `Consistent` states what all of them have
in common, and that parents do not run in circles, and `WellLinked` besides that the links lead
to nodes and the document stands at the top. Both are kept when a node is added and when one that
has no parent yet is attached, a whole subtree included; so every tree that is built by these
steps is `WellLinked`.
-/
namespace CssSelect.Tree

open View (Leads)

/-- All links lead to nodes and describe one and the same forest. -/
structure WellLinked (tree : Tree) : Prop where
  parent_lt : ∀ id parent, tree.parent? id = some parent → parent < tree.size
  child_lt : ∀ parent, ∀ child ∈ tree.children parent, child < tree.size
  previous_lt : ∀ id before, tree.previous? id = some before → before < tree.size
  next_lt : ∀ id after, tree.next? id = some after → after < tree.size
  mem_children_iff : ∀ parent child, child ∈ tree.children parent ↔ tree.parent? child = some parent
  nodup_children : ∀ parent, (tree.children parent).Nodup
  previous_first : ∀ parent child, (tree.children parent)[0]? = some child →
    tree.previous? child = none
  previous_later : ∀ parent place child, (tree.children parent)[place + 1]? = some child →
    tree.previous? child = (tree.children parent)[place]?
  next : ∀ parent place child, (tree.children parent)[place]? = some child →
    tree.next? child = (tree.children parent)[place + 1]?
  orphan : ∀ id, tree.parent? id = none → tree.previous? id = none ∧ tree.next? id = none
  root_parent : tree.parent? root = none
  acyclic : ∀ id, ¬ Leads tree.parent? id id

/-- Children, parents and siblings say the same, and parents do not run in circles. This is what
`WellLinked` says, apart from the document's place at the top; that links lead to nodes follows. -/
structure Consistent (tree : Tree) : Prop where
  mem_children_iff : ∀ parent child, child ∈ tree.children parent ↔ tree.parent? child = some parent
  nodup_children : ∀ parent, (tree.children parent).Nodup
  previous_first : ∀ parent child, (tree.children parent)[0]? = some child →
    tree.previous? child = none
  previous_later : ∀ parent place child, (tree.children parent)[place + 1]? = some child →
    tree.previous? child = (tree.children parent)[place]?
  next : ∀ parent place child, (tree.children parent)[place]? = some child →
    tree.next? child = (tree.children parent)[place + 1]?
  orphan : ∀ id, tree.parent? id = none → tree.previous? id = none ∧ tree.next? id = none
  acyclic : ∀ id, ¬ Leads tree.parent? id id

/-- A node that can be put behind the children of another: it has no parent and is not the
document, and the other node does not stand in its subtree. -/
structure Attachable (tree : Tree) (parent child : NodeId) : Prop where
  exists_parent : parent < tree.size
  exists_child : child < tree.size
  notRoot : child ≠ root
  orphan : tree.parent? child = none
  notSelf : child ≠ parent
  notAbove : ¬ Leads tree.parent? parent child

/-- One step of building a tree: a node without links, a node behind the children of another,
or a node that is put there together with its subtree. -/
inductive BuildStep (tree : Tree) : Tree → Prop
  | alloc (kind : NodeKind) : BuildStep tree (tree.alloc kind).2
  | append {parent id : NodeId} {grown : Tree} (kind : NodeKind) (allocated : parent < tree.size)
      (added : tree.append? parent kind = some (id, grown)) : BuildStep tree grown
  | attach {parent child : NodeId} {grown : Tree} (free : tree.Attachable parent child)
      (attached : tree.appendChild? parent child = some grown) : BuildStep tree grown

/-- A tree that is built step by step, from the document alone. -/
inductive WellBuilt : Tree → Prop
  | empty : WellBuilt empty
  | step {tree grown : Tree} (built : WellBuilt tree) (taken : BuildStep tree grown) :
      WellBuilt grown

variable {tree : Tree} {parent child : NodeId}

/-- A node that was not allocated has no parent. -/
theorem parent?_eq_none_of_size_le {id : NodeId} (outside : tree.size ≤ id) :
    tree.parent? id = none := by
  rw [parent?, get?_eq_none outside]
  rfl

/-- Only a node that was allocated has children. -/
theorem lt_size_of_mem_children {id : NodeId} (member : child ∈ tree.children id) :
    id < tree.size := by
  apply Nat.lt_of_not_le
  intro outside
  rw [children_eq_getD, get?_eq_none outside] at member
  exact absurd member List.not_mem_nil

/-! ## Links lead to nodes -/

namespace Consistent

theorem parent_lt (consistent : tree.Consistent) {id : NodeId}
    (up : tree.parent? id = some parent) : parent < tree.size :=
  lt_size_of_mem_children ((consistent.mem_children_iff parent id).mpr up)

theorem child_lt (consistent : tree.Consistent) (parent : NodeId) :
    ∀ child ∈ tree.children parent, child < tree.size := by
  intro child member
  apply Nat.lt_of_not_le
  intro outside
  rw [consistent.mem_children_iff, parent?_eq_none_of_size_le outside] at member
  cases member

/-- Whoever has a parent stands at some place among its children. -/
theorem exists_place (consistent : tree.Consistent) {id above : NodeId}
    (up : tree.parent? id = some above) :
    ∃ place : Nat, (tree.children above)[place]? = some id :=
  List.mem_iff_getElem?.mp ((consistent.mem_children_iff above id).mpr up)

theorem previous_lt (consistent : tree.Consistent) {id before : NodeId}
    (left : tree.previous? id = some before) : before < tree.size := by
  cases up : tree.parent? id with
  | none =>
    rw [(consistent.orphan id up).1] at left
    cases left
  | some above =>
    obtain ⟨place, found⟩ := consistent.exists_place up
    cases place with
    | zero =>
      rw [consistent.previous_first above id found] at left
      cases left
    | succ place =>
      rw [consistent.previous_later above place id found] at left
      exact consistent.child_lt above before (List.mem_of_getElem? left)

theorem next_lt (consistent : tree.Consistent) {id after : NodeId}
    (right : tree.next? id = some after) : after < tree.size := by
  cases up : tree.parent? id with
  | none =>
    rw [(consistent.orphan id up).2] at right
    cases right
  | some above =>
    obtain ⟨place, found⟩ := consistent.exists_place up
    rw [consistent.next above place id found] at right
    exact consistent.child_lt above after (List.mem_of_getElem? right)

theorem wellLinked (consistent : tree.Consistent) (root_parent : tree.parent? root = none) :
    tree.WellLinked where
  parent_lt _ _ := consistent.parent_lt
  child_lt := consistent.child_lt
  previous_lt _ _ := consistent.previous_lt
  next_lt _ _ := consistent.next_lt
  mem_children_iff := consistent.mem_children_iff
  nodup_children := consistent.nodup_children
  previous_first := consistent.previous_first
  previous_later := consistent.previous_later
  next := consistent.next
  orphan := consistent.orphan
  root_parent := root_parent
  acyclic := consistent.acyclic

end Consistent

theorem WellLinked.consistent (linked : tree.WellLinked) : tree.Consistent where
  mem_children_iff := linked.mem_children_iff
  nodup_children := linked.nodup_children
  previous_first := linked.previous_first
  previous_later := linked.previous_later
  next := linked.next
  orphan := linked.orphan
  acyclic := linked.acyclic

/-! ## New nodes -/

theorem wellLinked_empty : WellLinked empty := by
  have parent : ∀ id, empty.parent? id = none := by
    rintro (_ | id) <;> rfl
  have previous : ∀ id, empty.previous? id = none := by
    rintro (_ | id) <;> rfl
  have next : ∀ id, empty.next? id = none := by
    rintro (_ | id) <;> rfl
  have children : ∀ id, empty.children id = [] := by
    rintro (_ | id) <;> rfl
  constructor
  case acyclic =>
    intro id circle
    obtain ⟨_, taken, _⟩ := Relation.TransGen.head'_iff.mp circle
    rw [parent] at taken
    cases taken
  all_goals simp [parent, previous, next, children]

/-- More room for the same links. -/
theorem Consistent.alloc (consistent : tree.Consistent) (kind : NodeKind) :
    (tree.alloc kind).2.Consistent := by
  have parents : (tree.alloc kind).2.parent? = tree.parent? := funext (parent?_alloc tree kind)
  have children : (tree.alloc kind).2.children = tree.children := funext (children_alloc tree kind)
  have previous : (tree.alloc kind).2.previous? = tree.previous? :=
    funext (previous?_alloc tree kind)
  have next : (tree.alloc kind).2.next? = tree.next? := funext (next?_alloc tree kind)
  constructor
  all_goals simp only [parents, children, previous, next]
  · exact consistent.mem_children_iff
  · exact consistent.nodup_children
  · exact consistent.previous_first
  · exact consistent.previous_later
  · exact consistent.next
  · exact consistent.orphan
  · exact consistent.acyclic

theorem WellLinked.alloc (linked : tree.WellLinked) (kind : NodeKind) :
    (tree.alloc kind).2.WellLinked := by
  refine (linked.consistent.alloc kind).wellLinked ?_
  rw [parent?_alloc]
  exact linked.root_parent

/-! ## Attached nodes -/

theorem getElem?_concat_eq_some_iff {α : Type} {items : List α} {last item : α} {place : Nat} :
    (items ++ [last])[place]? = some item ↔
      items[place]? = some item ∨ place = items.length ∧ item = last := by
  rcases Nat.lt_trichotomy place items.length with before | rfl | behind
  · rw [List.getElem?_append_left before]
    simp [Nat.ne_of_lt before]
  · simp [eq_comm]
  · have none : (items ++ [last])[place]? = none := by
      rw [List.getElem?_eq_none_iff, List.length_append, List.length_singleton]
      exact behind
    simp [none, List.getElem?_eq_none (Nat.le_of_lt behind), Nat.ne_of_gt behind]

/-- A walk to ancestors in the new tree takes the new link at most once: behind it the walk
goes on from the parent, from where it does not come back to the child. -/
theorem Attachable.leads_link (free : tree.Attachable parent child) {id above : NodeId}
    (path : Leads (tree.link parent child).parent? id above) :
    Leads tree.parent? id above ∨
      (id = child ∨ Leads tree.parent? id child) ∧
        (above = parent ∨ Leads tree.parent? parent above) := by
  have step : ∀ {node next : NodeId}, (tree.link parent child).parent? node = some next →
      node = child ∧ next = parent ∨ tree.parent? node = some next := by
    intro node next taken
    rw [parent?_link free.exists_child] at taken
    split at taken
    · next here => exact Or.inl ⟨here, (Option.some.inj taken).symm⟩
    · exact Or.inr taken
  induction path with
  | single taken =>
    rcases step taken with ⟨here, there⟩ | old
    · exact Or.inr ⟨Or.inl here, Or.inl there⟩
    · exact Or.inl (.single old)
  | tail _ taken ih =>
    rcases step taken with ⟨rfl, rfl⟩ | old
    -- To take the new link again the path would first have to come back to the child.
    · rcases ih with path | ⟨_, same | path⟩
      · exact Or.inr ⟨Or.inr path, Or.inl rfl⟩
      · exact absurd same free.notSelf
      · exact absurd path free.notAbove
    · rcases ih with path | ⟨start, rfl | path⟩
      · exact Or.inl (.tail path old)
      · exact Or.inr ⟨start, Or.inr (.single old)⟩
      · exact Or.inr ⟨start, Or.inr (.tail path old)⟩

theorem Attachable.acyclic_link (free : tree.Attachable parent child) (consistent : tree.Consistent)
    (id : NodeId) : ¬ Leads (tree.link parent child).parent? id id := by
  intro circle
  rcases free.leads_link circle with old | ⟨rfl | down, same | up⟩
  · exact consistent.acyclic id old
  · exact free.notSelf same
  · exact free.notAbove up
  · exact free.notAbove (same ▸ down)
  · exact free.notAbove (up.trans down)

theorem Consistent.not_mem_children (consistent : tree.Consistent) {orphan : NodeId}
    (noParent : tree.parent? orphan = none) (parent : NodeId) : orphan ∉ tree.children parent := by
  intro member
  rw [consistent.mem_children_iff, noParent] at member
  cases member

theorem Consistent.ne_of_getElem? (consistent : tree.Consistent) {orphan : NodeId}
    (noParent : tree.parent? orphan = none) {other id : NodeId} {place : Nat}
    (found : (tree.children other)[place]? = some id) : id ≠ orphan := by
  rintro rfl
  exact consistent.not_mem_children noParent other (List.mem_of_getElem? found)

theorem Consistent.getLast?_ne (consistent : tree.Consistent) {orphan : NodeId}
    (noParent : tree.parent? orphan = none) (parent : NodeId) :
    (tree.children parent).getLast? ≠ some orphan :=
  fun last => consistent.not_mem_children noParent parent (List.mem_of_getLast? last)

/-- What stands at a place of a children list after the child was attached: what stood there
before, and the child behind it. -/
theorem Attachable.getElem?_children_link (free : tree.Attachable parent child)
    {other id : NodeId} {place : Nat}
    (found : ((tree.link parent child).children other)[place]? = some id) :
    (tree.children other)[place]? = some id ∨
      other = parent ∧ place = (tree.children parent).length ∧ id = child := by
  rw [children_link free.exists_parent] at found
  split at found
  · next here =>
    rw [here]
    rcases getElem?_concat_eq_some_iff.mp found with old | new
    · exact Or.inl old
    · exact Or.inr ⟨rfl, new⟩
  · exact Or.inl found

theorem Attachable.previous_link (free : tree.Attachable parent child) (consistent : tree.Consistent)
    {other id : NodeId} {place : Nat}
    (found : ((tree.link parent child).children other)[place + 1]? = some id) :
    (tree.link parent child).previous? id = ((tree.link parent child).children other)[place]? := by
  rw [previous?_link free.exists_child, children_link free.exists_parent]
  rcases free.getElem?_children_link found with old | ⟨rfl, last, rfl⟩
  · have inside := (List.getElem?_eq_some_iff.mp old).1
    rw [if_neg (consistent.ne_of_getElem? free.orphan old),
      consistent.previous_later other place id old]
    split
    · next here => rw [here, List.getElem?_append_left (by rw [← here]; omega)]
    · rfl
  · have inside : place < (tree.children other).length := by omega
    rw [if_pos rfl, if_pos rfl, List.getElem?_append_left inside, List.getLast?_eq_getElem?, ← last,
      Nat.add_sub_cancel, List.getElem?_eq_getElem inside, Option.some_or]

theorem Attachable.next_link (free : tree.Attachable parent child) (consistent : tree.Consistent)
    {other id : NodeId} {place : Nat}
    (found : ((tree.link parent child).children other)[place]? = some id) :
    (tree.link parent child).next? id =
      ((tree.link parent child).children other)[place + 1]? := by
  rw [next?_link (consistent.child_lt parent), children_link free.exists_parent]
  rcases free.getElem?_children_link found with old | ⟨rfl, last, rfl⟩
  · have inside := (List.getElem?_eq_some_iff.mp old).1
    rw [consistent.next other place id old]
    by_cases here : other = parent
    -- Among the children of the parent only the last one gets a neighbour behind it.
    · subst here
      rw [if_pos rfl]
      by_cases isLast : place + 1 = (tree.children other).length
      · rw [if_pos (by rw [List.getLast?_eq_getElem?, ← isLast]; exact old), isLast,
          List.getElem?_concat_length]
      · have notLast : (tree.children other).getLast? ≠ some id := by
          rw [List.getLast?_eq_getElem?, ← old]
          intro same
          have := (List.getElem?_inj inside (consistent.nodup_children other)).mp same.symm
          omega
        rw [if_neg notLast, List.getElem?_append_left (by omega)]
    · have notLast : (tree.children parent).getLast? ≠ some id := by
        intro last
        have above := (consistent.mem_children_iff parent id).mp (List.mem_of_getLast? last)
        rw [(consistent.mem_children_iff other id).mp (List.mem_of_getElem? old)] at above
        exact here (Option.some.inj above)
      rw [if_neg notLast, if_neg here]
  · rw [if_neg (consistent.getLast?_ne free.orphan other), if_pos rfl,
      (consistent.orphan id free.orphan).2, last]
    simp

/-- The child becomes the neighbour of the last one before it; nobody else's links change. -/
theorem Consistent.link (consistent : tree.Consistent) (free : tree.Attachable parent child) :
    (tree.link parent child).Consistent where
  mem_children_iff other id := by
    rw [children_link free.exists_parent, parent?_link free.exists_child]
    by_cases new : id = child
    -- No list has the child yet, so it is in the parent's list only.
    · subst new
      have absent := consistent.not_mem_children free.orphan
      by_cases here : other = parent
      · simp [here]
      · simp [here, absent other, Ne.symm here]
    · by_cases here : other = parent
      · simp [here, new, consistent.mem_children_iff]
      · simp [here, new, consistent.mem_children_iff]
  nodup_children other := by
    rw [children_link free.exists_parent]
    split
    · refine List.nodup_append.mpr ⟨consistent.nodup_children parent, by simp, ?_⟩
      rintro id member _ last rfl
      rw [List.mem_singleton.mp last] at member
      exact consistent.not_mem_children free.orphan parent member
    · exact consistent.nodup_children other
  previous_first other id found := by
    rw [previous?_link free.exists_child]
    rcases free.getElem?_children_link found with old | ⟨rfl, first, rfl⟩
    · rw [if_neg (consistent.ne_of_getElem? free.orphan old)]
      exact consistent.previous_first other id old
    · rw [if_pos rfl, List.length_eq_zero_iff.mp first.symm, (consistent.orphan id free.orphan).1]
      rfl
  previous_later other place id found := free.previous_link consistent found
  next other place id found := free.next_link consistent found
  orphan id noParent := by
    rw [parent?_link free.exists_child] at noParent
    split at noParent
    · cases noParent
    · next different =>
      rw [previous?_link free.exists_child, next?_link (consistent.child_lt parent), if_neg different,
        if_neg (consistent.getLast?_ne noParent parent)]
      exact consistent.orphan id noParent
  acyclic := free.acyclic_link consistent

theorem WellLinked.link (linked : tree.WellLinked) (free : tree.Attachable parent child) :
    (tree.link parent child).WellLinked := by
  refine (linked.consistent.link free).wellLinked ?_
  rw [parent?_link free.exists_child, if_neg (Ne.symm free.notRoot)]
  exact linked.root_parent

/-! ## Every step of building -/

/-- Whoever has a descendant was allocated. -/
theorem WellLinked.lt_size_of_leads (linked : tree.WellLinked) {id above : NodeId}
    (path : Leads tree.parent? id above) : above < tree.size := by
  cases path with
  | single taken => exact linked.parent_lt _ _ taken
  | tail _ taken => exact linked.parent_lt _ _ taken

/-- A node that has just been allocated can be put anywhere. -/
theorem WellLinked.attachable_alloc (linked : tree.WellLinked) (allocated : parent < tree.size)
    (kind : NodeKind) : (tree.alloc kind).2.Attachable parent tree.size where
  exists_parent := by
    rw [size_alloc]
    exact Nat.lt_succ_of_lt allocated
  exists_child := by
    rw [size_alloc]
    exact Nat.lt_succ_self _
  notRoot := Nat.ne_of_gt (Nat.lt_of_le_of_lt (Nat.zero_le parent) allocated)
  orphan := by rw [parent?_alloc, parent?_eq_none_of_size_le (Nat.le_refl _)]
  notSelf := Nat.ne_of_gt allocated
  notAbove path := by
    rw [show (tree.alloc kind).2.parent? = tree.parent? from funext (parent?_alloc tree kind)] at path
    exact Nat.lt_irrefl _ (linked.lt_size_of_leads path)

theorem WellLinked.append (linked : tree.WellLinked) (allocated : parent < tree.size)
    (kind : NodeKind) : (tree.append parent kind).2.WellLinked :=
  (linked.alloc kind).link (linked.attachable_alloc allocated kind)

theorem appendChild?_eq (exists_parent : parent < tree.size) (exists_child : child < tree.size) :
    tree.appendChild? parent child = some (tree.link parent child) := by
  rw [appendChild?, decide_eq_true exists_parent, decide_eq_true exists_child]
  rfl

theorem append?_eq (allocated : parent < tree.size) (kind : NodeKind) :
    tree.append? parent kind = some (tree.append parent kind) := by
  change ((tree.alloc kind).2.appendChild? parent tree.size).map _ = _
  rw [appendChild?_eq]
  · rfl
  · rw [size_alloc]
    exact Nat.lt_succ_of_lt allocated
  · rw [size_alloc]
    exact Nat.lt_succ_self _

/-- A node that is put in at once is a step of building. -/
theorem WellBuilt.append (built : tree.WellBuilt) (allocated : parent < tree.size)
    (kind : NodeKind) : (tree.append parent kind).2.WellBuilt :=
  .step built (.append kind allocated (append?_eq allocated kind))

/-- What one step keeps. -/
theorem BuildStep.wellLinked {grown : Tree} (taken : BuildStep tree grown)
    (linked : tree.WellLinked) : grown.WellLinked := by
  cases taken with
  | alloc kind => exact linked.alloc kind
  | append kind allocated added =>
    rw [append?_eq allocated] at added
    cases added
    exact linked.append allocated kind
  | attach free attached =>
    rw [appendChild?_eq free.exists_parent free.exists_child] at attached
    cases attached
    exact linked.link free

/-- What every run of building keeps. -/
theorem WellBuilt.wellLinked (built : tree.WellBuilt) : tree.WellLinked := by
  induction built with
  | empty => exact wellLinked_empty
  | step _ taken ih => exact taken.wellLinked ih

end CssSelect.Tree
