import Mathlib.Data.List.Nodup
import CssSelect.Proofs.Document.Links

/-!
The places of a node. The way up from a node meets no node twice, so it ends before its limit; the
places of a child are therefore those of its parent and its own place behind them, and a node
without a parent has none.
-/
namespace CssSelect.Tree

open View (Leads)

variable {tree : Tree}

/-! ## Walks with a limit -/

section Follow

variable {step : NodeId → Option NodeId} {limit : Nat} {start : Option NodeId} {id other : NodeId}

theorem leads_of_mem_follow (met : other ∈ follow step limit (step id)) : Leads step id other := by
  induction limit generalizing id with
  | zero => exact absurd met List.not_mem_nil
  | succ limit ih =>
    cases taken : step id with
    | none =>
      rw [taken] at met
      exact absurd met List.not_mem_nil
    | some next =>
      rw [taken, follow, List.mem_cons] at met
      rcases met with rfl | met
      · exact .single taken
      · exact .head taken (ih met)

/-- A walk that never leads back meets each node once. -/
theorem nodup_follow (acyclic : ∀ id, ¬ Leads step id id) (limit : Nat) (start : Option NodeId) :
    (follow step limit start).Nodup := by
  induction limit generalizing start with
  | zero => exact List.nodup_nil
  | succ limit ih =>
    cases start with
    | none => exact List.nodup_nil
    | some id =>
      rw [follow, List.nodup_cons]
      exact ⟨fun met => acyclic id (leads_of_mem_follow met), ih (step id)⟩

/-- A walk that ends before its limit does not notice a smaller one. -/
theorem follow_succ_eq (short : (follow step (limit + 1) start).length ≤ limit) :
    follow step (limit + 1) start = follow step limit start := by
  induction limit generalizing start with
  | zero => exact List.length_eq_zero_iff.mp (Nat.le_zero.mp short)
  | succ limit ih =>
    cases start with
    | none => rfl
    | some id =>
      rw [follow, List.length_cons] at short
      rw [follow, ih (Nat.le_of_succ_le_succ short), follow]

end Follow

/-! ## Ancestors and places -/

theorem WellLinked.length_ancestors_lt (linked : tree.WellLinked) {id : NodeId}
    (allocated : id < tree.size) : (tree.ancestors id tree.size).length < tree.size := by
  have nodup : (id :: tree.ancestors id tree.size).Nodup := by
    rw [List.nodup_cons]
    exact ⟨fun met => linked.acyclic id (leads_of_mem_follow met),
      nodup_follow linked.acyclic _ _⟩
  have inside : id :: tree.ancestors id tree.size ⊆ List.range tree.size := by
    rw [List.cons_subset]
    refine ⟨List.mem_range.mpr allocated, fun above met => ?_⟩
    exact List.mem_range.mpr (linked.lt_size_of_leads (leads_of_mem_follow met))
  have short := (nodup.subperm inside).length_le
  rwa [List.length_range] at short

/-- The way up from a child is the way up from its parent, with the parent in front. -/
theorem WellLinked.ancestors_child (linked : tree.WellLinked) {parent child : NodeId}
    (up : tree.parent? child = some parent) :
    tree.ancestors child tree.size = parent :: tree.ancestors parent tree.size := by
  have allocated := linked.parent_lt child parent up
  have short := linked.length_ancestors_lt allocated
  obtain ⟨limit, size⟩ := Nat.exists_eq_succ_of_ne_zero (Nat.ne_zero_of_lt allocated)
  rw [size] at short ⊢
  rw [ancestors, up, follow, ancestors, follow_succ_eq (Nat.le_of_lt_succ short)]

theorem WellLinked.placeInParent?_child (linked : tree.WellLinked) {parent child : NodeId}
    {place : Nat} (found : (tree.children parent)[place]? = some child) :
    tree.placeInParent? child = some place := by
  have up := (linked.mem_children_iff parent child).mp (List.mem_of_getElem? found)
  obtain ⟨inside, here⟩ := List.getElem?_eq_some_iff.mp found
  rw [placeInParent?, up, Option.bind_some, List.idxOf?_eq_some_iff]
  refine ⟨inside, here, fun earlier before same => ?_⟩
  have twice := ((linked.nodup_children parent).getElem_inj_iff).mp (same.trans here.symm)
  exact Nat.ne_of_lt before twice

theorem WellLinked.places_child (linked : tree.WellLinked) {parent child : NodeId} {place : Nat}
    (found : (tree.children parent)[place]? = some child) :
    tree.places child = tree.places parent ++ [place] := by
  have up := (linked.mem_children_iff parent child).mp (List.mem_of_getElem? found)
  rw [places, linked.ancestors_child up,
    List.filterMap_cons_some (linked.placeInParent?_child found), List.reverse_cons]
  rfl

theorem places_of_orphan {id : NodeId} (noParent : tree.parent? id = none) :
    tree.places id = [] := by
  have noPlace : tree.placeInParent? id = none := by
    rw [placeInParent?, noParent, Option.bind_none]
  rw [places, ancestors, noParent, List.filterMap_cons_none noPlace]
  cases tree.size <;> rfl

/-! ## Paths -/

theorem writePlaces_cons (place : Nat) (places : List Nat) :
    writePlaces (place :: places) = "/" ++ toString place ++ writePlaces places := by
  rw [writePlaces, List.map_cons, String.join_cons]
  rfl

theorem writePlaces_eq_intercalate (place : Nat) (places : List Nat) :
    writePlaces (place :: places) = "/" ++ "/".intercalate ((place :: places).map toString) := by
  induction places generalizing place with
  | nil => rfl
  | cons next places ih =>
    rw [writePlaces_cons, ih]
    simp only [List.map_cons, String.intercalate_cons_cons, String.append_assoc]

/-- The path of a node has a slash in front and slashes between its places. -/
theorem path_eq (tree : Tree) (id : NodeId) :
    tree.path id = "/" ++ "/".intercalate ((tree.places id).map toString) := by
  unfold path
  cases tree.places id with
  | nil => rfl
  | cons place places => exact writePlaces_eq_intercalate place places

end CssSelect.Tree
