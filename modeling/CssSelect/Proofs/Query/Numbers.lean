import CssSelect.Proofs.Document.Numbering
import CssSelect.Proofs.Document.Texts
import CssSelect.Proofs.Query.Agreement

/-!
Searches in loaded trees. The nodes of a loaded tree are numbered in document order, and what
stands below a node has the numbers right behind it; so what a search finds has increasing numbers
behind that of its root, and the first match is the one with the smallest number.
-/
namespace CssSelect

namespace Outline

/-- The elements of a forest come in the order of their numbers. -/
theorem pairwise_elementsAll (first : Nat) (outlines : List Outline) :
    ((elementsAll first outlines).map Prod.fst).Pairwise (· < ·) := by
  have numbers : ((placedAll [] 0 outlines).zipIdx first).Pairwise fun entry later =>
      entry.2 < later.2 := by
    rw [← List.pairwise_map (f := Prod.snd), List.zipIdx_map_snd]
    exact List.pairwise_lt_range' 1
  rw [elementsAll_eq_filterMap [] 0, List.pairwise_map, List.pairwise_filterMap]
  refine numbers.imp fun before element found later foundLater => ?_
  obtain ⟨_, _, rfl⟩ := Option.map_eq_some_iff.mp found
  obtain ⟨_, _, rfl⟩ := Option.map_eq_some_iff.mp foundLater
  exact before

theorem le_of_mem_elementsAll {first : Nat} {outlines : List Outline} {id : NodeId}
    (numbered : id ∈ (elementsAll first outlines).map Prod.fst) : first ≤ id := by
  obtain ⟨entry, member, rfl⟩ := List.mem_map.mp numbered
  rw [elementsAll_eq_filterMap [] 0, List.mem_filterMap] at member
  obtain ⟨placed, there, found⟩ := member
  obtain ⟨_, _, rfl⟩ := Option.map_eq_some_iff.mp found
  exact (List.mem_zipIdx_iff_le_and_getElem?_sub.mp there).1

end Outline

namespace Tree

open Outline (tops elementsAll)
open View (Preorder)

variable {tree : Tree} {document : List Outline}

/-- Below each node of a loaded tree stands a forest whose numbers follow its own. -/
theorem GrownBy.exists_below (grown : empty.GrownBy root document tree) (id : NodeId) :
    ∃ outlines, tree.children id = tops (id + 1) outlines ∧ tree.Shows (id + 1) outlines := by
  by_cases allocated : id < tree.size
  · cases id with
    | zero =>
      obtain ⟨_, children, shown⟩ := grown.below_root
      exact ⟨document, children, shown⟩
    | succ offset =>
      rw [grown.size, Nat.add_comm] at allocated
      obtain ⟨placed, member⟩ := Outline.exists_numbered (Nat.lt_of_succ_lt_succ allocated)
      have shown := (grown.showsOne _ member).1
      exact ⟨placed.outline.inner, shown.children, shown.inner⟩
  · have none : tree.children id = [] := by
      rw [Tree.children, get?_eq_none (Nat.le_of_not_lt allocated)]
    exact ⟨[], none, trivial⟩

/-- A traversal of a loaded tree goes through increasing numbers behind that of its root. -/
theorem GrownBy.exists_traversal (grown : empty.GrownBy root document tree) (id : NodeId) :
    ∃ nodes, tree.view.Traversal id nodes ∧ nodes.Pairwise (· < ·) ∧ ∀ node ∈ nodes, id < node := by
  obtain ⟨outlines, children, shown⟩ := grown.exists_below id
  have all : Preorder tree.view (tree.childElements id) _ := children ▸ shown.preorder
  exact ⟨_, View.traversal_iff.mpr ⟨rfl, all⟩, Outline.pairwise_elementsAll (id + 1) outlines,
    fun node member => Outline.le_of_mem_elementsAll member⟩

/-- In increasing numbers the first one is the smallest. -/
theorem head?_eq_min? {found : List NodeId} (increasing : found.Pairwise (· < ·)) :
    found.head? = found.min? :=
  (List.min?_eq_head? (increasing.imp fun before => Nat.min_eq_left (Nat.le_of_lt before))).symm

/-- A search in a loaded tree that has a result finds increasing numbers, all behind the number of
its root, and the search for a single match finds the smallest of them. -/
theorem selectAll_increasing {text : String} (loaded : load text = .ok tree) (root : NodeId)
    (selectors : String) :
    ∀ found, tree.view.selectAll root selectors = .ok found →
      found.Pairwise (· < ·) ∧ (∀ id ∈ found, root < id) ∧
        tree.view.select root selectors = .ok found.min? := by
  intro found run
  obtain ⟨document, loaded⟩ := exists_ofOutlines_of_load loaded
  obtain ⟨nodes, visited, increasing, behind⟩ :=
    (grownBy_of_ofOutlines loaded).exists_traversal root
  cases read : SelectorList.parse selectors with
  | error error =>
    rw [View.selectAll, View.query_of_unreadable read] at run
    cases run
  | ok list =>
    have agree := visited.searchesAgree read
    have filtered := agree.eq_filter run
    have foundIncreasing : found.Pairwise (· < ·) := by
      rw [filtered]
      exact increasing.filter _
    refine ⟨foundIncreasing, ?_, ?_⟩
    · intro id member
      rw [filtered] at member
      exact behind id (List.mem_of_mem_filter member)
    · rw [(agree.decided (agree.decided_of_selectAll run)).2, ← filtered,
        head?_eq_min? foundIncreasing]

theorem selectAll_increasing_around :
    load aroundText = .ok around ∧ around.view.selectAll root "b, a" = .ok [1, 3] ∧
      [1, 3].Pairwise (· < ·) ∧ (∀ id ∈ [1, 3], root < id) ∧
      around.view.select root "b, a" = .ok (some 1) := by
  have read : SelectorList.parse "b, a" =
      .ok ⟨[⟨⟨some (.tag "b"), []⟩, []⟩, ⟨⟨some (.tag "a"), []⟩, []⟩]⟩ := by decide +kernel
  have outer : around.view.isMatch 1 "b, a" = .ok true := by decide +kernel
  have inner : around.view.isMatch 3 "b, a" = .ok true := by decide +kernel
  have run : around.view.selectAll root "b, a" = .ok [1, 3] := by
    rw [((traversal_around.searchesAgree read).decided (by simp [outer, inner])).1]
    simp [outer, inner]
  exact ⟨load_around, run, selectAll_increasing load_around root "b, a" [1, 3] run⟩

end Tree

end CssSelect
