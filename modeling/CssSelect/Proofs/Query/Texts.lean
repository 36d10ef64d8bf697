import CssSelect.Proofs.Document.Texts
import CssSelect.Proofs.Query.Agreement

/-!
Texts are invisible to queries. A search is told by its single answers, so two searches with the
same answers one after the other have the same outcome; where documents differ in their texts only,
the elements in document order have the same answers.
-/
namespace CssSelect

/-- Paired nodes have the same answers, one after the other. -/
theorem Alike.map_isMatch_eq {ν μ : Type} [BEq ν] [Hashable ν] [LawfulBEq ν] [LawfulHashable ν]
    [BEq μ] [Hashable μ] [LawfulBEq μ] [LawfulHashable μ] {view : View ν} {other : View μ}
    {Pair : ν → μ → Prop} (alike : Alike view other Pair) {region nodes : List ν}
    {otherRegion twins : List μ} (covers : view.Covers region)
    (otherCovers : other.Covers otherRegion) (inside : nodes ⊆ region)
    (otherInside : twins ⊆ otherRegion) (paired : List.Forall₂ Pair nodes twins)
    {selectors : String} {list : SelectorList} (read : SelectorList.parse selectors = .ok list) :
    nodes.map (view.isMatch · selectors) = twins.map (other.isMatch · selectors) := by
  induction paired with
  | nil => rfl
  | cons first _ ih =>
    obtain ⟨start, inside⟩ := List.cons_subset.mp inside
    obtain ⟨otherStart, otherInside⟩ := List.cons_subset.mp otherInside
    have same := alike.listTest covers otherCovers start otherStart first list
    rw [List.map_cons, List.map_cons, ih inside otherInside, View.isMatch, View.isMatch,
      View.query_of_read read, View.query_of_read read, same]

namespace Tree

open Outline (elementsAll TextInserted)

/-- The entries are the elements that a traversal of the whole tree visits, in its order. -/
structure Enumerates (tree : Tree) (entries : List (NodeId × Element)) : Prop where
  traversal : tree.view.Traversal root (entries.map Prod.fst)
  element : ∀ entry ∈ entries, tree.element? entry.1 = some entry.2

theorem GrownBy.enumerates {tree : Tree} {document : List Outline}
    (grown : empty.GrownBy root document tree) : tree.Enumerates (elementsAll 1 document) where
  traversal := by
    obtain ⟨_, children, shown⟩ := grown.below_root
    have all : View.Preorder tree.view (tree.childElements root) _ := children ▸ shown.preorder
    exact View.traversal_iff.mpr ⟨rfl, all⟩
  element := grown.shows.element?_eq

theorem Enumerates.allocated {tree : Tree} {entries : List (NodeId × Element)}
    (enumerated : tree.Enumerates entries) : entries.map Prod.fst ⊆ List.range tree.size := by
  refine List.forall_mem_map.mpr fun entry member => ?_
  have element : tree.isElement entry.1 = true := by
    rw [isElement, enumerated.element entry member]
    rfl
  exact List.mem_range.mpr (lt_size_of_isElement element)

/-- In trees whose documents differ in texts only, the elements have the same answers in document
order. -/
theorem isMatch_of_sameElements {tree other : Tree} {document otherDocument : List Outline}
    (grown : empty.GrownBy root document tree) (otherGrown : empty.GrownBy root otherDocument other)
    (same : Outline.elementsOnly document = Outline.elementsOnly otherDocument)
    {selectors : String} {list : SelectorList} (read : SelectorList.parse selectors = .ok list) :
    ((elementsAll 1 document).map Prod.fst).map (tree.view.isMatch · selectors) =
      ((elementsAll 1 otherDocument).map Prod.fst).map (other.view.isMatch · selectors) := by
  have alike := alike_of_sameElements grown otherGrown same
  have all := (View.traversal_iff.mp grown.enumerates.traversal).2
  have otherAll := (View.traversal_iff.mp otherGrown.enumerates.traversal).2
  have paired := alike.forall₂_preorder all otherAll (alike.children .documents)
  exact alike.map_isMatch_eq (grown.built .empty).wellLinked.covers
    (otherGrown.built .empty).wellLinked.covers grown.enumerates.allocated
    otherGrown.enumerates.allocated paired read

/-- Texts are invisible. Documents that come from each other by putting texts in and taking texts
out have the same elements in document order, and each is loaded if the other is. Then the query
for all matches fails in both trees with the same error, or has a result in both, and an element is
in the one exactly if the element at its place in document order is in the other. -/
theorem selectAll_of_texts {document other : List Outline}
    (texts : Relation.EqvGen TextInserted document other) (selectors : String) :
    ((∃ tree, ofOutlines document = .ok tree) ↔ ∃ tree, ofOutlines other = .ok tree) ∧
    (elementsAll 1 document).map Prod.snd = (elementsAll 1 other).map Prod.snd ∧
    ∀ tree otherTree, ofOutlines document = .ok tree → ofOutlines other = .ok otherTree →
      tree.Enumerates (elementsAll 1 document) ∧ otherTree.Enumerates (elementsAll 1 other) ∧
      ((∃ error, tree.view.selectAll root selectors = .error error ∧
          otherTree.view.selectAll root selectors = .error error) ∨
        ∃ found otherFound, tree.view.selectAll root selectors = .ok found ∧
          otherTree.view.selectAll root selectors = .ok otherFound ∧
          ∀ (place : Nat) entry twin, (elementsAll 1 document)[place]? = some entry →
            (elementsAll 1 other)[place]? = some twin → (entry.1 ∈ found ↔ twin.1 ∈ otherFound)) := by
  refine ⟨exists_ofOutlines_iff texts, Outline.map_elementsAll_eq texts, ?_⟩
  intro tree otherTree loaded otherLoaded
  have grown := grownBy_of_ofOutlines loaded
  have otherGrown := grownBy_of_ofOutlines otherLoaded
  refine ⟨grown.enumerates, otherGrown.enumerates, ?_⟩
  cases parsed : SelectorList.parse selectors with
  | error error =>
    exact Or.inl ⟨.selector error, View.query_of_unreadable parsed _,
      View.query_of_unreadable parsed _⟩
  | ok list =>
    have agree := grown.enumerates.traversal.searchesAgree parsed
    have otherAgree := otherGrown.enumerates.traversal.searchesAgree parsed
    have same := isMatch_of_sameElements grown otherGrown (Outline.elementsOnly_eq texts) parsed
    rcases agree.same_outcome otherAgree same with failed | ⟨found, otherFound, run, otherRun⟩
    · exact Or.inl failed
    · refine Or.inr ⟨found, otherFound, run, otherRun, fun place entry twin here there => ?_⟩
      have answer : tree.view.isMatch entry.1 selectors = otherTree.view.isMatch twin.1 selectors := by
        have atPlace := congrArg (·[place]?) same
        simpa [here, there] using atPlace
      rw [agree.eq_filter run, otherAgree.eq_filter otherRun, List.mem_filter, List.mem_filter, answer]
      have member := List.mem_map_of_mem (f := Prod.fst) (List.mem_of_getElem? here)
      have otherMember := List.mem_map_of_mem (f := Prod.fst) (List.mem_of_getElem? there)
      simp only [member, otherMember, true_and]

/-- An element inside another, without texts. -/
def unspaced : List Outline :=
  [.element "a" [] [.element "b" [] []]]

/-- The same with a text in front of each. -/
def spaced : List Outline :=
  [.text "x", .element "a" [] [.text "y", .element "b" [] []]]

theorem selectAll_spaced :
    Relation.EqvGen TextInserted unspaced spaced ∧
      ∃ tree other, ofOutlines unspaced = .ok tree ∧ ofOutlines spaced = .ok other ∧
        ∀ selectors found, tree.view.selectAll root selectors = .ok found →
          ∃ otherFound, other.view.selectAll root selectors = .ok otherFound ∧
            (1 ∈ found ↔ 2 ∈ otherFound) ∧ (2 ∈ found ↔ 4 ∈ otherFound) := by
  have texts : Relation.EqvGen TextInserted unspaced spaced :=
    .trans _ _ _ (.rel _ _ (.here "x" _)) (.rel _ _ (.behind _ (.inside _ _ _ (.here "y" _))))
  have loads : ∃ tree, ofOutlines unspaced = .ok tree := by
    refine (exists_insertAll_iff 1).mpr ?_
    simp only [unspaced, elementsAll, Outline.elements]
    decide
  obtain ⟨tree, loaded⟩ := loads
  obtain ⟨other, otherLoaded⟩ := (selectAll_of_texts texts "").1.mp ⟨tree, loaded⟩
  refine ⟨texts, tree, other, loaded, otherLoaded, fun selectors found run => ?_⟩
  obtain ⟨_, _, ⟨error, failed, _⟩ | ⟨_, otherFound, again, otherRun, places⟩⟩ :=
    (selectAll_of_texts texts selectors).2.2 tree other loaded otherLoaded
  · rw [run] at failed
    cases failed
  · obtain rfl := Except.ok.inj (run.symm.trans again)
    exact ⟨otherFound, otherRun, places 0 _ _ rfl rfl, places 1 _ _ rfl rfl⟩

end Tree

end CssSelect
