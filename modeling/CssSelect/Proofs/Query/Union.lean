import CssSelect.Proofs.Query.Agreement
import CssSelect.Proofs.Selector.Derivation

/-!
A list of selectors is the union of its members. Without column combinators a node is matched by
a list exactly if it is matched by some member, whatever the others say; so a search with two lists
that are joined by a comma finds what the searches with the two find, and the order of the members
and how often they are given leave no trace.
-/
namespace CssSelect

namespace View

variable {ν : Type} [BEq ν] [Hashable ν] [LawfulBEq ν] [LawfulHashable ν] {view : View ν}
  {region nodes : List ν} {root : ν} {selectors : String} {list : SelectorList}

/-- What `whole` finds below `root` is what `first` and `second` find there, each node once and in
the order of the traversal. -/
def FindsUnion (view : View ν) (root : ν) (first second whole : String) : Prop :=
  ∃ nodes found foundOther, view.Traversal root nodes ∧ nodes.Nodup ∧ root ∉ nodes ∧
    view.selectAll root first = .ok found ∧ view.selectAll root second = .ok foundOther ∧
    view.selectAll root whole = .ok (nodes.filter fun node => node ∈ found ∨ node ∈ foundOther)

/-- A query without column combinators has an answer at every node, and it is decided by the
members one by one. -/
theorem isMatch_columnFree (covers : view.Covers region) {node : ν} (start : node ∈ region)
    (read : SelectorList.parse selectors = .ok list)
    (free : ∀ member ∈ list.members, member.ColumnFree) :
    ∃ matched, view.isMatch node selectors = .ok matched ∧
      (matched = true ↔ ∃ member ∈ list.members, member.Chain view node) := by
  obtain ⟨matched, tested, matched_iff⟩ :=
    SelectorList.walkMembers_outcome covers start list.members free
  have tested : list.test view node = .ok matched := tested
  refine ⟨matched, ?_, matched_iff⟩
  rw [isMatch, query_of_read read, tested]
  rfl

open scoped Classical in
/-- A search without column combinators finds the visited nodes that a chain for one of the
members ends at. -/
theorem Traversal.selectAll_columnFree (visited : view.Traversal root nodes)
    (covers : view.Covers region) (inside : nodes ⊆ region)
    (read : SelectorList.parse selectors = .ok list)
    (free : ∀ member ∈ list.members, member.ColumnFree) :
    view.selectAll root selectors =
      .ok (nodes.filter fun node => ∃ member ∈ list.members, member.Chain view node) := by
  have answers : ∀ node ∈ nodes, ∃ matched, view.isMatch node selectors = .ok matched ∧
      (matched = true ↔ ∃ member ∈ list.members, member.Chain view node) :=
    fun node member => isMatch_columnFree covers (inside member) read free
  have decided : ∀ node ∈ nodes, ∃ matched, view.isMatch node selectors = .ok matched := by
    intro node member
    obtain ⟨matched, answered, _⟩ := answers node member
    exact ⟨matched, answered⟩
  rw [((visited.searchesAgree read).decided decided).1]
  congr 1
  refine List.filter_congr fun node member => ?_
  obtain ⟨matched, answered, matched_iff⟩ := answers node member
  rw [decide_eq_decide, answered, ← matched_iff, Except.ok.injEq]

/-- Texts with the same members find the same nodes. -/
theorem Traversal.selectAll_congr (visited : view.Traversal root nodes)
    (covers : view.Covers region) (inside : nodes ⊆ region) {first second : String}
    {other : SelectorList} (read : SelectorList.parse first = .ok list)
    (readOther : SelectorList.parse second = .ok other)
    (free : ∀ member ∈ list.members, member.ColumnFree)
    (same : ∀ member, member ∈ other.members ↔ member ∈ list.members) :
    view.selectAll root second = view.selectAll root first := by
  have freeOther : ∀ member ∈ other.members, member.ColumnFree :=
    fun member found => free member ((same member).mp found)
  rw [visited.selectAll_columnFree covers inside read free,
    visited.selectAll_columnFree covers inside readOther freeOther]
  congr 1
  refine List.filter_congr fun node _ => ?_
  rw [decide_eq_decide]
  simp only [same]

/-- Two lists with a comma between them find what the one and what the other finds. -/
theorem Traversal.selectAll_append_comma (visited : view.Traversal root nodes)
    (covers : view.Covers region) (inside : nodes ⊆ region) {first second : String}
    {other : SelectorList} (read : SelectorList.parse first = .ok list)
    (readOther : SelectorList.parse second = .ok other)
    (free : ∀ member ∈ list.members, member.ColumnFree)
    (freeOther : ∀ member ∈ other.members, member.ColumnFree) :
    ∃ found foundOther, view.selectAll root first = .ok found ∧
      view.selectAll root second = .ok foundOther ∧
      view.selectAll root (first ++ "," ++ second) =
        .ok (nodes.filter fun node => node ∈ found ∨ node ∈ foundOther) := by
  classical
  have freeBoth : ∀ member ∈ list.members ++ other.members, member.ColumnFree :=
    List.forall_mem_append.mpr ⟨free, freeOther⟩
  refine ⟨_, _, visited.selectAll_columnFree covers inside read free,
    visited.selectAll_columnFree covers inside readOther freeOther, ?_⟩
  rw [visited.selectAll_columnFree covers inside (SelectorList.parse_append_comma read readOther)
    freeBoth]
  congr 1
  refine List.filter_congr fun node member => ?_
  simp only [List.mem_filter, member, true_and, decide_eq_true_eq, List.mem_append, or_and_right,
    exists_or]

end View

namespace Tree

/-- A list is the union of its parts. Where two texts without column combinators are joined by a
comma, the search has a result below every root: the visited nodes that the first or the second
text finds, each once. The two may change places, and every other text with the same members, in
whatever order and however often they are repeated, finds the same. Loaded trees are among the
trees that are built step by step (`wellBuilt_of_load`). -/
theorem selectAll_comma {tree : Tree} (built : tree.WellBuilt) (root : NodeId)
    {first second : String} {list other : SelectorList}
    (read : SelectorList.parse first = .ok list) (readOther : SelectorList.parse second = .ok other)
    (free : ∀ member ∈ list.members, member.ColumnFree)
    (freeOther : ∀ member ∈ other.members, member.ColumnFree) :
    tree.view.FindsUnion root first second (first ++ "," ++ second) ∧
    tree.view.selectAll root (second ++ "," ++ first) =
      tree.view.selectAll root (first ++ "," ++ second) ∧
    ∀ third whole, SelectorList.parse third = .ok whole →
      (∀ member, member ∈ whole.members ↔ member ∈ list.members ∨ member ∈ other.members) →
      tree.view.selectAll root third = tree.view.selectAll root (first ++ "," ++ second) := by
  obtain ⟨nodes, visited, _, nodup, apart, mem_iff⟩ := built.wellLinked.exists_traversal root
  have covers := built.wellLinked.covers
  have inside : nodes ⊆ List.range tree.size := fun id member =>
    List.mem_range.mpr (lt_size_of_isElement ((mem_iff id).mp member).isElement)
  have readBoth := SelectorList.parse_append_comma read readOther
  have freeBoth : ∀ member ∈ list.members ++ other.members, member.ColumnFree :=
    List.forall_mem_append.mpr ⟨free, freeOther⟩
  have sameAs : ∀ third whole, SelectorList.parse third = .ok whole →
      (∀ member, member ∈ whole.members ↔ member ∈ list.members ∨ member ∈ other.members) →
      tree.view.selectAll root third = tree.view.selectAll root (first ++ "," ++ second) := by
    intro third whole readThird same
    refine visited.selectAll_congr covers inside readBoth readThird freeBoth fun member => ?_
    rw [same, List.mem_append]
  refine ⟨?_, ?_, sameAs⟩
  · obtain ⟨found, foundOther, run, runOther, joined⟩ :=
      visited.selectAll_append_comma covers inside read readOther free freeOther
    exact ⟨nodes, found, foundOther, visited, nodup, apart, run, runOther, joined⟩
  · refine sameAs _ _ (SelectorList.parse_append_comma readOther read) fun member => ?_
    rw [List.mem_append, or_comm]

/-- An element inside another. -/
def nested : Tree :=
  ((empty.append root (.element ⟨"a", .empty⟩)).2.append 1 (.element ⟨"b", .empty⟩)).2

theorem wellBuilt_nested : nested.WellBuilt :=
  (WellBuilt.empty.append (by decide) _).append (by decide) _

theorem selectAll_comma_nested :
    nested.WellBuilt ∧ nested.view.FindsUnion root "a > b" "b, a" "a > b,b, a" ∧
      nested.view.selectAll root "b, a,a > b" = nested.view.selectAll root "a > b,b, a" := by
  have read : SelectorList.parse "a > b" =
      .ok ⟨[⟨⟨some (.tag "a"), []⟩, [(.child, ⟨some (.tag "b"), []⟩)]⟩]⟩ := by decide +kernel
  have readOther : SelectorList.parse "b, a" =
      .ok ⟨[⟨⟨some (.tag "b"), []⟩, []⟩, ⟨⟨some (.tag "a"), []⟩, []⟩]⟩ := by decide +kernel
  have union := selectAll_comma wellBuilt_nested root read readOther (by decide) (by decide)
  exact ⟨wellBuilt_nested, union.1, union.2.1⟩

end Tree

end CssSelect
