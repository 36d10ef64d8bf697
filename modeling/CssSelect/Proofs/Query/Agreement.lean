import CssSelect.Proofs.Document.Loaded
import CssSelect.Proofs.Document.Order
import CssSelect.Proofs.Matching.Column
import CssSelect.Proofs.Query.Search

/-!
How the queries agree. Each reads its text first, so a text that is no selector has the same
error from all of them. Both searches are told by the answers for the single nodes of a
traversal, up to the first node that has none; in a tree whose links agree these nodes are
the elements below the root, in document order.
-/
namespace CssSelect

section Query

variable {α : Type} {selectors : String}

/-- A text that is no selector is reported before anything is asked of a tree. -/
theorem View.query_of_unreadable {error : SyntaxError}
    (unreadable : SelectorList.parse selectors = .error error)
    (evaluate : SelectorList → Except Halt α) :
    View.query selectors evaluate = .error (.selector error) := by
  rw [View.query, unreadable]

theorem View.query_of_read {list : SelectorList} (read : SelectorList.parse selectors = .ok list)
    (evaluate : SelectorList → Except Halt α) :
    View.query selectors evaluate = QueryError.ofEvaluation (evaluate list) := by
  rw [View.query, read]

@[simp]
theorem QueryError.ofEvaluation_eq_ok {outcome : Except Halt α} {value : α} :
    QueryError.ofEvaluation outcome = .ok value ↔ outcome = .ok value := by
  cases outcome <;> simp [QueryError.ofEvaluation]

@[simp]
theorem QueryError.ofEvaluation_eq_error {outcome : Except Halt α} {error : QueryError} :
    QueryError.ofEvaluation outcome = .error error ↔
      ∃ halt, outcome = .error halt ∧ error = .evaluation halt := by
  cases outcome <;> simp [QueryError.ofEvaluation, eq_comm]

/-- A query that has a result has read its text. -/
theorem View.exists_read_of_query {evaluate : SelectorList → Except Halt α} {value : α}
    (run : View.query selectors evaluate = .ok value) :
    ∃ list, SelectorList.parse selectors = .ok list ∧ evaluate list = .ok value := by
  cases read : SelectorList.parse selectors with
  | error error =>
    rw [query_of_unreadable read] at run
    cases run
  | ok list =>
    rw [query_of_read read, QueryError.ofEvaluation_eq_ok] at run
    exact ⟨list, rfl, run⟩

end Query

namespace View

variable {ν : Type} [BEq ν] [Hashable ν]

/-- The searches below `root` give what the queries for the nodes of its traversal give: all
matched nodes and the first of them, or the error of the first node that cannot be decided,
unless the search for a single node has ended before. -/
structure SearchesAgree (view : View ν) (root : ν) (selectors : String) (nodes : List ν) :
    Prop where
  decided : (∀ node ∈ nodes, ∃ matched, view.isMatch node selectors = .ok matched) →
    view.selectAll root selectors =
        .ok (nodes.filter fun node => view.isMatch node selectors = .ok true) ∧
      view.select root selectors =
        .ok (nodes.filter fun node => view.isMatch node selectors = .ok true).head?
  failed : ∀ before node after error, nodes = before ++ node :: after →
    (∀ earlier ∈ before, ∃ matched, view.isMatch earlier selectors = .ok matched) →
    view.isMatch node selectors = .error error →
    view.selectAll root selectors = .error error ∧
      view.select root selectors =
        match before.find? fun earlier => view.isMatch earlier selectors = .ok true with
        | some found => .ok (some found)
        | none => .error error

variable {view : View ν} {root : ν} {selectors : String} {nodes : List ν}

theorem allMatches_eq (known : view.knows root = true) (list : SelectorList) :
    view.allMatches root list = (view.findAll list (view.children root) #[]).map Array.toList := by
  cases search : view.findAll list (view.children root) #[] <;>
    simp [allMatches, startAt, ask, known, search, Except.map]

theorem firstMatch_eq (known : view.knows root = true) (list : SelectorList) :
    view.firstMatch root list = view.findFirst list (view.children root) := by
  rw [firstMatch, startAt, ask, if_pos known]
  rfl

/-- Where every visited node has an answer, a search finds those with the answer `true`. -/
theorem Traversal.allMatches_eq_filter (visited : view.Traversal root nodes) {list : SelectorList}
    (decided : ∀ node ∈ nodes, ∃ matched, list.test view node = .ok matched) :
    view.allMatches root list = .ok (nodes.filter fun node => list.test view node = .ok true) := by
  obtain ⟨known, all⟩ := traversal_iff.mp visited
  rw [allMatches_eq known, findAll_of_decided all decided]
  rfl

theorem Traversal.searchesAgree (visited : view.Traversal root nodes) {list : SelectorList}
    (read : SelectorList.parse selectors = .ok list) :
    view.SearchesAgree root selectors nodes := by
  obtain ⟨known, all⟩ := traversal_iff.mp visited
  constructor
  · intro decided
    simp only [isMatch, query_of_read read, QueryError.ofEvaluation_eq_ok] at decided ⊢
    rw [selectAll, select, query_of_read read, query_of_read read,
      visited.allMatches_eq_filter decided, firstMatch_eq known, findFirst_of_decided all decided,
      List.head?_filter]
    exact ⟨rfl, rfl⟩
  · rintro before node after error rfl decided failed
    simp only [isMatch, query_of_read read, QueryError.ofEvaluation_eq_ok,
      QueryError.ofEvaluation_eq_error] at decided failed ⊢
    obtain ⟨halt, failed, rfl⟩ := failed
    rw [selectAll, select, query_of_read read, query_of_read read, allMatches_eq known,
      firstMatch_eq known, findAll_of_failed all decided failed,
      findFirst_of_failed all decided failed]
    refine ⟨rfl, ?_⟩
    cases before.find? fun earlier => list.test view earlier = .ok true <;> rfl

/-- A search for all matches that has a result had an answer at every node. -/
theorem SearchesAgree.decided_of_selectAll (agree : view.SearchesAgree root selectors nodes)
    {found : List ν} (run : view.selectAll root selectors = .ok found) :
    ∀ node ∈ nodes, ∃ matched, view.isMatch node selectors = .ok matched := by
  rcases decided_or_first_error (view.isMatch · selectors) nodes with
    decided | ⟨before, node, after, error, split, decided, failed⟩
  · exact decided
  · rw [(agree.failed before node after error split decided failed).1] at run
    cases run

/-- A search for all matches that has a result has found all of them. -/
theorem SearchesAgree.eq_filter (agree : view.SearchesAgree root selectors nodes) {found : List ν}
    (run : view.selectAll root selectors = .ok found) :
    found = nodes.filter fun node => view.isMatch node selectors = .ok true := by
  rw [(agree.decided (agree.decided_of_selectAll run)).1] at run
  exact (Except.ok.inj run).symm

section Outcome

variable {μ : Type} [BEq μ] [Hashable μ] {other : View μ} {otherRoot : μ} {twins : List μ}

/-- Searches with the same single answers, one after the other, fail in the same way, or both have
a result. -/
theorem SearchesAgree.same_outcome (agree : view.SearchesAgree root selectors nodes)
    (otherAgree : other.SearchesAgree otherRoot selectors twins)
    (same : nodes.map (view.isMatch · selectors) = twins.map (other.isMatch · selectors)) :
    (∃ error, view.selectAll root selectors = .error error ∧
        other.selectAll otherRoot selectors = .error error) ∨
      ∃ found otherFound, view.selectAll root selectors = .ok found ∧
        other.selectAll otherRoot selectors = .ok otherFound := by
  have answers : ∀ {before : List ν} {earlier : List μ},
      earlier.map (other.isMatch · selectors) = before.map (view.isMatch · selectors) →
      (∀ node ∈ before, ∃ matched, view.isMatch node selectors = .ok matched) →
      ∀ twin ∈ earlier, ∃ matched, other.isMatch twin selectors = .ok matched := by
    intro before earlier same decided twin member
    have answered := List.mem_map_of_mem (f := (other.isMatch · selectors)) member
    rw [same] at answered
    obtain ⟨node, here, equal⟩ := List.mem_map.mp answered
    obtain ⟨matched, tested⟩ := decided node here
    exact ⟨matched, equal.symm.trans tested⟩
  rcases decided_or_first_error (view.isMatch · selectors) nodes with
    decided | ⟨before, node, after, error, rfl, decided, failed⟩
  · exact Or.inr ⟨_, _, (agree.decided decided).1, (otherAgree.decided (answers same.symm decided)).1⟩
  · rw [List.map_append, List.map_cons] at same
    obtain ⟨earlier, rest, rfl, sameBefore, sameRest⟩ := List.map_eq_append_iff.mp same.symm
    obtain ⟨twin, later, rfl, sameNode, _⟩ := List.map_eq_cons_iff.mp sameRest
    refine Or.inl ⟨error, (agree.failed before node after error rfl decided failed).1, ?_⟩
    exact (otherAgree.failed earlier twin later error rfl (answers sameBefore decided)
      (sameNode.trans failed)).1

end Outcome

/-- Searches through the same nodes with the same single answers have the same outcome. -/
theorem SearchesAgree.selectAll_congr {other : View ν} {otherRoot : ν}
    (agree : view.SearchesAgree root selectors nodes)
    (otherAgree : other.SearchesAgree otherRoot selectors nodes)
    (same : ∀ node ∈ nodes, view.isMatch node selectors = other.isMatch node selectors) :
    view.selectAll root selectors = other.selectAll otherRoot selectors := by
  rcases agree.same_outcome otherAgree (List.map_congr_left same) with
    ⟨error, failed, otherFailed⟩ | ⟨found, otherFound, run, otherRun⟩
  · rw [failed, otherFailed]
  · rw [run, otherRun, agree.eq_filter run, otherAgree.eq_filter otherRun]
    congr 1
    refine List.filter_congr fun node member => ?_
    rw [same node member]

/-- Every query for a single node comes to an end, and only a column combinator keeps it from
an answer. -/
theorem isMatch_answers [LawfulBEq ν] [LawfulHashable ν] {region : List ν}
    (covers : view.Covers region) {node : ν} (start : node ∈ region) {list : SelectorList}
    (read : SelectorList.parse selectors = .ok list) :
    (∃ matched, view.isMatch node selectors = .ok matched) ∨
      view.isMatch node selectors = .error (.evaluation .columnCombinator) := by
  rw [isMatch, query_of_read read]
  rcases list.test_answers covers start with ⟨matched, tested⟩ | failed
  · exact Or.inl ⟨matched, by rw [tested]; rfl⟩
  · exact Or.inr (by rw [failed]; rfl)

end View

namespace Tree

/-- What queries below `root` give in a tree. The traversal ends and visits exactly the elements
below the root, each once and in document order; each of these is decided or stopped at a column
combinator; and a result consists of exactly the matched ones, again in document order. -/
structure SearchesBelow (tree : Tree) (root : NodeId) (selectors : String) : Prop where
  traversal : ∃ nodes, tree.view.Traversal root nodes ∧ nodes.Pairwise tree.Precedes ∧
    nodes.Nodup ∧ root ∉ nodes ∧ ∀ id, id ∈ nodes ↔ tree.ElementBelow root id
  answers : ∀ id, tree.ElementBelow root id →
    (∃ matched, tree.view.isMatch id selectors = .ok matched) ∨
      tree.view.isMatch id selectors = .error (.evaluation .columnCombinator)
  result : ∀ found, tree.view.selectAll root selectors = .ok found →
    found.Pairwise tree.Precedes ∧ found.Nodup ∧
      ∀ id, id ∈ found ↔
        tree.ElementBelow root id ∧ tree.view.isMatch id selectors = .ok true

theorem WellLinked.searchesBelow {tree : Tree} (linked : tree.WellLinked) {selectors : String}
    {list : SelectorList} (read : SelectorList.parse selectors = .ok list) (root : NodeId) :
    tree.SearchesBelow root selectors := by
  obtain ⟨nodes, visited, ordered, nodup, apart, mem_iff⟩ := linked.exists_traversal root
  refine ⟨⟨nodes, visited, ordered, nodup, apart, mem_iff⟩, fun id below => ?_, fun found run => ?_⟩
  · have allocated := List.mem_range.mpr (lt_size_of_isElement below.isElement)
    exact View.isMatch_answers linked.covers allocated read
  · rw [(visited.searchesAgree read).eq_filter run]
    refine ⟨ordered.filter _, nodup.filter _, fun id => ?_⟩
    rw [List.mem_filter, mem_iff, decide_eq_true_iff]

end Tree

/-- The queries agree with each other. A text that cannot be read has its error from all four
of them. Otherwise the searches give what the queries for the single nodes of the traversal
give; and each of these has an answer or ends at a column combinator if finitely many nodes can
be reached. In every tree that was built step by step, as loaded trees are, the searches find
exactly the matched elements below their root. -/
theorem queries_agree (selectors : String) :
    (∀ error, SelectorList.parse selectors = .error error →
      ∀ (ν : Type) [BEq ν] [Hashable ν] (view : View ν) (node : ν),
        view.selectAll node selectors = .error (.selector error) ∧
          view.select node selectors = .error (.selector error) ∧
          view.isMatch node selectors = .error (.selector error) ∧
          view.closest node selectors = .error (.selector error)) ∧
    (∀ list, SelectorList.parse selectors = .ok list →
      (∀ (ν : Type) [BEq ν] [Hashable ν] [LawfulBEq ν] [LawfulHashable ν] (view : View ν) (root : ν)
        (nodes : List ν), view.Traversal root nodes →
          view.SearchesAgree root selectors nodes ∧
          ∀ region, view.Covers region → ∀ node ∈ region,
            (∃ matched, view.isMatch node selectors = .ok matched) ∨
              view.isMatch node selectors = .error (.evaluation .columnCombinator)) ∧
      ∀ tree : Tree, tree.WellBuilt → ∀ root, tree.SearchesBelow root selectors) ∧
    ∀ text tree, Tree.load text = .ok tree → tree.WellBuilt := by
  refine ⟨fun error unreadable ν _ _ view node => ?_, fun list read => ⟨?_, ?_⟩, ?_⟩
  · exact ⟨View.query_of_unreadable unreadable _, View.query_of_unreadable unreadable _,
      View.query_of_unreadable unreadable _, View.query_of_unreadable unreadable _⟩
  · intro ν _ _ _ _ view root nodes visited
    exact ⟨visited.searchesAgree read, fun region covers node start =>
      View.isMatch_answers covers start read⟩
  · exact fun tree built root => built.wellLinked.searchesBelow read root
  · exact fun text tree loaded => Tree.wellBuilt_of_load loaded

namespace Tree

/-- An element with a text and another element below it. -/
def around : Tree :=
  (((empty.append root (.element ⟨"a", .empty⟩)).2.append 1 (.text "x")).2.append 1
    (.element ⟨"b", .empty⟩)).2

/-- The text that it is loaded from. -/
def aroundText : String :=
  "\x7b\"tag\": \"a\", \"children\": [\"x\", \x7b\"tag\": \"b\"\x7d]\x7d"

theorem load_around : load aroundText = .ok around := by
  have read : Json.read aroundText.toList = .ok (.object [("tag", .string "a"),
      ("children", .array [.string "x", .object [("tag", .string "b")]])], []) := by
    with_unfolding_all rfl
  rw [load, read]
  rfl

theorem traversal_around : around.view.Traversal root [1, 3] := by
  have leaf : View.Preorder around.view (around.view.children 3) [] := .nil
  have below : View.Preorder around.view (around.view.children 1) (3 :: ([] ++ [])) :=
    .cons rfl leaf .nil
  have all : View.Preorder around.view (around.view.children root) (1 :: ([3] ++ [])) :=
    .cons rfl below .nil
  exact View.traversal_iff.mpr ⟨rfl, all⟩

/-- The outer element is matched; at the inner one the column combinator has to be evaluated. -/
theorem answers_around_column :
    SelectorList.parse "a, a || b" = .ok ⟨[⟨⟨some (.tag "a"), []⟩, []⟩,
        ⟨⟨some (.tag "a"), []⟩, [(.column, ⟨some (.tag "b"), []⟩)]⟩]⟩ ∧
      around.view.isMatch 1 "a, a || b" = .ok true ∧
      around.view.isMatch 3 "a, a || b" = .error (.evaluation .columnCombinator) := by
  decide +kernel

end Tree

/-- The search for all matches comes to the second element, which has no answer; the search for one
match has ended before. -/
theorem queries_around :
    (SelectorList.parse "" = .error ⟨.selectorExpected, 0⟩ ∧
      Tree.around.view.selectAll Tree.root "" = .error (.selector ⟨.selectorExpected, 0⟩) ∧
      Tree.around.view.select Tree.root "" = .error (.selector ⟨.selectorExpected, 0⟩) ∧
      Tree.around.view.isMatch 1 "" = .error (.selector ⟨.selectorExpected, 0⟩) ∧
      Tree.around.view.closest 1 "" = .error (.selector ⟨.selectorExpected, 0⟩)) ∧
    (Tree.around.view.Traversal Tree.root [1, 3] ∧
      Tree.around.view.isMatch 1 "a, a || b" = .ok true ∧
      Tree.around.view.isMatch 3 "a, a || b" = .error (.evaluation .columnCombinator) ∧
      Tree.around.view.selectAll Tree.root "a, a || b" = .error (.evaluation .columnCombinator) ∧
      Tree.around.view.select Tree.root "a, a || b" = .ok (some 1)) ∧
    (Tree.around.view.selectAll Tree.root "b" = .ok [3] ∧
      Tree.around.view.select Tree.root "b" = .ok (some 3)) ∧
    Tree.load Tree.aroundText = .ok Tree.around ∧ Tree.around.WellBuilt ∧
      Tree.around.SearchesBelow Tree.root "a, a || b" := by
  have unreadable : SelectorList.parse "" = .error ⟨.selectorExpected, 0⟩ := by decide +kernel
  obtain ⟨read, outer, inner⟩ := Tree.answers_around_column
  obtain ⟨ofRead, below⟩ := (queries_agree "a, a || b").2.1 _ read
  have searches := (ofRead NodeId Tree.around.view Tree.root [1, 3] Tree.traversal_around).1
  have stopped := searches.failed [1] 3 [] _ rfl (by simp [outer]) inner
  have readInner : SelectorList.parse "b" = .ok ⟨[⟨⟨some (.tag "b"), []⟩, []⟩]⟩ := by
    decide +kernel
  have noOuter : Tree.around.view.isMatch 1 "b" = .ok false := by decide +kernel
  have hasInner : Tree.around.view.isMatch 3 "b" = .ok true := by decide +kernel
  have answered := (((queries_agree "b").2.1 _ readInner).1 NodeId Tree.around.view Tree.root [1, 3]
    Tree.traversal_around).1.decided (by simp [noOuter, hasInner])
  have built := (queries_agree "").2.2 _ _ Tree.load_around
  refine ⟨⟨unreadable, ?_⟩, ⟨Tree.traversal_around, outer, inner, ?_⟩, ?_, Tree.load_around, built,
    below _ built _⟩
  · obtain ⟨all, first, _, _⟩ := (queries_agree "").1 _ unreadable NodeId Tree.around.view Tree.root
    obtain ⟨_, _, single, upwards⟩ := (queries_agree "").1 _ unreadable NodeId Tree.around.view 1
    exact ⟨all, first, single, upwards⟩
  · simpa [outer] using stopped
  · simpa [noOuter, hasInner] using answered

end CssSelect
