import CssSelect.Proofs.Query.Agreement
import CssSelect.Table

/-!
The search upwards. It tests a node and what stands above it, one after the other, and the first of
them that is not just passed by decides. What is above a node is also what the descendant combinator
collects, all at once; the two agree on whether some node above is matched.
-/
namespace CssSelect

variable {ν : Type}

/-- The selector with `*` behind it: what stands somewhere below the nodes that it matches. -/
def ComplexSelector.anyBelow (selector : ComplexSelector) : ComplexSelector :=
  ⟨selector.head, selector.tail ++ [(.descendant, ⟨none, []⟩)]⟩

namespace View

/-- A node and what stands above it, nearest first, up to a node without a parent. -/
inductive LineUp (view : View ν) : ν → List ν → Prop
  | top {node : ν} (last : view.parent node = none) : LineUp view node [node]
  | under {node above : ν} {line : List ν} (up : view.parent node = some above)
      (rest : LineUp view above line) : LineUp view node (node :: line)

namespace LineUp

variable {view : View ν} {node : ν} {line : List ν}

theorem mem_iff (lineUp : view.LineUp node line) (other : ν) :
    other ∈ line ↔ other = node ∨ Leads view.parent node other := by
  induction lineUp with
  | top last => simp [not_leads_of_none last]
  | under up _ ih => rw [List.mem_cons, ih, leads_iff_of_some up]

theorem subset {region : List ν} (covers : view.Covers region) (lineUp : view.LineUp node line)
    (start : node ∈ region) : line ⊆ region := by
  induction lineUp with
  | top _ => exact by simpa using start
  | under up _ ih =>
    exact List.cons_subset.mpr ⟨start, ih (covers.parent _ start _ up)⟩

end LineUp

variable [BEq ν] [Hashable ν] {view : View ν} {list : SelectorList} {node above : ν}
  {line : List ν}

/-- The first node of a line that is not just passed by decides what a search upwards gives. -/
structure FirstDecides (view : View ν) (list : SelectorList) (line : List ν)
    (outcome : Except QueryError (Option ν)) : Prop where
  decided : ∀ passed candidate behind, line = passed ++ candidate :: behind →
    (∀ other ∈ passed, list.test view other = .ok false) →
    (list.test view candidate = .ok true → outcome = .ok (some candidate)) ∧
      ∀ halt, list.test view candidate = .error halt → outcome = .error (.evaluation halt)
  undecided : (∀ other ∈ line, list.test view other = .ok false) → outcome = .ok none

/-! ## Steps -/

theorem findUp_matched (tested : list.test view node = .ok true) :
    view.findUp list node = .ok (some node) := by
  apply repeatM_of_result
  simp only [seekUp, tested]

theorem findUp_failed {halt : Halt} (failed : list.test view node = .error halt) :
    view.findUp list node = .error halt := by
  apply repeatM_of_error
  simp only [seekUp, failed]

theorem findUp_top (known : view.knows node = true) (tested : list.test view node = .ok false)
    (last : view.parent node = none) : view.findUp list node = .ok none := by
  apply repeatM_of_result
  simp only [seekUp, tested, ask_of_knows known, last]

theorem findUp_passed (known : view.knows node = true) (tested : list.test view node = .ok false)
    (up : view.parent node = some above) : view.findUp list node = view.findUp list above := by
  apply repeatM_of_next
  simp only [seekUp, tested, ask_of_knows known, up]

/-! ## Lines -/

/-- Behind nodes that are passed by the search goes on as from the next one. -/
theorem LineUp.findUp_append {passed behind : List ν} {candidate : ν}
    (lineUp : view.LineUp node (passed ++ candidate :: behind))
    (known : ∀ other ∈ passed, view.knows other = true)
    (notMatched : ∀ other ∈ passed, list.test view other = .ok false) :
    view.findUp list node = view.findUp list candidate := by
  induction passed generalizing node with
  | nil => cases lineUp <;> rfl
  | cons first passed ih =>
    obtain ⟨firstKnown, known⟩ := List.forall_mem_cons.mp known
    obtain ⟨firstTested, notMatched⟩ := List.forall_mem_cons.mp notMatched
    generalize shape : first :: passed ++ candidate :: behind = line at lineUp
    cases lineUp with
    | top last => simp at shape
    | under up rest =>
      obtain ⟨rfl, rfl⟩ := List.cons.inj shape
      rw [findUp_passed firstKnown firstTested up, ih rest known notMatched]

/-- A line of nodes that are all passed by has no match. -/
theorem LineUp.findUp_none (lineUp : view.LineUp node line)
    (known : ∀ other ∈ line, view.knows other = true)
    (notMatched : ∀ other ∈ line, list.test view other = .ok false) :
    view.findUp list node = .ok none := by
  induction lineUp with
  | top last => exact findUp_top (known _ (by simp)) (notMatched _ (by simp)) last
  | under up _ ih =>
    obtain ⟨firstKnown, known⟩ := List.forall_mem_cons.mp known
    obtain ⟨firstTested, notMatched⟩ := List.forall_mem_cons.mp notMatched
    rw [findUp_passed firstKnown firstTested up, ih known notMatched]

theorem LineUp.firstDecides (lineUp : view.LineUp node line)
    (known : ∀ other ∈ line, view.knows other = true) :
    view.FirstDecides list line (QueryError.ofEvaluation (view.closestMatch node list)) := by
  constructor
  case decided =>
    rintro passed candidate behind rfl notMatched
    rw [closestMatch, lineUp.findUp_append (fun other member => known other (by simp [member]))
      notMatched]
    constructor
    · intro tested
      rw [findUp_matched tested]
      rfl
    · intro halt failed
      rw [findUp_failed failed]
      rfl
  case undecided =>
    intro notMatched
    rw [closestMatch, lineUp.findUp_none known notMatched]
    rfl

/-- Where every node of the line has an answer, a match is found exactly if there is one. -/
theorem LineUp.exists_found_iff (lineUp : view.LineUp node line)
    (known : ∀ other ∈ line, view.knows other = true)
    (answered : ∀ other ∈ line, ∃ matched, list.test view other = .ok matched) :
    (∃ found, view.closestMatch node list = .ok (some found)) ↔
      ∃ other ∈ line, list.test view other = .ok true := by
  induction lineUp with
  | @top node last =>
    obtain ⟨matched, tested⟩ := answered node List.mem_cons_self
    cases matched with
    | true => simp [closestMatch, findUp_matched tested, tested]
    | false => simp [closestMatch, findUp_top (known _ List.mem_cons_self) tested last, tested]
  | @under node above line up _ ih =>
    obtain ⟨firstKnown, known⟩ := List.forall_mem_cons.mp known
    obtain ⟨⟨matched, tested⟩, answered⟩ := List.forall_mem_cons.mp answered
    cases matched with
    | true => simp [closestMatch, findUp_matched tested, tested]
    | false =>
      have goesOn := ih known answered
      rw [closestMatch] at goesOn ⊢
      simp [findUp_passed firstKnown tested up, goesOn, tested]

/-- Some node of a line is matched by a selector without column combinators. -/
theorem LineUp.exists_found_iff_chain [LawfulBEq ν] [LawfulHashable ν] {region : List ν}
    (covers : view.Covers region) (lineUp : view.LineUp node line) (start : node ∈ region)
    {selector : ComplexSelector} (free : selector.ColumnFree) :
    (∃ found, view.closestMatch node ⟨[selector]⟩ = .ok (some found)) ↔
      ∃ other ∈ line, selector.Chain view other := by
  have answers : ∀ other ∈ line, ∃ matched,
      SelectorList.test ⟨[selector]⟩ view other = .ok matched ∧
        (matched = true ↔ selector.Chain view other) := by
    intro other member
    simp only [SelectorList.test_singleton]
    exact selector.test_decides covers (lineUp.subset covers start member) free
  rw [lineUp.exists_found_iff]
  · refine exists_congr fun other => and_congr_right fun member => ?_
    obtain ⟨matched, tested, matched_iff⟩ := answers other member
    rw [tested, Except.ok.injEq, matched_iff]
  · exact fun other member => covers.knows other (lineUp.subset covers start member)
  · intro other member
    obtain ⟨matched, tested, _⟩ := answers other member
    exact ⟨matched, tested⟩

end View

namespace ComplexSelector

theorem ColumnFree.anyBelow {selector : ComplexSelector} (free : selector.ColumnFree) :
    selector.anyBelow.ColumnFree := by
  intro link member
  rcases List.mem_append.mp member with inside | last
  · exact free link inside
  · rw [List.mem_singleton.mp last]
    decide

theorem chain_anyBelow_iff {selector : ComplexSelector} {view : View ν} {node : ν} :
    selector.anyBelow.Chain view node ↔
      ∃ above, View.Leads view.parent node above ∧ selector.Chain view above := by
  have anyNode : CompoundSelector.Meets ⟨none, []⟩ view node := rfl
  rw [anyBelow, chain_concat_iff, and_iff_right anyNode]
  rfl

end ComplexSelector

/-- A search upwards is decided by the nearest node that is not just passed by, whether that is
matched or cannot be decided. With `*` below it, a selector without column combinators matches the
nodes from whose parent the search for that selector finds a node. -/
theorem closest_decided_by_first [BEq ν] [Hashable ν] [LawfulBEq ν] [LawfulHashable ν]
    {view : View ν} {region : List ν} (covers : view.Covers region) {node : ν}
    (start : node ∈ region) {line : List ν} (lineUp : view.LineUp node line) :
    (∀ selectors list, SelectorList.parse selectors = .ok list →
      view.FirstDecides list line (view.closest node selectors)) ∧
    ∀ selector : ComplexSelector, selector.ColumnFree →
      ∃ matched, selector.anyBelow.test view node = .ok matched ∧
        (matched = true ↔ ∃ above, view.parent node = some above ∧
          ∃ found, view.closestMatch above ⟨[selector]⟩ = .ok (some found)) := by
  refine ⟨fun selectors list read => ?_, fun selector free => ?_⟩
  · rw [View.closest, View.query_of_read read]
    refine lineUp.firstDecides fun other member => ?_
    exact covers.knows other (lineUp.subset covers start member)
  · obtain ⟨matched, tested, matched_iff⟩ :=
      selector.anyBelow.test_decides covers start free.anyBelow
    refine ⟨matched, tested, ?_⟩
    rw [matched_iff, ComplexSelector.chain_anyBelow_iff]
    cases lineUp with
    | top last => simp [last, View.not_leads_of_none last]
    | @under _ above line up rest =>
      simp only [up, Option.some.injEq, exists_eq_left']
      rw [rest.exists_found_iff_chain covers (covers.parent node start above up) free]
      simp only [rest.mem_iff, View.leads_iff_of_some up]

/-- Three nodes, one below the other. -/
def generations : Table where
  rows := #[
    { tag := some "a", content := none, id := none, classes := [], attributes := [],
      parent := none, previous := none, next := none, children := [1] },
    { tag := some "b", content := none, id := none, classes := [], attributes := [],
      parent := some 0, previous := none, next := none, children := [2] },
    { tag := some "c", content := none, id := none, classes := [], attributes := [],
      parent := some 1, previous := none, next := none, children := [] }]

theorem generations_covers : generations.view.Covers [0, 1, 2] where
  knows := by decide
  parent := by simp [generations, Table.view]
  previousSibling := by simp [generations, Table.view]

/-- `a > b`. -/
def childOfFirst : ComplexSelector where
  head := ⟨some (.tag "a"), []⟩
  tail := [(.child, ⟨some (.tag "b"), []⟩)]

/-- `c || c`. -/
def columnBehind : ComplexSelector where
  head := ⟨some (.tag "c"), []⟩
  tail := [(.column, ⟨some (.tag "c"), []⟩)]

/-- The search from the last node passes it and stops at the one above; a column combinator that
the last node leads to ends the search at once. -/
theorem closest_generations :
    (generations.view.Covers [0, 1, 2] ∧ 2 ∈ [0, 1, 2] ∧ generations.view.LineUp 2 [2, 1, 0] ∧
      childOfFirst.ColumnFree) ∧
    generations.view.closest 2 "a > b" = .ok (some 1) ∧
    generations.view.closest 2 "c || c, a > b" = .error (.evaluation .columnCombinator) ∧
    childOfFirst.anyBelow.test generations.view 2 = .ok true := by
  have start : 2 ∈ [0, 1, 2] := by decide
  have lineUp : generations.view.LineUp 2 [2, 1, 0] := .under rfl (.under rfl (.top rfl))
  have free : childOfFirst.ColumnFree := by decide
  have read : SelectorList.parse "a > b" = .ok ⟨[childOfFirst]⟩ := by decide +kernel
  have readColumn : SelectorList.parse "c || c, a > b" = .ok ⟨[columnBehind, childOfFirst]⟩ := by
    decide +kernel
  have passed : ∀ other ∈ [2],
      SelectorList.test ⟨[childOfFirst]⟩ generations.view other = .ok false := by decide +kernel
  have matched : SelectorList.test ⟨[childOfFirst]⟩ generations.view 1 = .ok true := by
    decide +kernel
  have stopped : SelectorList.test ⟨[columnBehind, childOfFirst]⟩ generations.view 2 =
      .error .columnCombinator := by decide +kernel
  obtain ⟨byFirst, byParent⟩ := closest_decided_by_first generations_covers start lineUp
  obtain ⟨below, tested, below_iff⟩ := byParent childOfFirst free
  rw [below_iff.mpr ⟨1, rfl, 1, View.findUp_matched matched⟩] at tested
  exact ⟨⟨generations_covers, start, lineUp, free⟩,
    ((byFirst _ _ read).decided [2] 1 [0] rfl passed).1 matched,
    ((byFirst _ _ readColumn).decided [] 2 [1, 0] rfl (by simp)).2 _ stopped, tested⟩

end CssSelect
