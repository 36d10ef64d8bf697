import CssSelect.Proofs.Matching.Chain

/-!
When matching ends at a column combinator. Matching goes from right to left and stops as soon
as no candidate is left, so a column combinator is reached exactly if the compounds on its
right can be completed; the last one decides alone, and what stands on its left is never
looked at. In a list the first member with another answer than `false` decides.
-/
namespace CssSelect

variable {ν : Type}

namespace ComplexSelector

/-- What stands on the right of the last column combinator, as a selector of its own: its
head is the compound right behind the combinator. -/
structure BehindColumns (selector rest : ComplexSelector) : Prop where
  free : rest.ColumnFree
  split : ∃ before, selector.tail = before ++ (.column, rest.head) :: rest.tail

theorem exists_behindColumns {selector : ComplexSelector} (columns : ¬ selector.ColumnFree) :
    ∃ rest, selector.BehindColumns rest := by
  obtain ⟨head, tail⟩ := selector
  induction tail with
  | nil => exact absurd (fun _ member => absurd member List.not_mem_nil) columns
  | cons link tail ih =>
    by_cases free : ColumnFree ⟨head, tail⟩
    · obtain ⟨combinator, compound⟩ := link
      have column : combinator = .column := by
        by_contra other
        exact columns (List.forall_mem_cons.mpr ⟨other, free⟩)
      exact ⟨⟨compound, tail⟩, free, [], by rw [column]; rfl⟩
    · obtain ⟨rest, freeRest, before, split⟩ := ih free
      exact ⟨rest, freeRest, link :: before, congrArg (link :: ·) split⟩

end ComplexSelector

/-- Looking for one node that meets a compound is asking whether any would be kept. -/
theorem CompoundSelector.testAny_of_keep {view : View ν} {compound : CompoundSelector}
    {nodes kept : List ν} (all : compound.keep view nodes = .ok kept) :
    compound.testAny view nodes = .ok (!kept.isEmpty) := by
  induction nodes generalizing kept with
  | nil =>
    cases all
    rfl
  | cons node nodes ih =>
    simp only [keep] at all
    split at all
    · cases all
    · next met first =>
      split at all
      · cases all
      · next others rest =>
        cases met with
        | true =>
          cases all
          simp only [testAny, first, if_true, List.isEmpty_cons, Bool.not_false]
        | false =>
          cases all
          simp only [testAny, first, Bool.false_eq_true, if_false]
          exact ih rest

namespace SelectorList

/-- Some member ends with the given outcome, and no member before it is matched. -/
def DecidedBy (list : SelectorList) (view : View ν) [BEq ν] [Hashable ν] (node : ν)
    (outcome : Except Halt Bool) : Prop :=
  ∃ earlier member later, list.members = earlier ++ member :: later ∧
    (∀ other ∈ earlier, other.test view node = .ok false) ∧ member.test view node = outcome

end SelectorList

variable [BEq ν] [Hashable ν] {view : View ν} {node : ν}

namespace SelectorList

theorem walkMembers_of_passed {selector : ComplexSelector} {others : List ComplexSelector}
    (passed : selector.test view node = .ok false) :
    (walkMembers view node (selector :: others)).outcome =
      (walkMembers view node others).outcome := by
  have outcome : (selector.walk view node).outcome = .ok false := passed
  simp only [walkMembers, outcome]

theorem walkMembers_of_decided {selector : ComplexSelector} {others : List ComplexSelector}
    (decided : selector.test view node ≠ .ok false) :
    (walkMembers view node (selector :: others)).outcome = selector.test view node := by
  simp only [walkMembers]
  split
  · next passed => exact absurd passed decided
  · rfl

/-- A list with a single member is that member. -/
theorem test_singleton (selector : ComplexSelector) :
    test ⟨[selector]⟩ view node = selector.test view node := by
  change (walkMembers view node [selector]).outcome = _
  by_cases passed : selector.test view node = .ok false
  · rw [walkMembers_of_passed passed, passed]
    rfl
  · rw [walkMembers_of_decided passed]

/-- The first member with another outcome than `false` gives its outcome to the list. -/
theorem test_eq_iff_decidedBy {list : SelectorList} {outcome : Except Halt Bool}
    (decisive : outcome ≠ .ok false) :
    list.test view node = outcome ↔ list.DecidedBy view node outcome := by
  obtain ⟨members⟩ := list
  change (walkMembers view node members).outcome = outcome ↔
    ∃ earlier member later, members = earlier ++ member :: later ∧
      (∀ other ∈ earlier, other.test view node = .ok false) ∧ member.test view node = outcome
  induction members with
  | nil =>
    constructor
    · intro empty
      exact absurd empty.symm decisive
    · rintro ⟨earlier, member, later, split, _⟩
      cases earlier <;> cases split
  | cons selector others ih =>
    by_cases passed : selector.test view node = .ok false
    · rw [walkMembers_of_passed passed, ih]
      constructor
      · rintro ⟨earlier, member, later, split, allPassed, decides⟩
        refine ⟨selector :: earlier, member, later, by rw [split]; rfl, ?_, decides⟩
        exact List.forall_mem_cons.mpr ⟨passed, allPassed⟩
      · rintro ⟨_ | ⟨first, earlier⟩, member, later, split, allPassed, decides⟩
        · cases split
          exact absurd (decides.symm.trans passed) decisive
        · cases split
          exact ⟨earlier, member, later, rfl, (List.forall_mem_cons.mp allPassed).2, decides⟩
    · rw [walkMembers_of_decided passed]
      constructor
      · intro decides
        exact ⟨[], selector, others, rfl, fun _ member => absurd member List.not_mem_nil, decides⟩
      · rintro ⟨_ | ⟨first, earlier⟩, member, later, split, allPassed, decides⟩
        · cases split
          exact decides
        · cases split
          exact absurd (allPassed _ List.mem_cons_self) passed

end SelectorList

variable [LawfulBEq ν] [LawfulHashable ν] {region : List ν}

namespace ComplexSelector

/-- The walk for the compounds on the right of a column combinator, and the same walk with that
combinator and more behind it. They take the same candidates along; where the first has to
find a head among them, the second is stopped by any that it has kept. -/
theorem walkLeft_column (covers : view.Covers region) (head compound : CompoundSelector)
    (joined others : List (Combinator × CompoundSelector))
    (free : ∀ link ∈ joined, link.1 ≠ .column) {candidates : List ν}
    (inside : candidates ⊆ region) :
    ∃ matched, (walkLeft view compound joined candidates).outcome = .ok matched ∧
      (walkLeft view head (joined ++ (.column, compound) :: others) candidates).outcome =
        if matched then .error .columnCombinator else .ok false := by
  induction joined generalizing candidates with
  | nil =>
    have kept := compound.keep_eq_filter fun node member => covers.knows node (inside member)
    have tested := compound.testAny_of_keep kept
    refine ⟨_, tested, ?_⟩
    -- The column combinator is reached by any candidate that is kept.
    rw [List.nil_append, walkLeft, kept]
    cases candidates.filter fun node => compound.Meets view node with
    | nil => rfl
    | cons survivor rest => rfl
  | cons link joined ih =>
    obtain ⟨combinator, right⟩ := link
    obtain ⟨meaning, laterFree⟩ := List.forall_mem_cons.mp free
    obtain ⟨kept, found, _, _, foundInside, _, step⟩ := walkLeft_step covers meaning right inside
    obtain ⟨matched, shorter, longer⟩ := ih laterFree foundInside
    rw [List.cons_append, step, step]
    split
    · exact ⟨false, rfl, rfl⟩
    · exact ⟨matched, shorter, longer⟩

/-- A selector with column combinators is stopped by the last of them, or has lost all
candidates before. -/
theorem test_of_behindColumns (covers : view.Covers region) (start : node ∈ region)
    {selector rest : ComplexSelector} (behind : selector.BehindColumns rest) :
    ∃ matched, rest.test view node = .ok matched ∧
      selector.test view node = if matched then .error .columnCombinator else .ok false := by
  obtain ⟨free, before, split⟩ := behind
  have inside : [node] ⊆ region := by simpa using start
  have reversed : selector.tail.reverse =
      rest.tail.reverse ++ (.column, rest.head) :: before.reverse := by
    rw [split, List.reverse_append, List.reverse_cons, List.append_assoc]
    rfl
  obtain ⟨matched, shorter, longer⟩ :=
    walkLeft_column covers selector.head rest.head rest.tail.reverse before.reverse
      (fun link member => free link (List.mem_reverse.mp member)) inside
  refine ⟨matched, shorter, ?_⟩
  rw [test, walk, reversed]
  exact longer

end ComplexSelector

/-- Matching comes to an end, and only a column combinator keeps it from an answer. -/
theorem ComplexSelector.test_answers (covers : view.Covers region) (start : node ∈ region)
    (selector : ComplexSelector) :
    (∃ matched, selector.test view node = .ok matched) ∨
      selector.test view node = .error .columnCombinator := by
  by_cases free : selector.ColumnFree
  · obtain ⟨matched, tested, _⟩ := selector.test_decides covers start free
    exact Or.inl ⟨matched, tested⟩
  · obtain ⟨rest, behind⟩ := exists_behindColumns free
    obtain ⟨matched, _, tested⟩ := test_of_behindColumns covers start behind
    cases matched with
    | true => exact Or.inr tested
    | false => exact Or.inl ⟨false, tested⟩

theorem SelectorList.test_answers (covers : view.Covers region) (start : node ∈ region)
    (list : SelectorList) :
    (∃ matched, list.test view node = .ok matched) ∨
      list.test view node = .error .columnCombinator := by
  obtain ⟨members⟩ := list
  change (∃ matched, (walkMembers view node members).outcome = .ok matched) ∨
    (walkMembers view node members).outcome = .error .columnCombinator
  induction members with
  | nil => exact Or.inl ⟨false, rfl⟩
  | cons selector others ih =>
    by_cases passed : selector.test view node = .ok false
    · rw [walkMembers_of_passed passed]
      exact ih
    · rw [walkMembers_of_decided passed]
      exact selector.test_answers covers start

/-- Members without column combinators may come in any order. -/
theorem SelectorList.test_perm (covers : view.Covers region) (start : node ∈ region)
    {list other : SelectorList} (free : ∀ member ∈ list.members, member.ColumnFree)
    (reordered : other.members.Perm list.members) : other.test view node = list.test view node := by
  obtain ⟨matched, tested, matched_iff⟩ := walkMembers_outcome covers start list.members free
  obtain ⟨otherMatched, otherTested, otherMatched_iff⟩ :=
    walkMembers_outcome covers start other.members
      fun member inside => free member (reordered.mem_iff.mp inside)
  have same : otherMatched = matched := by
    rw [Bool.eq_iff_iff, otherMatched_iff, matched_iff]
    simp only [reordered.mem_iff]
  rw [SelectorList.test, SelectorList.walk, otherTested, same]
  exact tested.symm

/-- When matching is stopped by a column combinator. A selector that has one is never
matched: it ends with the error exactly at the nodes that are matched by what stands behind
its last column combinator, and is not matched at all others. A list ends with the error, or
is matched, exactly if a member does so and no member before it has; without column
combinators the order of the members does not matter. -/
theorem test_eq_columnCombinator_iff (covers : view.Covers region) (start : node ∈ region) :
    (∀ selector : ComplexSelector, ¬ selector.ColumnFree →
      ∃ rest, selector.BehindColumns rest) ∧
    (∀ selector rest : ComplexSelector, selector.BehindColumns rest →
      selector.test view node ≠ .ok true ∧
      (selector.test view node = .error .columnCombinator ↔ rest.test view node = .ok true) ∧
      (selector.test view node = .ok false ↔ rest.test view node ≠ .ok true)) ∧
    ∀ list : SelectorList,
      (∀ halt, list.test view node = .error halt ↔ list.DecidedBy view node (.error halt)) ∧
      (list.test view node = .ok true ↔ list.DecidedBy view node (.ok true)) ∧
      ((∀ member ∈ list.members, member.ColumnFree) → ∀ other : SelectorList,
        other.members.Perm list.members → other.test view node = list.test view node) := by
  refine ⟨fun _ => ComplexSelector.exists_behindColumns, fun selector rest behind => ?_,
    fun list => ⟨fun halt => ?_, ?_, fun free other => SelectorList.test_perm covers start free⟩⟩
  · obtain ⟨matched, shorter, longer⟩ := ComplexSelector.test_of_behindColumns covers start behind
    rw [longer, shorter]
    cases matched <;> simp
  · exact SelectorList.test_eq_iff_decidedBy (by simp)
  · exact SelectorList.test_eq_iff_decidedBy (by simp)

/-- `a || b > a`, whose last two compounds a node of a circle can meet. -/
def acrossColumn : ComplexSelector where
  head := ⟨some (.tag "a"), []⟩
  tail := [(.column, ⟨some (.tag "b"), []⟩), (.child, ⟨some (.tag "a"), []⟩)]

/-- `b > a`. -/
def behindColumn : ComplexSelector where
  head := ⟨some (.tag "b"), []⟩
  tail := [(.child, ⟨some (.tag "a"), []⟩)]

theorem test_acrossColumn :
    (circle.view.Covers [0, 1] ∧ 0 ∈ [0, 1] ∧ acrossColumn.BehindColumns behindColumn) ∧
      acrossColumn.test circle.view 0 = .error .columnCombinator := by
  have start : 0 ∈ [0, 1] := by decide
  have behind : acrossColumn.BehindColumns behindColumn := ⟨by decide, [], rfl⟩
  have step : circle.view.Related .child 1 0 := rfl
  have chain : behindColumn.Chain circle.view 0 := ⟨1, by decide, .join step (by decide) (.done 0)⟩
  obtain ⟨matched, tested, matched_iff⟩ := behindColumn.test_decides circle_covers start behind.free
  rw [matched_iff.mpr chain] at tested
  have stopped := (test_eq_columnCombinator_iff circle_covers start).2.1 _ _ behind
  exact ⟨⟨circle_covers, start, behind⟩, stopped.2.1.mpr tested⟩

end CssSelect
