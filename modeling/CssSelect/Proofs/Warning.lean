import Mathlib.Data.List.Induction
import CssSelect.Warning

/-!
What a log of warnings knows after any calls. It remembers texts in which component and message are
joined, so a warning counts as given if one with the same text was given since the log was cleared
last. Two different warnings have one text exactly if the component of the one is that of the other
and more, across a closing bracket; apart from these the log tells all warnings from each other.
-/
namespace CssSelect

namespace Warning

/-- The component of a warning goes on behind that of another with a closing bracket, a blank and
`between`; the other has `between` in front of its message instead. -/
def Extends (longer shorter : Warning) : Prop :=
  ∃ between : String, longer.component = shorter.component ++ "] " ++ between ∧
    shorter.message = between ++ "] " ++ longer.message

/-- Two different warnings with the same text. -/
def Confused (first second : Warning) : Prop :=
  first.Extends second ∨ second.Extends first

theorem toList_key (warning : Warning) :
    warning.key.toList =
      '[' :: (warning.component.toList ++ ']' :: ' ' :: warning.message.toList) := by
  have joined : warning.key = "[" ++ warning.component ++ "] " ++ warning.message := rfl
  simp [joined]

/-- A mark that stands in a text once more, behind a part of it, begins behind that part or is the
mark itself. -/
theorem append_mark_eq {more rest other : List Char}
    (same : more ++ ']' :: ' ' :: rest = ']' :: ' ' :: other) :
    more = [] ∧ rest = other ∨
      ∃ between, more = ']' :: ' ' :: between ∧ other = between ++ ']' :: ' ' :: rest := by
  cases more with
  | nil =>
    cases same
    exact Or.inl ⟨rfl, rfl⟩
  | cons bracket more =>
    cases more with
    -- A closing bracket is no blank, so the two marks cannot overlap.
    | nil => simp at same
    | cons blank between =>
      cases same
      exact Or.inr ⟨between, rfl, rfl⟩

/-- Of two warnings with one text, the one with the longer component extends the other. -/
theorem eq_or_extends {longer shorter : Warning} {more : List Char}
    (component : longer.component.toList = shorter.component.toList ++ more)
    (rest : ']' :: ' ' :: shorter.message.toList =
      more ++ ']' :: ' ' :: longer.message.toList) :
    longer = shorter ∨ longer.Extends shorter := by
  rcases append_mark_eq rest.symm with ⟨rfl, message⟩ | ⟨between, rfl, message⟩
  · rw [List.append_nil] at component
    cases longer
    cases shorter
    exact Or.inl (congrArg₂ mk (String.toList_inj.mp component) (String.toList_inj.mp message))
  · refine Or.inr ⟨String.ofList between, ?_, ?_⟩
    · simp [← String.toList_inj, component]
    · simp [← String.toList_inj, message]

theorem Extends.key_eq {longer shorter : Warning} (goesOn : longer.Extends shorter) :
    longer.key = shorter.key := by
  obtain ⟨between, component, message⟩ := goesOn
  rw [← String.toList_inj, toList_key, toList_key, component, message]
  simp

/-- The text tells two warnings apart unless one of them extends the other. -/
theorem key_eq_iff (first second : Warning) :
    first.key = second.key ↔ first = second ∨ first.Confused second := by
  constructor
  · intro same
    rw [← String.toList_inj, toList_key, toList_key, List.cons_inj_right] at same
    rcases List.append_eq_append_iff.mp same with ⟨more, component, rest⟩ | ⟨more, component, rest⟩
    · rcases eq_or_extends component rest with same | goesOn
      · exact Or.inl same.symm
      · exact Or.inr (Or.inr goesOn)
    · rcases eq_or_extends component rest with same | goesOn
      · exact Or.inl same
      · exact Or.inr (Or.inl goesOn)
  · rintro (rfl | goesOn | goesOn)
    · rfl
    · exact goesOn.key_eq
    · exact goesOn.key_eq.symm

/-- Every warning that is printed leaves something to be seen. -/
theorem line_ne_empty (warning : Warning) : warning.line ≠ "" := by
  have starts : warning.line = "\x1b[33m[Sift " ++ warning.component ++ "] ⚠ " ++ warning.message ++
    "\x1b[39m\n" := rfl
  simp [starts]

end Warning

namespace WarningLog

/-- What can be asked of a log: to give a warning, or to forget all of them. -/
inductive Call where
  | warn (warning : Warning)
  | clear

/-- The log after a call. -/
def step (log : WarningLog) : Call → WarningLog
  | .warn warning => (log.warn warning).1
  | .clear => empty

/-- The log after calls, one after the other, when no warning had been given before. -/
def after (calls : List Call) : WarningLog :=
  calls.foldl step empty

/-- The warning was asked for and the log has not been cleared since. -/
def Given (calls : List Call) (warning : Warning) : Prop :=
  ∃ before behind, calls = before ++ .warn warning :: behind ∧ .clear ∉ behind

/-- What the log does with a warning behind the calls: it knows the warning and is silent, or it
does not and prints the line. -/
structure Answers (calls : List Call) (warning : Warning) (known : Prop) : Prop where
  contains_iff : (after calls).contains warning = true ↔ known
  prints_iff : ((after calls).warn warning).2 = warning.line ↔ ¬ known
  silent_iff : ((after calls).warn warning).2 = "" ↔ known

variable {calls : List Call} {warning other : Warning}

/-! ## One call -/

theorem contains_iff {log : WarningLog} : log.contains warning = true ↔ warning.key ∈ log.keys :=
  List.contains_iff_mem

/-- Behind a warning the log knows its text, and what it knew before. -/
theorem contains_warn (log : WarningLog) :
    (log.warn other).1.contains warning = true ↔
      other.key = warning.key ∨ log.contains warning = true := by
  rw [warn]
  split
  · next known =>
    constructor
    · exact Or.inr
    · rintro (same | old)
      · rwa [contains_iff, ← same, ← contains_iff]
      · exact old
  · rw [contains_iff, contains_iff, List.mem_cons, eq_comm]

theorem not_contains_empty : ¬ empty.contains warning = true := by
  rw [contains_iff]
  exact List.not_mem_nil

theorem given_concat_iff {call : Call} :
    Given (calls ++ [call]) warning ↔
      call = .warn warning ∨ call ≠ .clear ∧ Given calls warning := by
  constructor
  · rintro ⟨before, behind, split, kept⟩
    rcases List.eq_nil_or_concat behind with rfl | ⟨behind, last, rfl⟩
    · obtain ⟨_, same⟩ := List.append_inj' split rfl
      cases same
      exact Or.inl rfl
    · rw [List.concat_eq_append] at split kept
      rw [← List.cons_append, ← List.append_assoc] at split
      obtain ⟨rfl, same⟩ := List.append_inj' split rfl
      cases same
      rw [List.mem_append, List.mem_singleton, not_or] at kept
      exact Or.inr ⟨Ne.symm kept.2, before, behind, rfl, kept.1⟩
  · rintro (rfl | ⟨kept, before, behind, rfl, keptBehind⟩)
    · exact ⟨calls, [], rfl, List.not_mem_nil⟩
    · refine ⟨before, behind ++ [call], by simp, ?_⟩
      rw [List.mem_append, List.mem_singleton, not_or]
      exact ⟨keptBehind, Ne.symm kept⟩

/-! ## All calls -/

theorem after_concat (calls : List Call) (call : Call) :
    after (calls ++ [call]) = (after calls).step call := by
  rw [after, List.foldl_append]
  rfl

/-- The log knows exactly the texts of the warnings that were given. The induction is on the calls
from the last one backwards, as each call changes what was known before it. -/
theorem contains_after_iff (calls : List Call) (warning : Warning) :
    (after calls).contains warning = true ↔
      ∃ earlier, Given calls earlier ∧ earlier.key = warning.key := by
  induction calls using List.reverseRecOn with
  | nil =>
    refine iff_of_false not_contains_empty ?_
    rintro ⟨_, ⟨before, behind, split, _⟩, _⟩
    exact absurd split.symm (List.append_ne_nil_of_right_ne_nil _ (List.cons_ne_nil _ _))
  | append_singleton calls call ih =>
    rw [after_concat]
    simp only [given_concat_iff]
    cases call with
    | clear => exact iff_of_false not_contains_empty (by simp)
    | warn other =>
      refine (contains_warn (after calls)).trans ?_
      rw [ih]
      simp [or_and_right, exists_or]

/-- Whether the log knows a warning settles what it prints. -/
theorem Answers.of_contains_iff {known : Prop}
    (contains : (after calls).contains warning = true ↔ known) : Answers calls warning known := by
  have silent := warning.line_ne_empty
  by_cases holds : known
  · have printed : ((after calls).warn warning).2 = "" := by rw [warn, if_pos (contains.mpr holds)]
    exact ⟨contains, by simp [printed, holds, silent.symm], by simp [printed, holds]⟩
  · have printed : ((after calls).warn warning).2 = warning.line := by
      rw [warn, if_neg (contains.not.mpr holds)]
    exact ⟨contains, by simp [printed, holds], by simp [printed, holds, silent]⟩

/-- Behind any calls a warning counts as known, and is not printed again, if it or another one with
which it can be confused was given since the log was cleared last. So the log keeps warnings by
component and message, except where such another one was given and the warning itself was not. -/
theorem answers_after (calls : List Call) (warning : Warning) :
    Answers calls warning
        (Given calls warning ∨ ∃ earlier, Given calls earlier ∧ earlier.Confused warning) ∧
      (Answers calls warning (Given calls warning) ↔
        ∀ earlier, Given calls earlier → earlier.Confused warning → Given calls warning) := by
  have contains : (after calls).contains warning = true ↔
      Given calls warning ∨ ∃ earlier, Given calls earlier ∧ earlier.Confused warning := by
    rw [contains_after_iff]
    simp only [Warning.key_eq_iff, and_or_left, exists_or, exists_eq_right]
  refine ⟨.of_contains_iff contains, ?_⟩
  constructor
  · intro answers earlier given confused
    exact answers.contains_iff.mp (contains.mpr (Or.inr ⟨earlier, given, confused⟩))
  · intro apart
    refine .of_contains_iff (contains.trans ?_)
    constructor
    · rintro (given | ⟨earlier, given, confused⟩)
      · exact given
      · exact apart earlier given confused
    · exact Or.inl

/-- Behind the first warning the second has not been given, but counts as known and is not printed:
what stands in the component of the one behind a closing bracket stands in the message of the
other. -/
theorem confused_bracket :
    ¬ Given [.warn ⟨"a] b", "c"⟩] ⟨"a", "b] c"⟩ ∧
      (after [.warn ⟨"a] b", "c"⟩]).contains ⟨"a", "b] c"⟩ = true ∧
      ((after [.warn ⟨"a] b", "c"⟩]).warn ⟨"a", "b] c"⟩).2 = "" := by
  refine ⟨?_, by decide, by decide⟩
  rintro ⟨before, behind, split, _⟩
  cases before <;> simp at split

end WarningLog

end CssSelect
