import CssSelect.Proofs.Selector.Derivation
import Mathlib.Control.Monad.Basic

/-!
Where reading fails. A reader stops at the first character that it cannot take, and what stands
before it is the beginning of a piece of the grammar: more text can be put behind it that makes
it whole. So the place of a syntax error is never too far to the right, and a longer text with
the same beginning may have no error at all.

Every reader has one lemma, and in each a piece that was broken off is put into the piece around
it. What was read completely before it is a piece already (`of_take…`).
-/
namespace CssSelect

/-! ## The size of a text -/

namespace Text

theorem utf8Size_append (first second : List Char) :
    utf8Size (first ++ second) = utf8Size first + utf8Size second := by
  induction first with
  | nil => simp [utf8Size]
  | cons c first ih =>
    simp only [List.cons_append, utf8Size, ih]
    omega

theorem utf8Size_eq_utf8ByteSize (text : List Char) :
    utf8Size text = (String.ofList text).utf8ByteSize := by
  induction text with
  | nil => rfl
  | cons c text ih =>
    have split : String.ofList (c :: text) = String.singleton c ++ String.ofList text := by
      rw [String.singleton_eq_ofList, ← String.ofList_append]
      rfl
    rw [utf8Size, ih, split, String.utf8ByteSize_append, String.utf8ByteSize_singleton]

end Text

/-! ## Pieces that are broken off -/

namespace Grammar

/-- A text that stands for something. -/
def Spells {α : Type} (piece : List Char → α → Prop) (text : List Char) : Prop :=
  ∃ value, piece text value

/-- What was read before the failure can be completed to such a piece. -/
def FailsInside (piece : List Char → Prop) (text : List Char) (failure : Failure) : Prop :=
  ∃ taken completion, text = taken ++ failure.rest ∧ piece (taken ++ completion)

/-- A piece that is broken off, in the piece around it. -/
theorem FailsInside.within {inner outer : List Char → Prop} {text : List Char} {failure : Failure}
    (front behind : List Char) (wrap : ∀ body, inner body → outer (front ++ body ++ behind))
    (fails : FailsInside inner text failure) : FailsInside outer (front ++ text) failure := by
  obtain ⟨taken, completion, rfl, reads⟩ := fails
  refine ⟨front ++ taken, completion ++ behind, by simp, ?_⟩
  simpa using wrap _ reads

/-- A piece that is broken off, behind another that is not. -/
theorem FailsInside.after {inner outer : List Char → Prop} {text : List Char} {failure : Failure}
    (front : List Char) (wrap : ∀ body, inner body → outer (front ++ body))
    (fails : FailsInside inner text failure) : FailsInside outer (front ++ text) failure := by
  refine fails.within front [] fun body reads => ?_
  rw [List.append_nil]
  exact wrap body reads

theorem FailsInside.mono {inner outer : List Char → Prop} {text : List Char} {failure : Failure}
    (wrap : ∀ body, inner body → outer body) (fails : FailsInside inner text failure) :
    FailsInside outer text failure :=
  fails.after [] wrap

theorem blanks_nil : Blanks [] :=
  fun _ member => absurd member List.not_mem_nil

/-- The shortest name. -/
theorem ident_letter : Ident ['a'] ['a'] :=
  ⟨.plain (by decide) .nil, by decide⟩

/-- The shortest compound. -/
theorem compoundText_letter : Spells CompoundText ['a'] :=
  ⟨_, .mk (.tag ident_letter) .nil (by simp)⟩

end Grammar

open Grammar

@[simp]
theorem Failure.rest_unexpected (text : List Char) : (Failure.unexpected text).rest = text := by
  cases text <;> rfl

theorem Name.prepend_eq_error {c : Char} {step : Step (List Char)} {failure : Failure}
    (h : Name.prepend c step = .error failure) : step = .error failure := by
  cases step with
  | error other => exact h
  | ok found => cases h

theorem Reading.outcome_after_eq_error {α β : Type} {reading : Reading α}
    {earlier : List Announcement} {complete : α → β} {failure : Failure}
    (h : (reading.after earlier complete).outcome = .error failure) :
    reading.outcome = .error failure := by
  obtain ⟨own, outcome⟩ := reading
  cases outcome with
  | error other =>
    cases h
    rfl
  | ok found => cases h

/-! ## Names and strings -/

namespace Name

/-- A name fails only at the end of the text, behind a backslash. -/
theorem completion_of_take {text : List Char} {failure : Failure}
    (h : take text = .error failure) :
    failure.rest = [] ∧ ∃ completion name, NameText (text ++ completion) name ∧ name ≠ [] := by
  fun_induction take text with
  | case1 | case5 => cases h
  | case2 c escape =>
    cases h
    obtain rfl : c = '\\' := by simpa using escape
    exact ⟨rfl, ['a'], _, .escaped 'a' .nil, List.cons_ne_nil _ _⟩
  | case3 c escape d rest ih =>
    obtain rfl : c = '\\' := by simpa using escape
    obtain ⟨ends, completion, name, reads, _⟩ := ih (prepend_eq_error h)
    exact ⟨ends, completion, _, .escaped d reads, List.cons_ne_nil _ _⟩
  | case4 c rest _ part ih =>
    obtain ⟨ends, completion, name, reads, _⟩ := ih (prepend_eq_error h)
    exact ⟨ends, completion, _, .plain part reads, List.cons_ne_nil _ _⟩

theorem failsInside_of_take {text : List Char} {failure : Failure}
    (h : take text = .error failure) :
    FailsInside (fun text => ∃ name, NameText text name ∧ name ≠ []) text failure := by
  obtain ⟨ends, completion, reads⟩ := completion_of_take h
  exact ⟨text, completion, by rw [ends, List.append_nil], reads⟩

/-- More text does not keep a name from starting. -/
theorem startsHere_append_of_starts {text : List Char} (starts : startsHere text = true)
    (rest : List Char) : startsHere (text ++ rest) = true := by
  match text with
  | [] => cases starts
  | [c] =>
    by_cases hyphen : c = '-'
    · simp [startsHere, hyphen] at starts
    · simpa [startsHere, hyphen] using starts
  | c :: d :: _ => exact starts

theorem failsInside_of_take_of_starts {text : List Char} {failure : Failure}
    (starts : startsHere text = true) (h : take text = .error failure) :
    FailsInside (Spells Ident) text failure := by
  obtain ⟨ends, completion, name, reads, _⟩ := completion_of_take h
  refine ⟨text, completion, by rw [ends, List.append_nil], name, reads, ?_⟩
  exact startsHere_append_of_starts starts completion

theorem failsInside_of_takeAt {place : NamePlace} {text : List Char} {failure : Failure}
    (h : takeAt place text = .error failure) : FailsInside (Spells Ident) text failure := by
  unfold takeAt at h
  split at h
  · next starts => exact failsInside_of_take_of_starts starts h
  · cases h
    exact ⟨[], ['a'], rfl, _, ident_letter⟩

end Name

/-- A string fails at the end of the text, which may come right behind a backslash. -/
theorem Quoted.failsInside_of_take {mark : Char} {text : List Char} {failure : Failure}
    (h : take mark text = .error failure) : FailsInside (Spells (StringText mark)) text failure := by
  fun_induction take mark text with
  | case1 =>
    cases h
    exact ⟨[], [], rfl, _, .nil⟩
  | case2 c escape =>
    cases h
    obtain rfl : c = '\\' := by simpa using escape
    exact ⟨['\\'], ['a'], rfl, _, .escaped 'a' .nil⟩
  | case3 c escape d rest ih =>
    obtain rfl : c = '\\' := by simpa using escape
    refine (ih (Name.prepend_eq_error h)).after ['\\', d] ?_
    rintro body ⟨value, reads⟩
    exact ⟨_, .escaped d reads⟩
  | case4 => cases h
  | case5 c rest notEscape notMark ih =>
    refine (ih (Name.prepend_eq_error h)).after [c] ?_
    rintro body ⟨value, reads⟩
    exact ⟨_, .plain (by simpa using notMark) (by simpa using notEscape) reads⟩

namespace Parser

/-! ## Attribute selectors -/

/-- An attribute test up to the closing bracket. -/
inductive TestText : List Char → AttributeTest → Prop
  | mk {between tested value : List Char} {flag : Option CaseFlag} (operator : AttributeOperator)
      (blanksBetween : Blanks between) (reads : ValueText tested value flag) :
      TestText (operator.symbol.toList ++ between ++ tested) ⟨operator, String.ofList value, flag⟩

theorem failsInside_of_takeValue {text : List Char} {failure : Failure}
    (h : takeValue text = .error failure) :
    FailsInside (fun text => ∃ value, ValueText text value none) text failure := by
  have quoted : ∀ (mark : Char) (rest : List Char), IsMark mark →
      Quoted.take mark rest = .error failure →
      FailsInside (fun text => ∃ value, ValueText text value none) (mark :: rest) failure := by
    intro mark rest isMark fails
    refine (Quoted.failsInside_of_take fails).within [mark] [mark] ?_
    rintro body ⟨value, reads⟩
    exact ⟨value, .quoted isMark reads (.bare blanks_nil)⟩
  have named : ∀ body, (∃ name, NameText body name ∧ name ≠ []) →
      ∃ value, ValueText body value none := by
    rintro body ⟨name, reads, nonempty⟩
    refine ⟨name, ?_⟩
    rw [← List.append_nil body]
    exact .name reads nonempty (.bare blanks_nil) (fun flagged => absurd rfl flagged)
  unfold takeValue at h
  split at h
  · exact quoted _ _ (.inl rfl) h
  · exact quoted _ _ (.inr rfl) h
  · split at h
    · next step =>
      cases h
      exact (Name.failsInside_of_take step).mono named
    · next step =>
      cases h
      obtain ⟨taken, rfl, reads, _⟩ := Name.nameText_of_take step
      cases reads
      exact ⟨[], ['a'], rfl, named _ ⟨_, ident_letter.reads, by simp⟩⟩
    · cases h

theorem failsInside_of_takeOperator {text : List Char} {failure : Failure}
    (h : takeOperator text = .error failure) : FailsInside (Spells TestText) text failure := by
  unfold takeOperator at h
  split at h
  all_goals cases h
  have reads : ValueText ['a'] ['a'] none :=
    .name ident_letter.reads (List.cons_ne_nil _ _) (.bare blanks_nil) (fun flagged => absurd rfl flagged)
  exact ⟨[], ['=', 'a'], by simp, _, .mk .equals blanks_nil reads⟩

theorem failsInside_of_takeTest {text : List Char} {failure : Failure}
    (h : takeTest text = .error failure) : FailsInside (Spells TestText) text failure := by
  unfold takeTest at h
  split at h
  · next step =>
    cases h
    exact failsInside_of_takeOperator step
  · next operator afterOperator first =>
    obtain rfl := eq_of_takeOperator first
    obtain ⟨between, split, blanks, _⟩ := Text.skipBlanks_split afterOperator
    split at h
    · next step =>
      cases h
      rw [split, ← List.append_assoc]
      refine (failsInside_of_takeValue step).after _ ?_
      rintro body ⟨value, reads⟩
      exact ⟨_, .mk operator blanks reads⟩
    · next value afterValue second =>
      split at h
      · cases h
      · next flag rest _ third =>
        cases h
        obtain ⟨ending, rfl, ended⟩ := ending_of_takeFlag third
        -- The closing bracket is missing, and all before it is a test.
        obtain ⟨tested, shown, reads⟩ := valueText_of_takeValue second ended
        refine ⟨operator.symbol.toList ++ between ++ tested, [], by rw [split, shown]; simp, ?_⟩
        rw [List.append_nil]
        exact ⟨_, .mk operator blanks reads⟩

theorem failsInside_of_takeAttribute {text : List Char} {failure : Failure}
    (h : takeAttribute text = .error failure) :
    FailsInside (Spells AttributeText) text failure := by
  obtain ⟨before, whole, blanksBefore, _⟩ := Text.skipBlanks_split text
  unfold takeAttribute at h
  split at h
  · next step =>
    cases h
    rw [whole]
    refine (Name.failsInside_of_takeAt step).after before ?_
    rintro body ⟨name, ident⟩
    rw [← List.append_nil (before ++ body)]
    exact ⟨_, .present blanksBefore ident blanks_nil⟩
  · next name afterName first =>
    obtain ⟨taken, shown, ident, _⟩ := Name.ident_of_takeAt first
    obtain ⟨behind, split, blanksBehind, _⟩ := Text.skipBlanks_split afterName
    split at h
    · cases h
    · split at h
      · next step =>
        cases h
        rw [whole, shown, split, ← List.append_assoc, ← List.append_assoc]
        refine (failsInside_of_takeTest step).after _ ?_
        rintro body ⟨test, operator, blanksBetween, reads⟩
        rw [← List.append_assoc, ← List.append_assoc]
        exact ⟨_, .test blanksBefore ident blanksBehind operator blanksBetween reads⟩
      · cases h

/-! ## Pseudo selectors -/

theorem closes_replicate (depth : Nat) : Closes depth (List.replicate depth ')') := by
  induction depth with
  | zero => exact Balanced.nil
  | succ depth ih => exact ih.closed

/-- Whatever state the reader is in, marks and parentheses bring the argument to its end. -/
theorem exists_closesFrom (depth : Nat) (quote : Option Char) :
    ∃ completion, ClosesFrom depth quote completion := by
  cases quote with
  | none => exact ⟨_, closes_replicate depth⟩
  | some mark => exact ⟨mark :: List.replicate depth ')', [], [], _, rfl, .nil, closes_replicate depth⟩

/-- An argument fails at the end of the text, where its strings and groups can still be closed.
The cases follow the reader, as for an argument that is taken. -/
theorem failsInside_of_takeArgument {depth : Nat} {quote : Option Char}
    (isMark : ∀ mark ∈ quote, IsMark mark) {text : List Char} {failure : Failure}
    (h : takeArgument depth quote text = .error failure) :
    FailsInside (ClosesFrom depth quote) text failure := by
  have ended : ∀ depth quote cause, FailsInside (ClosesFrom depth quote) [] ⟨cause, []⟩ := by
    intro depth quote cause
    obtain ⟨completion, closes⟩ := exists_closesFrom depth quote
    exact ⟨[], completion, rfl, closes⟩
  have dangling : ∀ depth quote cause, FailsInside (ClosesFrom depth quote) ['\\'] ⟨cause, []⟩ := by
    intro depth quote cause
    obtain ⟨completion, closes⟩ := exists_closesFrom depth quote
    exact ⟨['\\'], 'a' :: completion, rfl, closes.escaped 'a'⟩
  fun_induction takeArgument depth quote text with
  | case1 | case2 =>
    cases h
    exact ended _ _ _
  | case3 | case4 =>
    cases h
    exact dangling _ _ _
  | case5 depth quote c rest ih =>
    have step := Name.prepend_eq_error (Name.prepend_eq_error h)
    exact (ih isMark step).after ['\\', c] fun body closes => closes.escaped c
  | case6 depth c rest notLast notPair mark ih =>
    have stillMark : ∀ other ∈ (if c == mark then none else some mark), IsMark other := by
      split
      · simp
      · exact isMark
    refine (ih stillMark (Name.prepend_eq_error h)).after [c] fun body closes => ?_
    exact closes.inString (ne_backslash notLast notPair)
  | case7 depth c rest notLast notPair mark ih =>
    have cMark : IsMark c := by simpa [IsMark] using mark
    refine (ih (by simpa using cMark) (Name.prepend_eq_error h)).after [c] fun body closes => ?_
    exact closes.quoted cMark
  | case8 depth c rest notLast notPair notMark isOpen ih =>
    obtain rfl : c = '(' := by simpa using isOpen
    refine (ih (by simp) (Name.prepend_eq_error h)).after ['('] fun body closes => ?_
    exact Closes.opened closes
  | case9 => cases h
  | case10 c rest notLast notPair notMark notOpen isClose depth ih =>
    obtain rfl : c = ')' := by simpa using isClose
    refine (ih (by simp) (Name.prepend_eq_error h)).after [')'] fun body closes => ?_
    exact Closes.closed closes
  | case11 depth c rest notLast notPair notMark notOpen notClose ih =>
    have isInert : IsInert c :=
      ⟨by simpa using notOpen, by simpa using notClose, ne_backslash notLast notPair,
        by simpa [IsMark] using notMark⟩
    refine (ih (by simp) (Name.prepend_eq_error h)).after [c] fun body closes => ?_
    exact Closes.inert isInert closes

theorem failsInside_of_takeArgument? {text : List Char} {failure : Failure}
    (h : takeArgument? text = .error failure) :
    FailsInside (fun text => ∃ argument, Balanced argument ∧ text = '(' :: argument ++ [')']) text
      failure := by
  unfold takeArgument? at h
  split at h
  · split at h
    · next step =>
      cases h
      exact (failsInside_of_takeArgument (by simp) step).within ['('] [')']
        fun body balanced => ⟨body, balanced, rfl⟩
    · cases h
  · cases h

theorem failsInside_of_takePseudo {place : NamePlace} {text : List Char} {failure : Failure}
    (h : takePseudo place text = .error failure) : FailsInside (Spells PseudoText) text failure := by
  unfold takePseudo at h
  split at h
  · next step =>
    cases h
    refine (Name.failsInside_of_takeAt step).mono ?_
    rintro body ⟨name, ident⟩
    exact ⟨_, .plain ident⟩
  · next name afterName first =>
    obtain ⟨taken, rfl, ident, _⟩ := Name.ident_of_takeAt first
    split at h
    · next step =>
      cases h
      refine (failsInside_of_takeArgument? step).after taken ?_
      rintro body ⟨argument, balanced, rfl⟩
      rw [← List.append_assoc]
      exact ⟨_, .functional ident balanced⟩
    · cases h

/-! ## Conditions and compounds -/

theorem failsInside_of_takeSubclass {text : List Char} {failure : Failure}
    (h : takeSubclass text = some (.error failure)) :
    FailsInside (Spells SubclassText) text failure := by
  unfold takeSubclass at h
  split at h
  any_goals simp only [Option.some.injEq] at h
  · split at h
    · next step =>
      cases h
      refine (Name.failsInside_of_take step).after ['#'] ?_
      rintro body ⟨name, reads, nonempty⟩
      exact ⟨_, .id reads nonempty⟩
    · next step =>
      cases h
      obtain ⟨taken, rfl, reads, _⟩ := Name.nameText_of_take step
      cases reads
      exact ⟨['#'], ['a'], rfl, _, .id ident_letter.reads (List.cons_ne_nil _ _)⟩
    · cases h
  · split at h
    · next step =>
      cases h
      refine (Name.failsInside_of_takeAt step).after ['.'] ?_
      rintro body ⟨name, ident⟩
      exact ⟨_, .className ident⟩
    · cases h
  · split at h
    · next step =>
      cases h
      refine (failsInside_of_takeAttribute step).within ['['] [']'] ?_
      rintro body ⟨selector, reads⟩
      exact ⟨_, .bracketed reads⟩
    · cases h
  · split at h
    · next step =>
      cases h
      refine (failsInside_of_takePseudo step).after [':', ':'] ?_
      rintro body ⟨pseudo, reads⟩
      exact ⟨_, .pseudoElement reads⟩
    · cases h
  · split at h
    · next step =>
      cases h
      refine (failsInside_of_takePseudo step).after [':'] ?_
      rintro body ⟨pseudo, reads⟩
      by_cases listed : pseudo.name ∈ singleColonElements
      · exact ⟨_, .singleColonElement reads listed⟩
      · exact ⟨_, .pseudoClass reads listed⟩
    · split at h <;> cases h
  · cases h

theorem failsInside_of_takeSubclasses {text : List Char} {failure : Failure}
    (h : (takeSubclasses text).outcome = .error failure) :
    FailsInside (fun text => ∃ subclasses, SubclassesText text subclasses ∧ subclasses ≠ []) text
      failure := by
  fun_induction takeSubclasses text with
  | case1 => cases h
  | case2 text other step =>
    cases h
    refine (failsInside_of_takeSubclass step).mono ?_
    rintro body ⟨subclass, reads⟩
    rw [← List.append_nil body]
    exact ⟨_, .cons reads .nil, List.cons_ne_nil _ _⟩
  | case3 text subclass rest step _ ih =>
    obtain ⟨taken, rfl, first, _⟩ := of_takeSubclass step
    refine (ih (Reading.outcome_after_eq_error h)).after taken ?_
    rintro body ⟨subclasses, reads, _⟩
    exact ⟨_, .cons first reads, List.cons_ne_nil _ _⟩

theorem failsInside_of_takeType {text : List Char} {failure : Failure}
    (h : takeType text = .error failure) : FailsInside (Spells Ident) text failure := by
  unfold takeType at h
  split at h
  · cases h
  · split at h
    · next starts =>
      split at h
      · next step =>
        cases h
        exact Name.failsInside_of_take_of_starts starts step
      · cases h
    · cases h

theorem failsInside_of_takeCompound {text : List Char} {failure : Failure}
    (h : (takeCompound text).outcome = .error failure) :
    FailsInside (Spells CompoundText) text failure := by
  unfold takeCompound at h
  split at h
  · next step =>
    cases h
    refine (failsInside_of_takeType step).mono ?_
    rintro body ⟨name, ident⟩
    rw [← List.append_nil body]
    exact ⟨_, .mk (.tag ident) .nil (by simp)⟩
  · next type rest first =>
    obtain ⟨typeText, rfl, typed⟩ := of_takeType first
    refine (failsInside_of_takeSubclasses (Reading.outcome_after_eq_error h)).after typeText ?_
    rintro body ⟨subclasses, conditions, nonempty⟩
    exact ⟨_, .mk typed conditions fun missing => nonempty missing.2⟩

/-! ## Complex selectors and lists -/

theorem of_junction_refuse {text : List Char} {failure : Failure}
    (h : junction text = .refuse failure) :
    ∃ blanks, text = blanks ++ failure.rest ∧ Blanks blanks := by
  obtain ⟨blanks, whole, behind, _⟩ := Text.skipBlanks_split text
  unfold junction at h
  split at h
  any_goals cases h
  split at h
  · cases h
  · cases h
    exact ⟨blanks, by rw [Failure.rest_unexpected]; exact whole, behind⟩

theorem rest_missingCompound (combinator : Combinator) (rest : List Char) :
    (missingCompound combinator rest).rest = rest := by
  cases combinator with
  | descendant => exact Failure.rest_unexpected rest
  | child | nextSibling | subsequentSibling | column => rfl

theorem rest_missingSelector (text : List Char) : (missingSelector text).rest = text := by
  unfold missingSelector
  split
  · rfl
  · rfl
  · exact Failure.rest_unexpected text

theorem tailText_join {text body : List Char} {combinator : Combinator}
    (joined : CombinatorText text combinator) (reads : Spells CompoundText body) :
    Spells TailText (text ++ body) := by
  obtain ⟨compound, reads⟩ := reads
  rw [← List.append_nil (text ++ body)]
  exact ⟨_, .join joined reads (.stop blanks_nil)⟩

theorem failsInside_of_takeTail {text : List Char} {failure : Failure}
    (h : (takeTail text).outcome = .error failure) : FailsInside (Spells TailText) text failure := by
  fun_induction takeTail text with
  | case1 => cases h
  | case2 text other refused =>
    cases h
    obtain ⟨blanks, whole, behind⟩ := of_junction_refuse refused
    refine ⟨blanks, [], whole, ?_⟩
    rw [List.append_nil]
    exact ⟨_, .stop behind⟩
  | case3 text combinator rest joins announced other read =>
    cases h
    obtain ⟨joint, rfl, joined⟩ := of_junction_join joins
    refine (failsInside_of_takeCompound (congrArg Reading.outcome read)).after joint ?_
    exact fun body reads => tailText_join joined reads
  | case4 text combinator rest joins announced left read =>
    cases h
    obtain ⟨joint, rfl, joined⟩ := of_junction_join joins
    refine ⟨joint, ['a'], by rw [rest_missingCompound], ?_⟩
    exact tailText_join joined compoundText_letter
  | case5 text combinator rest joins announced compound after read _ ih =>
    obtain ⟨joint, rfl, joined⟩ := of_junction_join joins
    obtain ⟨taken, rfl, first⟩ := of_takeCompound (congrArg Reading.outcome read)
    rw [← List.append_assoc]
    refine (ih (Reading.outcome_after_eq_error h)).after _ ?_
    rintro body ⟨tail, reads⟩
    exact ⟨_, .join joined first reads⟩

theorem complexText_of_compoundText {text : List Char} (reads : Spells CompoundText text) :
    Spells ComplexText text := by
  obtain ⟨compound, reads⟩ := reads
  rw [← List.append_nil text]
  exact ⟨_, .mk reads (.stop blanks_nil)⟩

theorem failsInside_of_takeComplex {text : List Char} {failure : Failure}
    (h : (takeComplex text).outcome = .error failure) :
    FailsInside (Spells ComplexText) text failure := by
  unfold takeComplex at h
  split at h
  · next read =>
    cases h
    refine (failsInside_of_takeCompound (congrArg Reading.outcome read)).mono ?_
    exact fun body reads => complexText_of_compoundText reads
  · cases h
    exact ⟨[], ['a'], by rw [rest_missingSelector]; rfl, complexText_of_compoundText compoundText_letter⟩
  · next announced head rest read =>
    obtain ⟨taken, rfl, first⟩ := of_takeCompound (congrArg Reading.outcome read)
    refine (failsInside_of_takeTail (Reading.outcome_after_eq_error h)).after taken ?_
    rintro body ⟨tail, reads⟩
    exact ⟨_, .mk first reads⟩

theorem failsInside_of_takeMembers {text : List Char} {failure : Failure}
    (h : (takeMembers text).outcome = .error failure) :
    FailsInside (Spells MembersText) text failure := by
  fun_induction takeMembers text with
  | case1 text announced other read =>
    cases h
    obtain ⟨blanks, whole, before, _⟩ := Text.skipBlanks_split text
    rw [whole]
    refine (failsInside_of_takeComplex (congrArg Reading.outcome read)).after blanks ?_
    rintro body ⟨selector, reads⟩
    exact ⟨_, .last before reads⟩
  | case2 text announced selector rest read _ ih =>
    obtain ⟨blanks, whole, before, _⟩ := Text.skipBlanks_split text
    obtain ⟨taken, split, first, _⟩ := of_takeComplex (congrArg Reading.outcome read)
    have shown : text = blanks ++ taken ++ [','] ++ rest := by
      rw [whole, split]
      simp
    rw [shown]
    refine (ih (Reading.outcome_after_eq_error h)).after _ ?_
    rintro body ⟨others, reads⟩
    rw [List.append_assoc (blanks ++ taken)]
    exact ⟨_, .more before first reads⟩
  | case3 => cases h

end Parser

/-- An error of a whole text is a failure of the reader at its place. -/
theorem SelectorList.exists_failure_of_parse {text : String} {error : SyntaxError}
    (failed : SelectorList.parse text = .error error) :
    ∃ failure, (Parser.takeMembers text.toList).outcome = .error failure ∧
      error = .ofFailure text.toList failure := by
  unfold SelectorList.parse at failed
  split at failed
  · cases failed
  · next failure outcome =>
    cases failed
    exact ⟨failure, Reading.outcome_after_eq_error outcome, rfl⟩

theorem SelectorList.parse_of_failure {text : String} {failure : Failure}
    (stopped : (Parser.takeMembers text.toList).outcome = .error failure) :
    SelectorList.parse text = .error (.ofFailure text.toList failure) := by
  have outcome : (SelectorList.read text).outcome = .error failure := by
    rw [SelectorList.read, Reading.after, stopped]
  rw [SelectorList.parse, outcome]

/-- Everything in front of a syntax error can be completed: the error's place is the size of some
beginning of the text, and there is a text that makes this beginning a selector list. -/
theorem SelectorList.exists_completion_of_parse_error {text : String} {error : SyntaxError}
    (failed : SelectorList.parse text = .error error) :
    ∃ before behind completion list, text = before ++ behind ∧
      before.utf8ByteSize = error.position ∧
      SelectorList.parse (before ++ completion) = .ok list := by
  unfold SelectorList.parse at failed
  split at failed
  · cases failed
  · next failure outcome =>
    cases failed
    have stopped := Parser.failsInside_of_takeMembers (Reading.outcome_after_eq_error outcome)
    obtain ⟨taken, completion, split, members, reads⟩ := stopped
    refine ⟨String.ofList taken, String.ofList failure.rest, String.ofList completion, ⟨members⟩,
      ?_, ?_, ?_⟩
    · rw [← String.ofList_append, ← split, String.ofList_toList]
    · rw [SyntaxError.ofFailure, split, Text.utf8Size_append, Nat.add_sub_cancel,
        Text.utf8Size_eq_utf8ByteSize]
    · apply SelectorList.parse_of_derives
      rw [Derives, ← String.ofList_append, String.toList_ofList]
      exact reads

/-- An error behind a flag, where only the closing bracket is missing. Places count bytes. -/
theorem exists_completion_behindFlag :
    SelectorList.parse "é[x=\"]\" i%]" = .error ⟨.unexpectedCharacter '%', 10⟩ ∧
      ∃ before behind completion list, "é[x=\"]\" i%]" = before ++ behind ∧
        before.utf8ByteSize = 10 ∧ SelectorList.parse (before ++ completion) = .ok list := by
  have failed : SelectorList.parse "é[x=\"]\" i%]" = .error ⟨.unexpectedCharacter '%', 10⟩ := by
    decide +kernel
  exact ⟨failed, SelectorList.exists_completion_of_parse_error failed⟩

end CssSelect
