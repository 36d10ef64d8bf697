import CssSelect.Proofs.Selector.Completion

/-!
How far reading looks. A reader that stops somewhere has seen two characters behind that place and
no more: in every text that is the same up to there it stops at the same place and in the same way,
with a value or with a problem. So what stands further on cannot undo a syntax error, move it or
change its words.

Readers are put together from others, one behind the other (`andThen`), and what is shown here of
the parts holds of the whole: what the second reader looks at is ahead of the first.
-/
namespace CssSelect

/-- The same two characters come next; a text that has fewer is the same as the other. -/
def SameAhead (text other : List Char) : Prop :=
  text.take 2 = other.take 2

namespace SameAhead

variable {text other : List Char}

theorem symm (same : SameAhead text other) : SameAhead other text :=
  Eq.symm same

theorem append (same : SameAhead text other) (front : List Char) :
    SameAhead (front ++ text) (front ++ other) := by
  have shorter : text.take (2 - front.length) = other.take (2 - front.length) := by
    have cut := congrArg (List.take (2 - front.length)) same
    rwa [List.take_take, List.take_take, Nat.min_eq_left (Nat.sub_le _ _)] at cut
  rw [SameAhead, List.take_append, List.take_append, shorter]

/-- Either nothing differs, or two characters come before all that does. -/
theorem eq_or_exists (same : SameAhead text other) :
    text = other ∨ ∃ c d left right, text = c :: d :: left ∧ other = c :: d :: right := by
  match text, other with
  | [], [] => exact .inl rfl
  | [_], [] | [], [_] => simp [SameAhead] at same
  | [_], [_] => exact .inl same
  | _ :: _ :: _, [] | _ :: _ :: _, [_] | [], _ :: _ :: _ | [_], _ :: _ :: _ =>
    simp [SameAhead] at same
  | c :: d :: left, _ :: _ :: right =>
    obtain ⟨rfl, rfl⟩ : _ ∧ _ := by simpa [SameAhead] using same
    exact .inr ⟨c, d, left, right, rfl, rfl⟩

theorem eq_nil (same : SameAhead text []) : text = [] := by
  simpa [SameAhead] using same

theorem exists_cons {c : Char} {rest : List Char} (same : SameAhead text (c :: rest)) :
    ∃ left, text = c :: left := by
  rcases same.eq_or_exists with rfl | ⟨_, _, _, _, rfl, shown⟩
  · exact ⟨rest, rfl⟩
  · cases shown
    exact ⟨_, rfl⟩

theorem head?_eq (same : SameAhead text other) : text.head? = other.head? := by
  rcases same.eq_or_exists with rfl | ⟨_, _, _, _, rfl, rfl⟩ <;> rfl

end SameAhead

namespace Parser

open Grammar

/-! ## Readers and how they stop -/

section Readers

variable {α β : Type}

/-- How a reader stops in front of a text. -/
def stopped (verdict : Except SyntaxCause α) (rest : List Char) : Step α :=
  match verdict with
  | .ok value => .ok (value, rest)
  | .error cause => .error ⟨cause, rest⟩

/-- The reader stops somewhere in the text, and in the same way in every text that is the same up to
two characters behind this place. -/
def Settled (reader : List Char → Step α) (text : List Char) : Prop :=
  ∃ taken rest verdict, text = taken ++ rest ∧
    ∀ other, SameAhead other rest → reader (taken ++ other) = stopped verdict other

/-- What a step returns, completed. -/
def complete (finish : α → β) : Step α → Step β
  | .ok (value, rest) => .ok (finish value, rest)
  | .error failure => .error failure

theorem complete_id (step : Step α) : complete id step = step := by
  cases step <;> rfl

/-- One reader, and behind it another that depends on what the first has read. -/
def andThen (first : List Char → Step α) (next : α → List Char → Step β) (text : List Char) : Step β :=
  match first text with
  | .ok (value, rest) => next value rest
  | .error failure => .error failure

/-- Reads nothing. -/
def done (value : α) (text : List Char) : Step α :=
  .ok (value, text)

/-- Fails without reading anything. -/
def fail (problem : List Char → Failure) (text : List Char) : Step α :=
  .error (problem text)

/-- Reads blanks. -/
def skip (text : List Char) : Step Unit :=
  .ok ((), Text.skipBlanks text)

namespace Settled

variable {reader reader' : List Char → Step α} {text : List Char}

theorem done (value : α) (text : List Char) : Settled (done value) text :=
  ⟨[], text, .ok value, rfl, fun _ _ => rfl⟩

/-- At the end of a text nothing else can follow. -/
theorem atEnd (verdict : Except SyntaxCause α) (stops : reader text = stopped verdict []) :
    Settled reader text := by
  refine ⟨text, [], verdict, (List.append_nil text).symm, fun other same => ?_⟩
  rw [same.eq_nil, List.append_nil, stops]

/-- A problem may be named for the next two characters. -/
theorem fail (problem : List Char → Failure)
    (here : ∀ other, SameAhead other text → problem other = ⟨(problem text).cause, other⟩) :
    Settled (fail problem : List Char → Step α) text :=
  ⟨[], text, .error (problem text).cause, rfl, fun other same => congrArg _ (here other same)⟩

/-- Some of the text may be read in front, after a look at what comes behind it, and a value may be
completed. -/
theorem behind {inner : List Char → Step β} {rest : List Char} (front : List Char) (finish : β → α)
    (reads : ∀ other, SameAhead other rest →
      reader (front ++ other) = complete finish (inner other))
    (settled : Settled inner rest) : Settled reader (front ++ rest) := by
  obtain ⟨taken, rest, verdict, rfl, stops⟩ := settled
  have goesOn : ∀ other, SameAhead other rest →
      reader (front ++ taken ++ other) = complete finish (stopped verdict other) := by
    intro other same
    rw [List.append_assoc, reads _ (same.append taken), stops other same]
  cases verdict with
  | ok value => exact ⟨front ++ taken, rest, .ok (finish value), by simp, goesOn⟩
  | error cause => exact ⟨front ++ taken, rest, .error cause, by simp, goesOn⟩

theorem completed {inner : List Char → Step β} (finish : β → α) (settled : Settled inner text) :
    Settled (fun text => complete finish (inner text)) text :=
  behind [] finish (fun _ _ => rfl) settled

/-- Which reader reads the text may be told from its next two characters. -/
theorem of_sameAhead (agree : ∀ other, SameAhead other text → reader other = reader' other)
    (settled : Settled reader' text) : Settled reader text := by
  obtain ⟨taken, rest, verdict, rfl, stops⟩ := settled
  refine ⟨taken, rest, verdict, rfl, fun other same => ?_⟩
  rw [agree _ (same.append taken), stops other same]

theorem congr (agree : ∀ other, reader other = reader' other) (settled : Settled reader' text) :
    Settled reader text :=
  of_sameAhead (fun other _ => agree other) settled

/-- A mark at the beginning may decide which reader reads the text. -/
theorem of_head {otherwise : List Char → Step α} (isMark : Char → Prop)
    (marked : ∀ c rest, text = c :: rest → isMark c → Settled reader text)
    (unmarked : ∀ other, (∀ c, other.head? = some c → ¬ isMark c) → reader other = otherwise other)
    (settled : Settled otherwise text) : Settled reader text := by
  by_cases first : ∃ c, text.head? = some c ∧ isMark c
  · obtain ⟨c, first, isMark⟩ := first
    obtain ⟨rest, shown⟩ := List.head?_eq_some_iff.mp first
    exact marked c rest shown isMark
  · refine of_sameAhead (fun other same => unmarked other fun c head isMark => ?_) settled
    exact first ⟨c, same.head?_eq ▸ head, isMark⟩

/-- The second reader has to be settled only where the first one stops. -/
theorem andThen {first : List Char → Step α} {next : α → List Char → Step β}
    (settled : Settled first text)
    (settledNext : ∀ value rest, first text = .ok (value, rest) → Settled (next value) rest) :
    Settled (andThen first next) text := by
  obtain ⟨taken, rest, verdict, rfl, stops⟩ := settled
  have here := stops rest rfl
  cases verdict with
  | error cause =>
    refine ⟨taken, rest, .error cause, rfl, fun other same => ?_⟩
    rw [Parser.andThen, stops other same]
    rfl
  | ok value =>
    obtain ⟨more, left, verdict, rfl, stopsNext⟩ := settledNext value rest here
    refine ⟨taken ++ more, left, verdict, by simp, fun other same => ?_⟩
    rw [List.append_assoc, Parser.andThen, stops _ (same.append more)]
    exact stopsNext other same

end Settled

end Readers

/-- The next character, or the end of the text, is what is unwelcome. -/
theorem unexpected_of_sameAhead {text other : List Char} (same : SameAhead other text) :
    Failure.unexpected other = ⟨(Failure.unexpected text).cause, other⟩ := by
  rcases same.eq_or_exists with rfl | ⟨_, _, _, _, rfl, rfl⟩
  · cases other <;> rfl
  · rfl

theorem settled_unexpected {α : Type} (text : List Char) :
    Settled (fail Failure.unexpected : List Char → Step α) text :=
  .fail _ fun _ same => unexpected_of_sameAhead same

theorem settled_skip (text : List Char) : Settled skip text := by
  obtain ⟨blanks, whole, run, solid⟩ := Text.skipBlanks_split text
  refine ⟨blanks, Text.skipBlanks text, .ok (), whole, fun other same => ?_⟩
  rw [skip, Text.skipBlanks_append run (by rw [same.head?_eq]; exact solid)]
  rfl

/-! ## Names and strings -/

/-- One character is read in front of what another reader reads. -/
theorem Settled.prepended {reader inner : List Char → Step (List Char)} {c : Char} {rest : List Char}
    (reads : ∀ other, reader (c :: other) = Name.prepend c (inner other))
    (settled : Settled inner rest) : Settled reader (c :: rest) := by
  refine .behind [c] (c :: ·) (fun other _ => ?_) settled
  rw [List.singleton_append, reads]
  cases inner other <;> rfl

theorem settled_name (text : List Char) : Settled Name.take text := by
  fun_induction Name.take text with
  | case1 => exact .atEnd (.ok []) rfl
  | case2 c escape =>
    obtain rfl : c = '\\' := by simpa using escape
    exact .atEnd (.error .unterminatedEscape) rfl
  | case3 c escape d rest ih =>
    obtain rfl : c = '\\' := by simpa using escape
    exact .behind ['\\'] id (fun other _ => (complete_id _).symm) (.prepended (fun _ => rfl) ih)
  | case4 c rest notEscape part ih => exact .prepended (Name.take_of_isPart part) ih
  | case5 c rest notEscape notPart =>
    refine .of_sameAhead (fun other same => ?_) (.done [] (c :: rest))
    obtain ⟨left, rfl⟩ := same.exists_cons
    apply Name.take_of_endsBefore
    rw [Name.endsBefore_cons_iff]
    exact ⟨by simpa using notPart, by simpa using notEscape⟩

theorem startsHere_of_sameAhead {text other : List Char} (same : SameAhead text other) :
    Name.startsHere text = Name.startsHere other := by
  rcases same.eq_or_exists with rfl | ⟨_, _, _, _, rfl, rfl⟩ <;> rfl

theorem settled_takeAt (place : NamePlace) (text : List Char) :
    Settled (Name.takeAt place) text := by
  by_cases starts : Name.startsHere text = true
  · refine .of_sameAhead (fun other same => ?_) (settled_name text)
    rw [Name.takeAt, startsHere_of_sameAhead same, if_pos starts]
  · refine .of_sameAhead (fun other same => ?_)
      (.fail (fun text => ⟨.nameExpected place, text⟩) fun _ _ => rfl)
    rw [Name.takeAt, startsHere_of_sameAhead same, if_neg starts]
    rfl

theorem settled_quoted (mark : Char) (text : List Char) : Settled (Quoted.take mark) text := by
  fun_induction Quoted.take mark text with
  | case1 => exact .atEnd (.error .unterminatedString) rfl
  | case2 c escape =>
    obtain rfl : c = '\\' := by simpa using escape
    exact .atEnd (.error .unterminatedString) rfl
  | case3 c escape d rest ih =>
    obtain rfl : c = '\\' := by simpa using escape
    exact .behind ['\\'] id (fun other _ => (complete_id _).symm) (.prepended (fun _ => rfl) ih)
  | case4 c rest notEscape closes =>
    refine .behind [c] id (fun other _ => ?_) (.done [] rest)
    rw [List.singleton_append, Quoted.take.eq_def]
    simp only [notEscape, closes]
    rfl
  | case5 c rest notEscape notMark ih =>
    refine .prepended (fun other => ?_) ih
    rw [Quoted.take.eq_def]
    simp only [notEscape, notMark]
    rfl

/-! ## Attribute selectors -/

theorem takeOperator_of_sameAhead {text other : List Char} {failure : Failure}
    (missing : takeOperator text = .error failure) (same : SameAhead other text) :
    takeOperator other = .error (Failure.unexpected other) := by
  unfold takeOperator
  split
  all_goals first
    | rfl
    | next rest =>
      exfalso
      rcases same.eq_or_exists with rfl | ⟨_, _, left, right, shown, rfl⟩
      · cases missing
      · cases shown
        cases missing

theorem settled_takeOperator (text : List Char) : Settled takeOperator text := by
  cases step : takeOperator text with
  | ok found =>
    obtain ⟨operator, rest⟩ := found
    obtain rfl := eq_of_takeOperator step
    exact ⟨_, rest, .ok operator, rfl, fun other _ => takeOperator_append operator other⟩
  | error failure =>
    exact .of_sameAhead (fun other same => takeOperator_of_sameAhead step same)
      (settled_unexpected text)

/-- A name that has been read must not be empty. -/
def nonempty (cause : SyntaxCause) (name : List Char) : List Char → Step (List Char) :=
  match name with
  | [] => fail (⟨cause, ·⟩)
  | name => done name

theorem settled_nonempty (cause : SyntaxCause) (name text : List Char) :
    Settled (nonempty cause name) text := by
  cases name with
  | nil => exact .fail (⟨cause, ·⟩) fun _ _ => rfl
  | cons c name => exact .done (c :: name) text

/-- Without a mark a value is a name. -/
theorem takeValue_of_not_isMark {text : List Char} (noMark : ∀ c, text.head? = some c → ¬ IsMark c) :
    takeValue text = andThen Name.take (nonempty .valueExpected) text := by
  fun_cases takeValue text with
  | case1 => exact absurd (.inl rfl) (noMark _ rfl)
  | case2 => exact absurd (.inr rfl) (noMark _ rfl)
  | case3 _ _ _ failure step => simp only [andThen, step]
  | case4 _ _ _ rest step => simp only [andThen, step]; rfl
  | case5 _ _ _ value rest filled step =>
    simp only [andThen, step]
    cases value with
    | nil => exact absurd rfl filled
    | cons c value => rfl

theorem settled_takeValue (text : List Char) : Settled takeValue text := by
  refine .of_head IsMark ?_ (fun other => takeValue_of_not_isMark)
    (.andThen (settled_name text) fun value rest _ => settled_nonempty _ value rest)
  rintro mark rest rfl (rfl | rfl)
  · exact .behind ['"'] id (fun _ _ => (complete_id _).symm) (settled_quoted '"' rest)
  · exact .behind ['\''] id (fun _ _ => (complete_id _).symm) (settled_quoted '\'' rest)

/-- The flag, as a reader. -/
def flag (text : List Char) : Step (Option CaseFlag) :=
  .ok (takeFlag text)

theorem takeFlag_letter {c : Char} {found : CaseFlag} (reads : FlagText [c] found)
    (rest : List Char) : takeFlag (c :: rest) = (some found, Text.skipBlanks rest) := by
  cases reads with
  | ignoreCase letter => rcases letter with rfl | rfl <;> rfl
  | exact letter => rcases letter with rfl | rfl <;> rfl

theorem takeFlag_of_absent {text : List Char}
    (absent : ∀ c, text.head? = some c → ¬ ∃ found, FlagText [c] found) :
    takeFlag text = (none, text) := by
  fun_cases takeFlag text with
  | case1 => exact absurd ⟨_, .ignoreCase (.inl rfl)⟩ (absent _ rfl)
  | case2 => exact absurd ⟨_, .ignoreCase (.inr rfl)⟩ (absent _ rfl)
  | case3 => exact absurd ⟨_, .exact (.inl rfl)⟩ (absent _ rfl)
  | case4 => exact absurd ⟨_, .exact (.inr rfl)⟩ (absent _ rfl)
  | case5 => rfl

theorem settled_flag (text : List Char) : Settled flag text := by
  refine .of_head (fun c => ∃ found, FlagText [c] found) ?_
    (fun other absent => congrArg Except.ok (takeFlag_of_absent absent)) (.done none text)
  rintro c rest rfl ⟨found, reads⟩
  refine .behind [c] (fun _ => some found) (fun other _ => ?_) (settled_skip rest)
  exact congrArg Except.ok (takeFlag_letter reads other)

/-- The closing bracket behind a test. -/
def close : List Char → Step Unit
  | ']' :: rest => .ok ((), rest)
  | text => .error (.unexpected text)

theorem settled_close (text : List Char) : Settled close text := by
  refine .of_head (· = ']') ?_ (fun other noBracket => ?_) (settled_unexpected text)
  · rintro _ rest rfl rfl
    exact .behind [']'] id (fun _ _ => rfl) (.done () rest)
  · unfold close
    split
    · exact absurd rfl (noBracket _ rfl)
    · rfl

theorem takeTest_eq_andThen (text : List Char) : takeTest text =
    andThen takeOperator (fun operator => andThen skip fun _ => andThen takeValue fun value =>
      andThen skip fun _ => andThen flag fun flag text =>
        complete (fun _ => ⟨operator, String.ofList value, flag⟩) (close text)) text := by
  unfold takeTest andThen
  cases takeOperator text with
  | error failure => rfl
  | ok found =>
    obtain ⟨operator, rest⟩ := found
    simp only [skip]
    cases takeValue (Text.skipBlanks rest) with
    | error failure => rfl
    | ok found =>
      obtain ⟨value, rest⟩ := found
      simp only [flag]
      obtain ⟨flag, rest⟩ := takeFlag (Text.skipBlanks rest)
      fun_cases close rest with
      | case1 => rfl
      | case2 noBracket =>
        simp only
        rfl

theorem settled_takeTest (text : List Char) : Settled takeTest text :=
  .congr takeTest_eq_andThen <|
    .andThen (settled_takeOperator text) fun _ rest _ =>
      .andThen (settled_skip rest) fun _ rest _ =>
        .andThen (settled_takeValue rest) fun _ rest _ =>
          .andThen (settled_skip rest) fun _ rest _ =>
            .andThen (settled_flag rest) fun _ rest _ => .completed _ (settled_close rest)

/-- What follows the name of an attribute: the end of the brackets, or a test. -/
def testOrClose : List Char → Step (Option AttributeTest)
  | ']' :: rest => .ok (none, rest)
  | text => complete some (takeTest text)

theorem settled_testOrClose (text : List Char) : Settled testOrClose text := by
  refine .of_head (· = ']') ?_ (fun other noBracket => ?_) (.completed some (settled_takeTest text))
  · rintro _ rest rfl rfl
    exact .behind [']'] id (fun _ _ => rfl) (.done none rest)
  · unfold testOrClose
    split
    · exact absurd rfl (noBracket _ rfl)
    · rfl

theorem takeAttribute_eq_andThen (text : List Char) : takeAttribute text =
    andThen skip (fun _ => andThen (Name.takeAt .attribute) fun name => andThen skip fun _ text =>
      complete (⟨String.ofList name, ·⟩) (testOrClose text)) text := by
  unfold takeAttribute
  simp only [andThen, skip]
  cases Name.takeAt .attribute (Text.skipBlanks text) with
  | error failure => rfl
  | ok found =>
    obtain ⟨name, rest⟩ := found
    simp only
    generalize Text.skipBlanks rest = behind
    fun_cases testOrClose behind with
    | case1 => rfl
    | case2 noBracket =>
      simp only
      cases takeTest behind <;> rfl

theorem settled_takeAttribute (text : List Char) : Settled takeAttribute text :=
  .congr takeAttribute_eq_andThen <|
    .andThen (settled_skip text) fun _ rest _ =>
      .andThen (settled_takeAt .attribute rest) fun _ rest _ =>
        .andThen (settled_skip rest) fun _ rest _ => .completed _ (settled_testOrClose rest)

/-! ## Pseudo selectors -/

/-- The cases follow the reader: one character further on it is in the state it is left in. -/
theorem settled_takeArgument (depth : Nat) (quote : Option Char) (text : List Char) :
    Settled (takeArgument depth quote) text := by
  fun_induction takeArgument depth quote text with
  | case1 | case3 => exact .atEnd (.error .unterminatedString) rfl
  | case2 | case4 => exact .atEnd (.error .unbalancedParentheses) rfl
  | case5 depth quote c rest ih =>
    refine .behind ['\\', c] (fun read => '\\' :: c :: read) (fun other _ => ?_) ih
    rw [List.cons_append, List.singleton_append, takeArgument_escape]
    cases takeArgument depth quote other <;> rfl
  | case6 depth c rest notLast notPair mark ih =>
    exact .prepended (fun _ => takeArgument_quoted (ne_backslash notLast notPair)) ih
  | case7 depth c rest notLast notPair mark ih =>
    exact .prepended (fun _ => takeArgument_mark (by simpa [IsMark] using mark)) ih
  | case8 depth c rest notLast notPair notMark isOpen ih =>
    obtain rfl : c = '(' := by simpa using isOpen
    exact .prepended (fun _ => takeArgument_open) ih
  | case9 c rest notLast notPair notMark notOpen isClose =>
    obtain rfl : c = ')' := by simpa using isClose
    refine .behind [')'] id (fun _ _ => ?_) (.done [] rest)
    exact takeArgument_end
  | case10 c rest notLast notPair notMark notOpen isClose depth ih =>
    obtain rfl : c = ')' := by simpa using isClose
    exact .prepended (fun _ => takeArgument_close) ih
  | case11 depth c rest notLast notPair notMark notOpen notClose ih =>
    have isInert : IsInert c :=
      ⟨by simpa using notOpen, by simpa using notClose, ne_backslash notLast notPair,
        by simpa [IsMark] using notMark⟩
    exact .prepended (fun _ => takeArgument_inert isInert) ih

theorem settled_takeArgument? (text : List Char) : Settled takeArgument? text := by
  refine .of_head (· = '(') ?_ (fun other notOpen => ?_) (.done none text)
  · rintro _ rest rfl rfl
    refine .behind ['('] (fun argument => some (String.ofList (Text.trim argument)))
      (fun other _ => ?_) (settled_takeArgument 0 none rest)
    rw [List.singleton_append, takeArgument?]
    cases takeArgument 0 none other <;> rfl
  · unfold takeArgument?
    split
    · exact absurd rfl (notOpen _ rfl)
    · rfl

theorem takePseudo_eq_andThen (place : NamePlace) (text : List Char) : takePseudo place text =
    andThen (Name.takeAt place) (fun name text =>
      complete (⟨String.ofList (Text.lowerChars name), ·⟩) (takeArgument? text)) text := by
  unfold takePseudo andThen
  cases Name.takeAt place text with
  | error failure => rfl
  | ok found =>
    obtain ⟨name, rest⟩ := found
    simp only
    cases takeArgument? rest <;> rfl

theorem settled_takePseudo (place : NamePlace) (text : List Char) :
    Settled (takePseudo place) text :=
  .congr (takePseudo_eq_andThen place) <|
    .andThen (settled_takeAt place text) fun _ rest _ => .completed _ (settled_takeArgument? rest)

/-! ## Conditions -/

/-- One condition, if one stands here, as a reader. -/
def condition (text : List Char) : Step (Option SubclassSelector) :=
  match takeSubclass text with
  | none => .ok (none, text)
  | some (.ok (subclass, rest)) => .ok (some subclass, rest)
  | some (.error failure) => .error failure

/-- A pseudo selector with one colon. -/
def singleColon (pseudo : Pseudo) : SubclassSelector :=
  if singleColonElements.contains pseudo.name then .pseudoElement pseudo else .pseudoClass pseudo

theorem condition_id (text : List Char) : condition ('#' :: text) =
    complete (fun name => some (.id (String.ofList name)))
      (andThen Name.take (nonempty .idExpected) text) := by
  simp only [condition, takeSubclass, andThen]
  cases Name.take text with
  | error failure => rfl
  | ok found =>
    obtain ⟨name, rest⟩ := found
    cases name <;> rfl

theorem condition_className (text : List Char) : condition ('.' :: text) =
    complete (fun name => some (.className (String.ofList name))) (Name.takeAt .className text) := by
  simp only [condition, takeSubclass]
  cases Name.takeAt .className text <;> rfl

theorem condition_attribute (text : List Char) : condition ('[' :: text) =
    complete (fun selector => some (.attribute selector)) (takeAttribute text) := by
  simp only [condition, takeSubclass]
  cases takeAttribute text <;> rfl

theorem condition_pseudoElement (text : List Char) : condition (':' :: ':' :: text) =
    complete (fun pseudo => some (.pseudoElement pseudo)) (takePseudo .pseudoElement text) := by
  simp only [condition, takeSubclass]
  cases takePseudo .pseudoElement text <;> rfl

theorem condition_singleColon {text : List Char} (single : text.head? ≠ some ':') :
    condition (':' :: text) =
      complete (fun pseudo => some (singleColon pseudo)) (takePseudo .pseudoClass text) := by
  have noColon : ∀ rest, text = ':' :: rest → False := by
    rintro rest rfl
    exact single rfl
  simp only [condition, takeSubclass]
  cases takePseudo .pseudoClass text with
  | error failure => rfl
  | ok found =>
    obtain ⟨pseudo, rest⟩ := found
    simp only [complete, singleColon]
    by_cases listed : singleColonElements.contains pseudo.name = true
    · rw [if_pos listed, if_pos listed]
    · rw [if_neg listed, if_neg listed]

theorem condition_none {text : List Char}
    (noMark : ∀ c, text.head? = some c → ¬ IsConditionMark c) : condition text = done none text := by
  rw [condition, takeSubclass_of_noMark noMark]
  rfl

/-- Behind one colon a second one decides which reader it is. -/
theorem settled_colon (rest : List Char) : Settled condition (':' :: rest) := by
  by_cases double : ∃ left, rest = ':' :: left
  · obtain ⟨left, rfl⟩ := double
    exact .behind [':', ':'] _ (fun other _ => condition_pseudoElement other)
      (settled_takePseudo .pseudoElement left)
  · refine .behind [':'] _ (fun other same => condition_singleColon fun second => ?_)
      (settled_takePseudo .pseudoClass rest)
    exact double (List.head?_eq_some_iff.mp (same.head?_eq ▸ second))

theorem settled_condition (text : List Char) : Settled condition text := by
  refine .of_head IsConditionMark ?_ (fun other => condition_none) (.done none text)
  rintro mark rest rfl (rfl | rfl | rfl | rfl)
  · refine .behind ['#'] _ (fun other _ => condition_id other) ?_
    exact .andThen (settled_name rest) fun name rest _ => settled_nonempty _ name rest
  · exact .behind ['.'] _ (fun other _ => condition_className other) (settled_takeAt _ rest)
  · exact .behind ['['] _ (fun other _ => condition_attribute other) (settled_takeAttribute rest)
  · exact settled_colon rest

end Parser

end CssSelect
