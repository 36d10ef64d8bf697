import CssSelect.Proofs.Selector.Lexical

/-!
Arguments of pseudo selectors. The reader counts open parentheses and knows whether
it is in a string; the grammar nests. Both take the same texts: a balanced text
leaves the reader's count as it was (`opens_of_balanced`), and what the reader takes
closes one group after the other (`closes_of_takeArgument`).

An argument is kept without the white space around it. That may take the character
away that its last backslash escapes, and then it is no longer balanced.
-/
namespace CssSelect.Parser

open Grammar

/-- Puts a text in front of what a step reads. -/
def prependAll (text : List Char) (step : Step (List Char)) : Step (List Char) :=
  text.foldr Name.prepend step

theorem prependAll_append (first second : List Char) (step : Step (List Char)) :
    prependAll (first ++ second) step = prependAll first (prependAll second step) :=
  List.foldr_append

theorem prependAll_ok (text read rest : List Char) :
    prependAll text (.ok (read, rest)) = .ok (text ++ read, rest) := by
  induction text with
  | nil => rfl
  | cons c text ih =>
    change Name.prepend c (prependAll text _) = _
    rw [ih]
    rfl

theorem prependAll_error (text : List Char) (failure : Failure) :
    prependAll text (.error failure) = .error failure := by
  induction text with
  | nil => rfl
  | cons c text ih =>
    change Name.prepend c (prependAll text _) = _
    rw [ih]
    rfl

/-! ## The reader's steps -/

theorem ne_backslash_of_isMark {mark : Char} (isMark : IsMark mark) : mark ≠ '\\' := by
  rcases isMark with rfl | rfl <;> decide

section Steps

variable {depth : Nat} {c mark : Char} {rest : List Char}

theorem takeArgument_escape (quote : Option Char) :
    takeArgument depth quote ('\\' :: c :: rest) =
      Name.prepend '\\' (Name.prepend c (takeArgument depth quote rest)) := by
  rw [takeArgument]

theorem takeArgument_inert (isInert : IsInert c) :
    takeArgument depth none (c :: rest) = Name.prepend c (takeArgument depth none rest) := by
  obtain ⟨notOpen, notClose, notEscape, notMark⟩ := isInert
  simp only [IsMark, not_or] at notMark
  rw [takeArgument.eq_def]
  simp [notOpen, notClose, notEscape, notMark.1, notMark.2]

theorem takeArgument_mark (isMark : IsMark mark) :
    takeArgument depth none (mark :: rest) =
      Name.prepend mark (takeArgument depth (some mark) rest) := by
  rw [takeArgument.eq_def]
  rcases isMark with rfl | rfl <;> simp

theorem takeArgument_quoted (notEscape : c ≠ '\\') :
    takeArgument depth (some mark) (c :: rest) =
      Name.prepend c (takeArgument depth (if c == mark then none else some mark) rest) := by
  rw [takeArgument.eq_def]
  simp [notEscape]

theorem takeArgument_open :
    takeArgument depth none ('(' :: rest) = Name.prepend '(' (takeArgument (depth + 1) none rest) := by
  rw [takeArgument.eq_def]
  simp

theorem takeArgument_close :
    takeArgument (depth + 1) none (')' :: rest) = Name.prepend ')' (takeArgument depth none rest) := by
  simp [takeArgument]

theorem takeArgument_end : takeArgument 0 none (')' :: rest) = .ok ([], rest) := by
  simp [takeArgument]

end Steps

/-! ## A balanced text is passed -/

/-- The reader takes the whole text, and then as many more parentheses are open. -/
def Opens (count : Nat) (text : List Char) : Prop :=
  ∀ depth rest, takeArgument depth none (text ++ rest) =
    prependAll text (takeArgument (depth + count) none rest)

theorem Opens.append {first second : List Char} {left right : Nat} (opens : Opens left first)
    (behind : Opens right second) : Opens (left + right) (first ++ second) := by
  intro depth rest
  rw [List.append_assoc, opens, behind, prependAll_append, Nat.add_assoc]

theorem takeArgument_string {mark : Char} (isMark : IsMark mark) {text value : List Char}
    (body : StringText mark text value) (depth : Nat) (rest : List Char) :
    takeArgument depth (some mark) (text ++ mark :: rest) =
      prependAll (text ++ [mark]) (takeArgument depth none rest) := by
  induction body with
  | nil =>
    rw [List.nil_append, takeArgument_quoted (ne_backslash_of_isMark isMark), beq_self_eq_true, if_pos rfl]
    rfl
  | plain notMark notEscape _ ih =>
    rw [List.cons_append, takeArgument_quoted notEscape, beq_eq_false_iff_ne.mpr notMark,
      if_neg Bool.false_ne_true, ih]
    rfl
  | escaped c _ ih =>
    rw [List.cons_append, List.cons_append, takeArgument_escape, ih]
    rfl

theorem opens_of_balanced {text : List Char} (balanced : Balanced text) : Opens 0 text := by
  induction balanced with
  | nil => exact fun _ _ => rfl
  | inert isInert _ ih =>
    intro depth rest
    rw [List.cons_append, takeArgument_inert isInert, ih]
    rfl
  | escaped c _ ih =>
    intro depth rest
    rw [List.cons_append, List.cons_append, takeArgument_escape, ih]
    rfl
  | @quoted mark text value behind isMark body _ ih =>
    intro depth rest
    have split : mark :: text ++ mark :: behind ++ rest =
        mark :: (text ++ mark :: (behind ++ rest)) := by simp
    rw [split, takeArgument_mark isMark, takeArgument_string isMark body, ih, ← prependAll_append]
    simp [prependAll]
  | @group inner behind _ _ within ih =>
    intro depth rest
    have split : '(' :: inner ++ ')' :: behind ++ rest =
        '(' :: (inner ++ ')' :: (behind ++ rest)) := by simp
    rw [split, takeArgument_open, within, takeArgument_close, ih]
    simp [prependAll]

/-! ## What is taken is balanced -/

/-- Closes one group after the other, and is balanced in between. -/
def Closes : Nat → List Char → Prop
  | 0, read => Balanced read
  | depth + 1, read => ∃ inner outer, read = inner ++ ')' :: outer ∧ Balanced inner ∧ Closes depth outer

/-- Ends the string that the reader is in, if it is in one, and then closes the groups. -/
def ClosesFrom (depth : Nat) : Option Char → List Char → Prop
  | none, read => Closes depth read
  | some mark, read => ∃ text value outer, read = text ++ mark :: outer ∧
      StringText mark text value ∧ Closes depth outer

theorem Closes.extend (front : List Char)
    (item : ∀ text, Balanced text → Balanced (front ++ text)) {depth : Nat} {read : List Char}
    (closes : Closes depth read) : Closes depth (front ++ read) := by
  cases depth with
  | zero => exact item read closes
  | succ depth =>
    obtain ⟨inner, outer, rfl, balanced, behind⟩ := closes
    exact ⟨front ++ inner, outer, by simp, item inner balanced, behind⟩

theorem ClosesFrom.escaped (c : Char) {depth : Nat} {quote : Option Char} {read : List Char}
    (closes : ClosesFrom depth quote read) : ClosesFrom depth quote ('\\' :: c :: read) := by
  cases quote with
  | none => exact Closes.extend ['\\', c] (fun _ balanced => .escaped c balanced) closes
  | some mark =>
    obtain ⟨text, value, outer, rfl, body, behind⟩ := closes
    exact ⟨'\\' :: c :: text, c :: value, outer, rfl, .escaped c body, behind⟩

theorem ClosesFrom.quoted {mark : Char} (isMark : IsMark mark) {depth : Nat} {read : List Char}
    (closes : ClosesFrom depth (some mark) read) : Closes depth (mark :: read) := by
  obtain ⟨text, value, outer, rfl, body, behind⟩ := closes
  have item : ∀ text', Balanced text' → Balanced (mark :: text ++ [mark] ++ text') := by
    intro text' balanced
    simpa using Balanced.quoted isMark body balanced
  simpa using Closes.extend (mark :: text ++ [mark]) item behind

theorem Closes.opened {depth : Nat} {read : List Char} (closes : Closes (depth + 1) read) :
    Closes depth ('(' :: read) := by
  obtain ⟨inner, outer, rfl, balanced, behind⟩ := closes
  have item : ∀ text, Balanced text → Balanced ('(' :: inner ++ [')'] ++ text) := by
    intro text balancedText
    simpa using Balanced.group balanced balancedText
  simpa using Closes.extend ('(' :: inner ++ [')']) item behind

theorem Closes.closed {depth : Nat} {read : List Char} (closes : Closes depth read) :
    Closes (depth + 1) (')' :: read) :=
  ⟨[], read, rfl, .nil, closes⟩

theorem Closes.inert {c : Char} (isInert : IsInert c) {depth : Nat} {read : List Char}
    (closes : Closes depth read) : Closes depth (c :: read) :=
  Closes.extend [c] (fun _ balanced => .inert isInert balanced) closes

/-- Inside a string a character is either the mark that ends it or part of it. -/
theorem ClosesFrom.inString {c mark : Char} (notEscape : c ≠ '\\') {depth : Nat} {read : List Char}
    (closes : ClosesFrom depth (if c == mark then none else some mark) read) :
    ClosesFrom depth (some mark) (c :: read) := by
  by_cases ends : c = mark
  · subst ends
    rw [beq_self_eq_true, if_pos rfl] at closes
    exact ⟨[], [], read, rfl, .nil, closes⟩
  · rw [beq_eq_false_iff_ne.mpr ends, if_neg Bool.false_ne_true] at closes
    obtain ⟨text, value, outer, rfl, body, behind⟩ := closes
    exact ⟨c :: text, c :: value, outer, rfl, .plain ends notEscape body, behind⟩

theorem ne_backslash {c : Char} {rest : List Char} (notLast : c = '\\' → rest = [] → False)
    (notPair : ∀ d left, c = '\\' → rest = d :: left → False) : c ≠ '\\' := by
  intro escape
  cases rest with
  | nil => exact notLast escape rfl
  | cons d left => exact notPair d left escape rfl

/-- The cases follow the reader; an escape, a string and a group each have their lemma above. -/
theorem closes_of_takeArgument {depth : Nat} {quote : Option Char}
    (isMark : ∀ mark ∈ quote, IsMark mark) {text read rest : List Char}
    (h : takeArgument depth quote text = .ok (read, rest)) :
    text = read ++ ')' :: rest ∧ ClosesFrom depth quote read := by
  fun_induction takeArgument depth quote text generalizing read with
  | case1 | case2 | case3 | case4 => cases h
  | case5 depth quote c rest' ih =>
    obtain ⟨inner, pair, rfl⟩ := prepend_eq_ok h
    obtain ⟨tail, step, rfl⟩ := prepend_eq_ok pair
    obtain ⟨rfl, closes⟩ := ih isMark step
    exact ⟨rfl, closes.escaped c⟩
  | case6 depth c rest' notLast notPair mark ih =>
    obtain ⟨tail, step, rfl⟩ := prepend_eq_ok h
    have stillMark : ∀ other ∈ (if c == mark then none else some mark), IsMark other := by
      split
      · simp
      · exact isMark
    obtain ⟨rfl, closes⟩ := ih stillMark step
    exact ⟨rfl, closes.inString (ne_backslash notLast notPair)⟩
  | case7 depth c rest' notLast notPair mark ih =>
    have cMark : IsMark c := by simpa [IsMark] using mark
    obtain ⟨tail, step, rfl⟩ := prepend_eq_ok h
    obtain ⟨rfl, closes⟩ := ih (by simpa using cMark) step
    exact ⟨rfl, closes.quoted cMark⟩
  | case8 depth c rest' notLast notPair notMark isOpen ih =>
    obtain rfl : c = '(' := by simpa using isOpen
    obtain ⟨tail, step, rfl⟩ := prepend_eq_ok h
    obtain ⟨rfl, closes⟩ := ih (by simp) step
    exact ⟨rfl, Closes.opened closes⟩
  | case9 c rest' notLast notPair notMark notOpen isClose =>
    obtain rfl : c = ')' := by simpa using isClose
    cases h
    exact ⟨rfl, Balanced.nil⟩
  | case10 c rest' notLast notPair notMark notOpen isClose depth ih =>
    obtain rfl : c = ')' := by simpa using isClose
    obtain ⟨tail, step, rfl⟩ := prepend_eq_ok h
    obtain ⟨rfl, closes⟩ := ih (by simp) step
    exact ⟨rfl, Closes.closed closes⟩
  | case11 depth c rest' notLast notPair notMark notOpen notClose ih =>
    have isInert : IsInert c :=
      ⟨by simpa using notOpen, by simpa using notClose, ne_backslash notLast notPair,
        by simpa [IsMark] using notMark⟩
    obtain ⟨tail, step, rfl⟩ := prepend_eq_ok h
    obtain ⟨rfl, closes⟩ := ih (by simp) step
    exact ⟨rfl, Closes.inert isInert closes⟩

/-- The reader takes a text up to a parenthesis exactly if the text is balanced. -/
theorem takeArgument_eq_ok_iff {text read rest : List Char} :
    takeArgument 0 none text = .ok (read, rest) ↔ text = read ++ ')' :: rest ∧ Balanced read := by
  constructor
  · exact closes_of_takeArgument (by simp)
  · rintro ⟨rfl, balanced⟩
    rw [opens_of_balanced balanced, takeArgument_end, prependAll_ok, List.append_nil]

end CssSelect.Parser
