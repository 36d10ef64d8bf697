import CssSelect.Text.Blank
import CssSelect.Selector.Name
import CssSelect.Selector.Quoted

/-!
Reading a single condition of a compound: an id, a class, an attribute selector
or a pseudo selector. Every step leaves at most what it was given, and a
condition, which has a mark in front, leaves less (`length_lt_of_takeSubclass`).
-/
namespace CssSelect.Parser

/-- Reads an attribute operator. -/
def takeOperator : List Char → Step AttributeOperator
  | '=' :: rest => .ok (.equals, rest)
  | '~' :: '=' :: rest => .ok (.includes, rest)
  | '|' :: '=' :: rest => .ok (.dashMatch, rest)
  | '^' :: '=' :: rest => .ok (.prefixMatch, rest)
  | '$' :: '=' :: rest => .ok (.suffixMatch, rest)
  | '*' :: '=' :: rest => .ok (.substringMatch, rest)
  | text => .error (.unexpected text)

/-- Reads the expected value: a quoted string, or a name that is not empty. -/
def takeValue : List Char → Step (List Char)
  | '"' :: rest => Quoted.take '"' rest
  | '\'' :: rest => Quoted.take '\'' rest
  | text =>
    match Name.take text with
    | .error failure => .error failure
    | .ok ([], rest) => .error ⟨.valueExpected, rest⟩
    | .ok (value, rest) => .ok (value, rest)

/-- Reads the case flag, if one stands here, and the blanks behind it. -/
def takeFlag : List Char → Option CaseFlag × List Char
  | 'i' :: rest | 'I' :: rest => (some .ignoreCase, Text.skipBlanks rest)
  | 's' :: rest | 'S' :: rest => (some .exact, Text.skipBlanks rest)
  | text => (none, text)

/-- Reads operator, value, flag and closing bracket. -/
def takeTest (text : List Char) : Step AttributeTest :=
  match takeOperator text with
  | .error failure => .error failure
  | .ok (operator, rest) =>
    match takeValue (Text.skipBlanks rest) with
    | .error failure => .error failure
    | .ok (value, rest) =>
      match takeFlag (Text.skipBlanks rest) with
      | (flag, ']' :: rest) => .ok (⟨operator, String.ofList value, flag⟩, rest)
      | (_, rest) => .error (.unexpected rest)

/-- Reads an attribute selector; its opening bracket has been read. -/
def takeAttribute (text : List Char) : Step AttributeSelector :=
  match Name.takeAt .attribute (Text.skipBlanks text) with
  | .error failure => .error failure
  | .ok (name, rest) =>
    match Text.skipBlanks rest with
    | ']' :: rest => .ok (⟨String.ofList name, none⟩, rest)
    | rest =>
      match takeTest rest with
      | .error failure => .error failure
      | .ok (test, rest) => .ok (⟨String.ofList name, some test⟩, rest)

/-- Reads the raw argument of a pseudo selector up to its closing parenthesis.
`depth` counts the parentheses that are open inside it and `quote` is the mark of
the string that the reader is in. Escapes and strings hide the characters in them. -/
def takeArgument (depth : Nat) (quote : Option Char) : List Char → Step (List Char)
  | [] =>
    match quote with
    | some _ => .error ⟨.unterminatedString, []⟩
    | none => .error ⟨.unbalancedParentheses, []⟩
  | '\\' :: [] =>
    match quote with
    | some _ => .error ⟨.unterminatedString, []⟩
    | none => .error ⟨.unbalancedParentheses, []⟩
  | '\\' :: c :: rest => Name.prepend '\\' (Name.prepend c (takeArgument depth quote rest))
  | c :: rest =>
    match quote with
    | some mark =>
      Name.prepend c (takeArgument depth (if c == mark then none else some mark) rest)
    | none =>
      if c == '"' || c == '\'' then Name.prepend c (takeArgument depth (some c) rest)
      else if c == '(' then Name.prepend c (takeArgument (depth + 1) none rest)
      else if c == ')' then
        match depth with
        | 0 => .ok ([], rest)
        | depth + 1 => Name.prepend c (takeArgument depth none rest)
      else Name.prepend c (takeArgument depth none rest)

/-- Reads the argument of a pseudo selector if an opening parenthesis stands here. -/
def takeArgument? : List Char → Step (Option String)
  | '(' :: rest =>
    match takeArgument 0 none rest with
    | .error failure => .error failure
    | .ok (argument, rest) => .ok (some (String.ofList (Text.trim argument)), rest)
  | text => .ok (none, text)

/-- The pseudo-elements that may also be written with a single colon. -/
def singleColonElements : List String :=
  ["before", "after", "first-line", "first-letter"]

/-- Reads the name and the argument of a pseudo selector. Its name is kept in small letters. -/
def takePseudo (place : NamePlace) (text : List Char) : Step Pseudo :=
  match Name.takeAt place text with
  | .error failure => .error failure
  | .ok (name, rest) =>
    match takeArgument? rest with
    | .error failure => .error failure
    | .ok (argument, rest) => .ok (⟨String.ofList (Text.lowerChars name), argument⟩, rest)

/-- Reads one condition behind its mark; without a mark there is none. -/
def takeSubclass : List Char → Option (Step SubclassSelector)
  | '#' :: rest => some <|
    match Name.take rest with
    | .error failure => .error failure
    | .ok ([], rest) => .error ⟨.idExpected, rest⟩
    | .ok (name, rest) => .ok (.id (String.ofList name), rest)
  | '.' :: rest => some <|
    match Name.takeAt .className rest with
    | .error failure => .error failure
    | .ok (name, rest) => .ok (.className (String.ofList name), rest)
  | '[' :: rest => some <|
    match takeAttribute rest with
    | .error failure => .error failure
    | .ok (selector, rest) => .ok (.attribute selector, rest)
  | ':' :: ':' :: rest => some <|
    match takePseudo .pseudoElement rest with
    | .error failure => .error failure
    | .ok (pseudo, rest) => .ok (.pseudoElement pseudo, rest)
  | ':' :: rest => some <|
    match takePseudo .pseudoClass rest with
    | .error failure => .error failure
    | .ok (pseudo, rest) =>
      if singleColonElements.contains pseudo.name then .ok (.pseudoElement pseudo, rest)
      else .ok (.pseudoClass pseudo, rest)
  | _ => none

/-! ## What a step leaves unread -/

theorem prepend_eq_ok {c : Char} {step : Step (List Char)} {read rest : List Char}
    (h : Name.prepend c step = .ok (read, rest)) :
    ∃ tail, step = .ok (tail, rest) ∧ read = c :: tail := by
  cases step with
  | error failure => simp [Name.prepend] at h
  | ok found =>
    obtain ⟨tail, left⟩ := found
    simp only [Name.prepend, Except.ok.injEq, Prod.mk.injEq] at h
    exact ⟨tail, by rw [h.2], h.1.symm⟩

theorem length_le_of_takeName {text read rest : List Char}
    (h : Name.take text = .ok (read, rest)) : rest.length ≤ text.length := by
  fun_induction Name.take text generalizing read with
  | case1 => simp_all
  | case2 => simp at h
  | case3 c d rest' _ ih =>
    obtain ⟨tail, step, _⟩ := prepend_eq_ok h
    have := ih step
    simp only [List.length_cons]
    omega
  | case4 c rest' _ _ ih =>
    obtain ⟨tail, step, _⟩ := prepend_eq_ok h
    have := ih step
    simp only [List.length_cons]
    omega
  | case5 c rest' =>
    simp only [Except.ok.injEq, Prod.mk.injEq] at h
    simp [← h.2]

/-- A name that starts here takes at least one character. -/
theorem length_lt_of_takeName {text read rest : List Char} (starts : Name.startsHere text = true)
    (h : Name.take text = .ok (read, rest)) : rest.length < text.length := by
  cases text with
  | nil => simp [Name.startsHere] at starts
  | cons c left =>
    unfold Name.take at h
    split at h
    · split at h
      · simp at h
      · next d left =>
        obtain ⟨tail, step, _⟩ := prepend_eq_ok h
        have := length_le_of_takeName step
        simp only [List.length_cons]
        omega
    · next plain =>
      split at h
      · obtain ⟨tail, step, _⟩ := prepend_eq_ok h
        have := length_le_of_takeName step
        simp only [List.length_cons]
        omega
      · next other =>
        simp only [Name.isPart, Bool.or_eq_true, not_or] at other
        simp only [Name.startsHere] at starts
        split at starts
        · next hyphen => exact absurd hyphen other.2
        · simp [plain, other.1.1] at starts

theorem length_le_of_takeQuoted {quote : Char} {text read rest : List Char}
    (h : Quoted.take quote text = .ok (read, rest)) : rest.length ≤ text.length := by
  fun_induction Quoted.take quote text generalizing read with
  | case1 => simp at h
  | case2 => simp at h
  | case3 c d rest' _ ih =>
    obtain ⟨tail, step, _⟩ := prepend_eq_ok h
    have := ih step
    simp only [List.length_cons]
    omega
  | case4 c rest' =>
    simp only [Except.ok.injEq, Prod.mk.injEq] at h
    simp [← h.2]
  | case5 c rest' _ _ ih =>
    obtain ⟨tail, step, _⟩ := prepend_eq_ok h
    have := ih step
    simp only [List.length_cons]
    omega

theorem length_le_of_takeAt {place : NamePlace} {text read rest : List Char}
    (h : Name.takeAt place text = .ok (read, rest)) : rest.length ≤ text.length := by
  unfold Name.takeAt at h
  split at h
  · exact length_le_of_takeName h
  · simp at h

theorem length_le_of_takeOperator {text rest : List Char} {operator : AttributeOperator}
    (h : takeOperator text = .ok (operator, rest)) : rest.length ≤ text.length := by
  unfold takeOperator at h
  split at h <;> simp_all <;> omega

theorem length_le_of_takeValue {text read rest : List Char}
    (h : takeValue text = .ok (read, rest)) : rest.length ≤ text.length := by
  unfold takeValue at h
  split at h
  · have := length_le_of_takeQuoted h
    simp only [List.length_cons]
    omega
  · have := length_le_of_takeQuoted h
    simp only [List.length_cons]
    omega
  · split at h
    · simp at h
    · simp at h
    · next step =>
      simp only [Except.ok.injEq, Prod.mk.injEq] at h
      have := length_le_of_takeName step
      rw [← h.2]
      exact this

theorem length_takeFlag_le (text : List Char) : (takeFlag text).2.length ≤ text.length := by
  unfold takeFlag
  split
  all_goals first
    | exact Nat.le_succ_of_le (Text.length_skipBlanks_le _)
    | exact Nat.le_refl _

theorem length_le_of_takeTest {text rest : List Char} {test : AttributeTest}
    (h : takeTest text = .ok (test, rest)) : rest.length ≤ text.length := by
  unfold takeTest at h
  split at h
  · simp at h
  · next operator afterOperator first =>
    split at h
    · simp at h
    · next value afterValue second =>
      split at h
      · next flag afterFlag third =>
        simp only [Except.ok.injEq, Prod.mk.injEq] at h
        have one := length_le_of_takeOperator first
        have two := length_le_of_takeValue second
        have three := length_takeFlag_le (Text.skipBlanks afterValue)
        have four := Text.length_skipBlanks_le afterOperator
        have five := Text.length_skipBlanks_le afterValue
        rw [third] at three
        simp only [List.length_cons] at three
        rw [← h.2]
        omega
      · simp at h

theorem length_le_of_takeAttribute {text rest : List Char} {selector : AttributeSelector}
    (h : takeAttribute text = .ok (selector, rest)) : rest.length ≤ text.length := by
  unfold takeAttribute at h
  split at h
  · simp at h
  · next name afterName first =>
    have one := length_le_of_takeAt first
    have two := Text.length_skipBlanks_le text
    have three := Text.length_skipBlanks_le afterName
    split at h
    · next left blank =>
      simp only [Except.ok.injEq, Prod.mk.injEq] at h
      rw [blank] at three
      simp only [List.length_cons] at three
      rw [← h.2]
      omega
    · split at h
      · simp at h
      · next test afterTest second =>
        simp only [Except.ok.injEq, Prod.mk.injEq] at h
        have four := length_le_of_takeTest second
        rw [← h.2]
        omega

theorem length_le_of_takeArgument {depth : Nat} {quote : Option Char} {text read rest : List Char}
    (h : takeArgument depth quote text = .ok (read, rest)) : rest.length ≤ text.length := by
  fun_induction takeArgument depth quote text generalizing read with
  | case1 | case2 | case3 | case4 => simp at h
  | case5 depth quote c rest' ih =>
    obtain ⟨tail, step, _⟩ := prepend_eq_ok h
    obtain ⟨tail', step', _⟩ := prepend_eq_ok step
    have := ih step'
    simp only [List.length_cons]
    omega
  | case9 =>
    simp only [Except.ok.injEq, Prod.mk.injEq] at h
    simp [← h.2]
  | case6 | case7 | case8 | case10 | case11 =>
    rename_i ih
    obtain ⟨tail, step, _⟩ := prepend_eq_ok h
    have := ih step
    simp only [List.length_cons]
    omega

theorem length_le_of_takeArgument? {text rest : List Char} {argument : Option String}
    (h : takeArgument? text = .ok (argument, rest)) : rest.length ≤ text.length := by
  unfold takeArgument? at h
  split at h
  · split at h
    · simp at h
    · next step =>
      simp only [Except.ok.injEq, Prod.mk.injEq] at h
      have := length_le_of_takeArgument step
      rw [← h.2]
      exact Nat.le_succ_of_le this
  · simp only [Except.ok.injEq, Prod.mk.injEq] at h
    simp [← h.2]

theorem length_le_of_takePseudo {place : NamePlace} {text rest : List Char} {pseudo : Pseudo}
    (h : takePseudo place text = .ok (pseudo, rest)) : rest.length ≤ text.length := by
  unfold takePseudo at h
  split at h
  · simp at h
  · next name afterName first =>
    split at h
    · simp at h
    · next argument afterArgument second =>
      simp only [Except.ok.injEq, Prod.mk.injEq] at h
      have one := length_le_of_takeAt first
      have two := length_le_of_takeArgument? second
      rw [← h.2]
      exact Nat.le_trans two one

/-- All that can stand where a condition is read. -/
theorem takeSubclass_eq_ok {text rest : List Char} {subclass : SubclassSelector}
    (h : takeSubclass text = some (.ok (subclass, rest))) :
    (∃ left name, text = '#' :: left ∧ Name.take left = .ok (name, rest) ∧ name ≠ [] ∧
      subclass = .id (String.ofList name)) ∨
    (∃ left name, text = '.' :: left ∧ Name.takeAt .className left = .ok (name, rest) ∧
      subclass = .className (String.ofList name)) ∨
    (∃ left selector, text = '[' :: left ∧ takeAttribute left = .ok (selector, rest) ∧
      subclass = .attribute selector) ∨
    (∃ left pseudo, text = ':' :: ':' :: left ∧ takePseudo .pseudoElement left = .ok (pseudo, rest) ∧
      subclass = .pseudoElement pseudo) ∨
    ∃ left pseudo, text = ':' :: left ∧ takePseudo .pseudoClass left = .ok (pseudo, rest) ∧
      subclass = if singleColonElements.contains pseudo.name then .pseudoElement pseudo
        else .pseudoClass pseudo := by
  unfold takeSubclass at h
  split at h
  any_goals simp only [Option.some.injEq] at h
  · next left =>
    split at h
    · cases h
    · cases h
    · next name after nonempty step =>
      cases h
      exact .inl ⟨left, name, rfl, step, nonempty, rfl⟩
  · next left =>
    split at h
    · cases h
    · next name after step =>
      cases h
      exact .inr (.inl ⟨left, name, rfl, step, rfl⟩)
  · next left =>
    split at h
    · cases h
    · next selector after step =>
      cases h
      exact .inr (.inr (.inl ⟨left, selector, rfl, step, rfl⟩))
  · next left =>
    split at h
    · cases h
    · next pseudo after step =>
      cases h
      exact .inr (.inr (.inr (.inl ⟨left, pseudo, rfl, step, rfl⟩)))
  · next left _ =>
    split at h
    · cases h
    · next pseudo after step =>
      refine .inr (.inr (.inr (.inr ⟨left, pseudo, rfl, ?_⟩)))
      split at h
      · next listed =>
        cases h
        exact ⟨step, (if_pos listed).symm⟩
      · next evaluated =>
        cases h
        exact ⟨step, (if_neg evaluated).symm⟩
  · cases h

/-- A condition takes at least its mark. -/
theorem length_lt_of_takeSubclass {text rest : List Char} {subclass : SubclassSelector}
    (h : takeSubclass text = some (.ok (subclass, rest))) : rest.length < text.length := by
  rcases takeSubclass_eq_ok h with ⟨left, _, rfl, step, _⟩ | ⟨left, _, rfl, step, _⟩ |
    ⟨left, _, rfl, step, _⟩ | ⟨left, _, rfl, step, _⟩ | ⟨left, _, rfl, step, _⟩
  · exact Nat.lt_succ_of_le (length_le_of_takeName step)
  · exact Nat.lt_succ_of_le (length_le_of_takeAt step)
  · exact Nat.lt_succ_of_le (length_le_of_takeAttribute step)
  · exact Nat.lt_succ_of_le (Nat.le_succ_of_le (length_le_of_takePseudo step))
  · exact Nat.lt_succ_of_le (length_le_of_takePseudo step)

end CssSelect.Parser
