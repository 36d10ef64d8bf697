import CssSelect.Selector.Parser.Condition

/-!
Text as selectors. The reader works from left to right, never goes back, and
looks at most two characters ahead. Each step returns the characters it has left
unread; a step that reads something leaves fewer than it was given, which is why
the repeating steps end.

A pseudo-class or pseudo-element is announced as soon as it has been read, also
when the text turns out to be no selector further on. A `Reading` therefore
keeps what was announced beside its outcome.
-/
namespace CssSelect

/-- A pseudo-class or pseudo-element that was read, by its name. -/
inductive Announcement where
  | pseudoClass (name : String)
  | pseudoElement (name : String)
  deriving DecidableEq, Repr

namespace SubclassSelector

/-- What reading this condition announces. -/
def announcements : SubclassSelector → List Announcement
  | pseudoClass pseudo => [.pseudoClass pseudo.name]
  | pseudoElement pseudo => [.pseudoElement pseudo.name]
  | _ => []

end SubclassSelector

/-- How reading ended, and what was announced until then. -/
structure Reading (α : Type) where
  announced : List Announcement
  outcome : Step α

namespace Reading

/-- A reading that follows earlier announcements and whose value is completed by `complete`. -/
def after {α β : Type} (reading : Reading α) (announced : List Announcement) (complete : α → β) :
    Reading β :=
  ⟨announced ++ reading.announced,
    match reading.outcome with
    | .ok (value, rest) => .ok (complete value, rest)
    | .error failure => .error failure⟩

theorem outcome_after_eq_ok {α β : Type} {reading : Reading α} {earlier : List Announcement}
    {complete : α → β} {value : β} {rest : List Char}
    (h : (reading.after earlier complete).outcome = .ok (value, rest)) :
    ∃ inner, reading.outcome = .ok (inner, rest) ∧ value = complete inner := by
  obtain ⟨own, outcome⟩ := reading
  cases outcome with
  | error failure => simp [after] at h
  | ok found =>
    obtain ⟨inner, left⟩ := found
    simp only [after, Except.ok.injEq, Prod.mk.injEq] at h
    exact ⟨inner, by rw [h.2], h.1.symm⟩

theorem after_eq_ok {α β : Type} {reading : Reading α} {earlier : List Announcement}
    {complete : α → β} {announced : List Announcement} {value : β} {rest : List Char}
    (h : reading.after earlier complete = ⟨announced, .ok (value, rest)⟩) :
    ∃ inner, reading.outcome = .ok (inner, rest) ∧ value = complete inner :=
  outcome_after_eq_ok (congrArg Reading.outcome h)

end Reading

namespace Parser

/-- Reads the type selector of a compound, if one stands here. -/
def takeType (text : List Char) : Step (Option TypeSelector) :=
  match text with
  | '*' :: rest => .ok (some .universal, rest)
  | text =>
    if Name.startsHere text then
      match Name.take text with
      | .error failure => .error failure
      | .ok (name, rest) => .ok (some (.tag (String.ofList name)), rest)
    else .ok (none, text)

/-- Reads conditions as long as a mark of one follows. -/
def takeSubclasses (text : List Char) : Reading (List SubclassSelector) :=
  match h : takeSubclass text with
  | none => ⟨[], .ok ([], text)⟩
  | some (.error failure) => ⟨[], .error failure⟩
  | some (.ok (subclass, rest)) =>
    have : rest.length < text.length := length_lt_of_takeSubclass h
    (takeSubclasses rest).after subclass.announcements (subclass :: ·)
termination_by text.length

/-- Reads a compound; `none` if nothing that starts one stands here. -/
def takeCompound (text : List Char) : Reading (Option CompoundSelector) :=
  match takeType text with
  | .error failure => ⟨[], .error failure⟩
  | .ok (type, rest) =>
    (takeSubclasses rest).after [] fun subclasses =>
      if type.isNone && subclasses.isEmpty then none else some ⟨type, subclasses⟩

theorem length_le_of_takeType {text rest : List Char} {type : Option TypeSelector}
    (h : takeType text = .ok (type, rest)) :
    rest.length ≤ text.length ∧ (type.isSome → rest.length < text.length) := by
  unfold takeType at h
  split at h
  · simp only [Except.ok.injEq, Prod.mk.injEq] at h
    simp [← h.2]
  · split at h
    · next starts =>
      split at h
      · simp at h
      · next step =>
        simp only [Except.ok.injEq, Prod.mk.injEq] at h
        have := length_lt_of_takeName starts step
        rw [← h.2]
        exact ⟨Nat.le_of_lt this, fun _ => this⟩
    · simp only [Except.ok.injEq, Prod.mk.injEq] at h
      simp [← h.1, ← h.2]

theorem length_le_of_takeSubclasses {text rest : List Char} {subclasses : List SubclassSelector}
    (h : (takeSubclasses text).outcome = .ok (subclasses, rest)) :
    rest.length ≤ text.length ∧ (subclasses ≠ [] → rest.length < text.length) := by
  fun_induction takeSubclasses text generalizing subclasses with
  | case1 =>
    simp only [Except.ok.injEq, Prod.mk.injEq] at h
    simp [← h.1, ← h.2]
  | case2 => simp at h
  | case3 text subclass left _ shorter ih =>
    obtain ⟨inner, step, _⟩ := Reading.outcome_after_eq_ok h
    have := (ih step).1
    exact ⟨by omega, fun _ => by omega⟩

/-- A compound takes at least one character. -/
theorem length_lt_of_takeCompound {text rest : List Char} {announced : List Announcement}
    {compound : CompoundSelector}
    (h : takeCompound text = ⟨announced, .ok (some compound, rest)⟩) :
    rest.length < text.length := by
  unfold takeCompound at h
  split at h
  · simp at h
  · next type left first =>
    obtain ⟨subclasses, second, value⟩ := Reading.after_eq_ok h
    have one := length_le_of_takeType first
    have two := length_le_of_takeSubclasses second
    split at value
    · simp at value
    · next nonempty =>
      cases type with
      | some type => have := one.2 rfl; omega
      | none =>
        have : subclasses ≠ [] := by simpa using nonempty
        have := two.2 this
        omega

/-- What stands behind a compound. -/
inductive Junction where
  | stop (rest : List Char)
  | join (combinator : Combinator) (rest : List Char)
  | refuse (failure : Failure)
  deriving DecidableEq, Repr

/-- Looks behind a compound: a comma or the end stops the complex selector, a symbol
is a combinator with blanks around it, and blanks alone are the descendant combinator. -/
def junction (text : List Char) : Junction :=
  match Text.skipBlanks text with
  | [] => .stop []
  | ',' :: rest => .stop (',' :: rest)
  | '>' :: rest => .join .child (Text.skipBlanks rest)
  | '+' :: rest => .join .nextSibling (Text.skipBlanks rest)
  | '~' :: rest => .join .subsequentSibling (Text.skipBlanks rest)
  | '|' :: '|' :: rest => .join .column (Text.skipBlanks rest)
  | rest => if text.head?.any Text.isBlank then .join .descendant rest else .refuse (.unexpected rest)

theorem length_le_of_junction {text rest : List Char} {combinator : Combinator}
    (h : junction text = .join combinator rest) : rest.length ≤ text.length := by
  have blanks := Text.length_skipBlanks_le text
  unfold junction at h
  split at h
  all_goals try (split at h)
  all_goals first
    | simp at h; done
    | next left shown =>
      simp only [Junction.join.injEq] at h
      have := Text.length_skipBlanks_le left
      rw [shown] at blanks
      simp only [List.length_cons] at blanks
      rw [← h.2]
      omega
    | simp only [Junction.join.injEq] at h
      rw [← h.2]
      exact blanks

theorem length_le_of_junction_stop {text rest : List Char} (h : junction text = .stop rest) :
    rest.length ≤ text.length := by
  have blanks := Text.length_skipBlanks_le text
  unfold junction at h
  split at h
  all_goals try (split at h)
  all_goals first
    | simp at h; done
    | next shown =>
      simp only [Junction.stop.injEq] at h
      rw [shown] at blanks
      rw [← h]
      exact blanks

/-- The failure for a combinator that no compound follows. -/
def missingCompound (combinator : Combinator) (rest : List Char) : Failure :=
  match combinator with
  | .descendant => .unexpected rest
  | combinator => ⟨.selectorExpectedAfter combinator, rest⟩

/-- Reads combinators with their compounds up to a comma or the end. -/
def takeTail (text : List Char) : Reading (List (Combinator × CompoundSelector)) :=
  match j : junction text with
  | .stop rest => ⟨[], .ok ([], rest)⟩
  | .refuse failure => ⟨[], .error failure⟩
  | .join combinator rest =>
    match h : takeCompound rest with
    | ⟨announced, .error failure⟩ => ⟨announced, .error failure⟩
    | ⟨announced, .ok (none, _)⟩ => ⟨announced, .error (missingCompound combinator rest)⟩
    | ⟨announced, .ok (some compound, after)⟩ =>
      have : after.length < text.length :=
        Nat.lt_of_lt_of_le (length_lt_of_takeCompound h) (length_le_of_junction j)
      (takeTail after).after announced ((combinator, compound) :: ·)
termination_by text.length

theorem length_le_of_takeTail {text rest : List Char}
    {tail : List (Combinator × CompoundSelector)}
    (h : (takeTail text).outcome = .ok (tail, rest)) : rest.length ≤ text.length := by
  fun_induction takeTail text generalizing tail with
  | case1 text left j =>
    simp only [Except.ok.injEq, Prod.mk.injEq] at h
    rw [← h.2]
    exact length_le_of_junction_stop j
  | case2 | case3 | case4 => simp at h
  | case5 text combinator left j announced compound behind first shorter ih =>
    obtain ⟨inner, step, _⟩ := Reading.outcome_after_eq_ok h
    have := ih step
    omega

/-- The failure where a complex selector has to start and does not. -/
def missingSelector : List Char → Failure
  | [] => ⟨.selectorExpected, []⟩
  | ',' :: rest => ⟨.selectorExpected, ',' :: rest⟩
  | rest => .unexpected rest

/-- Reads a complex selector up to a comma or the end. -/
def takeComplex (text : List Char) : Reading ComplexSelector :=
  match takeCompound text with
  | ⟨announced, .error failure⟩ => ⟨announced, .error failure⟩
  | ⟨announced, .ok (none, _)⟩ => ⟨announced, .error (missingSelector text)⟩
  | ⟨announced, .ok (some head, rest)⟩ => (takeTail rest).after announced fun tail => ⟨head, tail⟩

/-- A complex selector takes at least one character. -/
theorem length_lt_of_takeComplex {text rest : List Char} {announced : List Announcement}
    {selector : ComplexSelector}
    (h : takeComplex text = ⟨announced, .ok (selector, rest)⟩) : rest.length < text.length := by
  unfold takeComplex at h
  split at h
  · simp at h
  · simp at h
  · next first =>
    obtain ⟨tail, second, _⟩ := Reading.after_eq_ok h
    have one := length_lt_of_takeCompound first
    have two := length_le_of_takeTail second
    omega

/-- Reads complex selectors as long as a comma follows. -/
def takeMembers (text : List Char) : Reading (List ComplexSelector) :=
  match h : takeComplex (Text.skipBlanks text) with
  | ⟨announced, .error failure⟩ => ⟨announced, .error failure⟩
  | ⟨announced, .ok (selector, ',' :: rest)⟩ =>
    have : rest.length < text.length :=
      Nat.lt_trans (Nat.lt_succ_self _) (Nat.lt_of_lt_of_le (length_lt_of_takeComplex h)
        (Text.length_skipBlanks_le text))
    (takeMembers rest).after announced (selector :: ·)
  | ⟨announced, .ok (selector, rest)⟩ => ⟨announced, .ok ([selector], rest)⟩
termination_by text.length

end Parser

namespace SelectorList

/-- Reads a whole text as a selector list. -/
def read (text : String) : Reading SelectorList :=
  (Parser.takeMembers text.toList).after [] fun members => ⟨members⟩

/-- The selector list that a text stands for, or the first problem in it. -/
def parse (text : String) : Except SyntaxError SelectorList :=
  match (read text).outcome with
  | .ok (list, _) => .ok list
  | .error failure => .error (.ofFailure text.toList failure)

/-- The pseudo selectors that are read in a text, up to its end or its first problem. -/
def announced (text : String) : List Announcement :=
  (read text).announced

end SelectorList

end CssSelect
