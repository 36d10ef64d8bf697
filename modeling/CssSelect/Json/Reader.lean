import CssSelect.Json.Number
import CssSelect.Json.Quoted
import CssSelect.Json.Value

/-!
JSON text as values. The reader is strict, and brackets nest at most 127 deep.
Every `Reader` takes at least one character and carries the proof of it, so that
the items of an array and the members of an object are read by recursion on what
is left.
-/
namespace CssSelect.Json

/-- Something that can be read, and that takes at least one character. -/
structure Reader (α : Type) where
  take : List Char → Take α
  shortens : ∀ {text value rest}, take text = .ok (value, rest) → rest.length < text.length

/-- Reads items with commas between them, and the closing bracket after the last one. -/
def takeItems {α : Type} (item : Reader α) (close : Char) (text : List Char) : Take (List α) :=
  match h : item.take text with
  | .error fault => .error fault
  | .ok (value, rest) =>
    match b : skipBlanks rest with
    | [] => .error .endOfText
    | c :: left =>
      if c == close then .ok ([value], left)
      else if c == ',' then
        if (skipBlanks left).head? == some close then .error .malformed
        else
          have : left.length < text.length := by
            have one := item.shortens h
            have two := length_skipBlanks_le rest
            rw [b, List.length_cons] at two
            omega
          match takeItems item close left with
          | .error fault => .error fault
          | .ok (values, rest) => .ok (value :: values, rest)
      else .error .malformed
termination_by text.length

theorem length_lt_of_takeItems {α : Type} {item : Reader α} {close : Char} {text rest : List Char}
    {values : List α} (h : takeItems item close text = .ok (values, rest)) :
    rest.length < text.length := by
  fun_induction takeItems item close text generalizing values with
  | case3 text value behind first c left blank =>
    simp only [Except.ok.injEq, Prod.mk.injEq] at h
    have one := item.shortens first
    have two := length_skipBlanks_le behind
    rw [blank, List.length_cons, h.2] at two
    omega
  | case6 =>
    rename_i shorter _ _ step ih
    simp only [Except.ok.injEq, Prod.mk.injEq] at h
    have := ih (h.2 ▸ step)
    omega
  | _ => simp at h

/-- Reads a list of items behind its opening bracket; it may be empty. -/
def takeList {α : Type} (item : Reader α) (close : Char) (text : List Char) : Take (List α) :=
  match skipBlanks text with
  | [] => .error .endOfText
  | c :: rest => if c == close then .ok ([], rest) else takeItems item close (c :: rest)

theorem length_lt_of_takeList {α : Type} {item : Reader α} {close : Char} {text rest : List Char}
    {values : List α} (h : takeList item close text = .ok (values, rest)) :
    rest.length < text.length := by
  have blanks := length_skipBlanks_le text
  unfold takeList at h
  split at h
  · simp at h
  · next c left shown =>
    rw [shown] at blanks
    split at h
    · simp only [Except.ok.injEq, Prod.mk.injEq] at h
      simp only [List.length_cons, h.2] at blanks
      omega
    · have := length_lt_of_takeItems h
      omega

/-- Reads a member of an object: a name, a colon and a value. -/
def takeMember (value : Reader Value) (text : List Char) : Take (String × Value) :=
  match skipBlanks text with
  | '"' :: rest =>
    match takeString rest with
    | .error fault => .error fault
    | .ok (name, rest) =>
      match skipBlanks rest with
      | ':' :: rest =>
        match value.take rest with
        | .error fault => .error fault
        | .ok (value, rest) => .ok ((String.ofList name, value), rest)
      | rest => .error (faultAt rest)
  | rest => .error (faultAt rest)

theorem length_lt_of_takeMember {value : Reader Value} {text rest : List Char}
    {member : String × Value} (h : takeMember value text = .ok (member, rest)) :
    rest.length < text.length := by
  have one := length_skipBlanks_le text
  unfold takeMember at h
  split at h
  · next behind shown =>
    rw [shown, List.length_cons] at one
    split at h
    · simp at h
    · next name afterName first =>
      have two := length_le_of_takeString first
      have three := length_skipBlanks_le afterName
      split at h
      · next afterColon colon =>
        rw [colon, List.length_cons] at three
        split at h
        · simp at h
        · next second =>
          simp only [Except.ok.injEq, Prod.mk.injEq] at h
          have four := value.shortens second
          rw [← h.2]
          omega
      · simp at h
  · simp at h

/-- The members of an object, one by one. -/
def Reader.member (value : Reader Value) : Reader (String × Value) :=
  ⟨takeMember value, length_lt_of_takeMember⟩

/-- A step whose value is completed by `finish`. -/
def complete {α β : Type} (finish : α → β) : Take α → Take β
  | .ok (value, rest) => .ok (finish value, rest)
  | .error fault => .error fault

theorem complete_eq_ok {α β : Type} {finish : α → β} {step : Take α} {value : β} {rest : List Char}
    (h : complete finish step = .ok (value, rest)) : ∃ inner, step = .ok (inner, rest) := by
  cases step with
  | error fault => simp [complete] at h
  | ok found =>
    obtain ⟨inner, left⟩ := found
    simp only [complete, Except.ok.injEq, Prod.mk.injEq] at h
    exact ⟨inner, by rw [h.2]⟩

/-- Reads a value without leading blanks. `inner` reads the values inside brackets;
without it there is no room for another level. -/
def takeValue (inner : Option (Reader Value)) : List Char → Take Value
  | [] => .error .endOfText
  | c :: rest =>
    match c with
    | 'n' => complete (fun _ => .null) ((takeWord "ull".toList rest).map ((), ·))
    | 't' => complete (fun _ => .bool true) ((takeWord "rue".toList rest).map ((), ·))
    | 'f' => complete (fun _ => .bool false) ((takeWord "alse".toList rest).map ((), ·))
    | '"' => complete (fun text => .string (String.ofList text)) (takeString rest)
    | '[' =>
      match inner with
      | none => .error .malformed
      | some reader => complete .array (takeList reader ']' rest)
    | '{' =>
      match inner with
      | none => .error .malformed
      | some reader => complete .object (takeList reader.member '}' rest)
    | '-' => complete (.number true) (takeDecimal rest)
    | c => if c.isDigit then complete (.number false) (takeDecimal (c :: rest)) else .error .malformed

theorem length_lt_of_takeValue {inner : Option (Reader Value)} {text rest : List Char}
    {value : Value} (h : takeValue inner text = .ok (value, rest)) : rest.length < text.length := by
  unfold takeValue at h
  split at h
  · simp at h
  · next c left =>
    have word {letters : List Char} {found : Unit}
        (step : (takeWord letters left).map ((), ·) = .ok (found, rest)) :
        rest.length < (c :: left).length := by
      cases taken : takeWord letters left with
      | error fault => simp [taken, Except.map] at step
      | ok behind =>
        simp only [taken, Except.map, Except.ok.injEq, Prod.mk.injEq, true_and] at step
        have := length_le_of_takeWord taken
        rw [← step]
        exact Nat.lt_succ_of_le this
    split at h
    · obtain ⟨_, step⟩ := complete_eq_ok h
      exact word step
    · obtain ⟨_, step⟩ := complete_eq_ok h
      exact word step
    · obtain ⟨_, step⟩ := complete_eq_ok h
      exact word step
    · obtain ⟨text, step⟩ := complete_eq_ok h
      exact Nat.lt_succ_of_le (length_le_of_takeString step)
    · split at h
      · simp at h
      · obtain ⟨items, step⟩ := complete_eq_ok h
        exact Nat.lt_succ_of_lt (length_lt_of_takeList step)
    · split at h
      · simp at h
      · obtain ⟨members, step⟩ := complete_eq_ok h
        exact Nat.lt_succ_of_lt (length_lt_of_takeList step)
    · obtain ⟨decimal, step⟩ := complete_eq_ok h
      exact Nat.lt_succ_of_lt (length_lt_of_takeDecimal step)
    · split at h
      · obtain ⟨decimal, step⟩ := complete_eq_ok h
        exact length_lt_of_takeDecimal step
      · simp at h

/-- Reads a value behind its leading blanks, with brackets inside it nested at most
`levels` deep. -/
def valueReader : Nat → Reader Value
  | 0 => ⟨fun text => takeValue none (skipBlanks text),
      fun h => Nat.lt_of_lt_of_le (length_lt_of_takeValue h) (length_skipBlanks_le _)⟩
  | levels + 1 => ⟨fun text => takeValue (some (valueReader levels)) (skipBlanks text),
      fun h => Nat.lt_of_lt_of_le (length_lt_of_takeValue h) (length_skipBlanks_le _)⟩

/-- How deep brackets may nest. -/
def nestingLimit : Nat :=
  127

/-- Reads the first value of a text. -/
def read (text : List Char) : Take Value :=
  (valueReader nestingLimit).take text

end CssSelect.Json
