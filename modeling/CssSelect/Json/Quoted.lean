import CssSelect.Json.Fault
import CssSelect.Text.Ascii

/-!
JSON strings. They hold no raw control characters and no half of a surrogate
pair. A step never leaves more characters than it was given.
-/
namespace CssSelect.Json

/-- The value of a hexadecimal digit. -/
def hexValue? (c : Char) : Option Nat :=
  if '0' ≤ c && c ≤ '9' then some (c.toNat - '0'.toNat)
  else if 'a' ≤ c && c ≤ 'f' then some (c.toNat - 'a'.toNat + 10)
  else if 'A' ≤ c && c ≤ 'F' then some (c.toNat - 'A'.toNat + 10)
  else none

/-- Reads four hexadecimal digits. The text has run out if fewer than four bytes are left. -/
def takeHex (text : List Char) : Take Nat :=
  if Text.utf8Size (text.take 4) < 4 then .error .endOfText
  else
    match text with
    | a :: b :: c :: d :: rest =>
      match hexValue? a, hexValue? b, hexValue? c, hexValue? d with
      | some a, some b, some c, some d => .ok (((a * 16 + b) * 16 + c) * 16 + d, rest)
      | _, _, _, _ => .error .malformed
    | _ => .error .malformed

/-- Reads the second half of a surrogate pair behind its first half. -/
def takeLowSurrogate (high : Nat) : List Char → Take Char
  | '\\' :: 'u' :: rest =>
    match takeHex rest with
    | .error fault => .error fault
    | .ok (low, rest) =>
      if 0xDC00 ≤ low && low ≤ 0xDFFF then
        .ok (Char.ofNat ((high - 0xD800) * 0x400 + (low - 0xDC00) + 0x10000), rest)
      else .error .malformed
  | ['\\'] => .error .endOfText
  | text => .error (faultAt text)

/-- Reads the code of an escaped character; two surrogates make one character. -/
def takeCode (text : List Char) : Take Char :=
  match takeHex text with
  | .error fault => .error fault
  | .ok (code, rest) =>
    if 0xDC00 ≤ code && code ≤ 0xDFFF then .error .malformed
    else if 0xD800 ≤ code && code ≤ 0xDBFF then takeLowSurrogate code rest
    else .ok (Char.ofNat code, rest)

/-- Reads an escape; its backslash has been read. -/
def takeEscape : List Char → Take Char
  | [] => .error .endOfText
  | '"' :: rest => .ok ('"', rest)
  | '\\' :: rest => .ok ('\\', rest)
  | '/' :: rest => .ok ('/', rest)
  | 'b' :: rest => .ok ('\x08', rest)
  | 'f' :: rest => .ok ('\x0c', rest)
  | 'n' :: rest => .ok ('\n', rest)
  | 'r' :: rest => .ok ('\r', rest)
  | 't' :: rest => .ok ('\t', rest)
  | 'u' :: rest => takeCode rest
  | _ => .error .malformed

theorem length_le_of_takeHex {text rest : List Char} {code : Nat}
    (h : takeHex text = .ok (code, rest)) : rest.length ≤ text.length := by
  unfold takeHex at h
  split at h
  · simp at h
  · split at h
    · split at h
      · simp only [Except.ok.injEq, Prod.mk.injEq] at h
        simp only [← h.2, List.length_cons]
        omega
      · simp at h
    · simp at h

theorem length_le_of_takeLowSurrogate {high : Nat} {text rest : List Char} {c : Char}
    (h : takeLowSurrogate high text = .ok (c, rest)) : rest.length ≤ text.length := by
  unfold takeLowSurrogate at h
  split at h
  · split at h
    · simp at h
    · next step =>
      split at h
      · simp only [Except.ok.injEq, Prod.mk.injEq] at h
        have := length_le_of_takeHex step
        simp only [← h.2, List.length_cons]
        omega
      · simp at h
  · simp at h
  · simp at h

theorem length_le_of_takeEscape {text rest : List Char} {c : Char}
    (h : takeEscape text = .ok (c, rest)) : rest.length ≤ text.length := by
  unfold takeEscape at h
  split at h
  case h_10 left =>
    unfold takeCode at h
    split at h
    · simp at h
    · next code afterCode step =>
      have one := length_le_of_takeHex step
      split at h
      · simp at h
      · split at h
        · have two := length_le_of_takeLowSurrogate h
          simp only [List.length_cons]
          omega
        · simp only [Except.ok.injEq, Prod.mk.injEq] at h
          simp only [← h.2, List.length_cons]
          omega
  all_goals first
    | simp at h; done
    | simp only [Except.ok.injEq, Prod.mk.injEq] at h
      simp [← h.2]

/-- Puts a character in front of what a step reads. -/
def prepend (c : Char) : Take (List Char) → Take (List Char)
  | .ok (read, rest) => .ok (c :: read, rest)
  | .error fault => .error fault

theorem prepend_eq_ok {c : Char} {step : Take (List Char)} {read rest : List Char}
    (h : prepend c step = .ok (read, rest)) : ∃ tail, step = .ok (tail, rest) := by
  cases step with
  | error fault => simp [prepend] at h
  | ok found =>
    obtain ⟨tail, left⟩ := found
    simp only [prepend, Except.ok.injEq, Prod.mk.injEq] at h
    exact ⟨tail, by rw [h.2]⟩

/-- Reads a string up to its closing quotation mark; the opening one has been read. -/
def takeString : List Char → Take (List Char)
  | [] => .error .endOfText
  | c :: rest =>
    if c == '"' then .ok ([], rest)
    else if c == '\\' then
      match h : takeEscape rest with
      | .error fault => .error fault
      | .ok (d, left) =>
        have := length_le_of_takeEscape h
        prepend d (takeString left)
    else if c.toNat < 32 then .error .malformed
    else prepend c (takeString rest)
termination_by text => text.length
decreasing_by
  all_goals
    simp only [List.length_cons]
    omega

theorem length_le_of_takeString {text read rest : List Char}
    (h : takeString text = .ok (read, rest)) : rest.length ≤ text.length := by
  fun_induction takeString text generalizing read with
  | case1 => simp at h
  | case2 c left =>
    simp only [Except.ok.injEq, Prod.mk.injEq] at h
    simp [← h.2]
  | case3 => simp at h
  | case4 c left _ _ d behind step shorter ih =>
    obtain ⟨tail, inner⟩ := prepend_eq_ok h
    have := ih inner
    simp only [List.length_cons]
    omega
  | case5 => simp at h
  | case6 c left _ _ _ ih =>
    obtain ⟨tail, inner⟩ := prepend_eq_ok h
    have := ih inner
    simp only [List.length_cons]
    omega

end CssSelect.Json
