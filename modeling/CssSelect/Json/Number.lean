import CssSelect.Json.Fault

/-!
JSON numbers and their range. A number is worked out as a significand of at most 64
bits times a power of ten; it is out of range if the product of the two, each
rounded to the 53 bits of a double-precision number, rounds to infinity.
-/
namespace CssSelect.Json

/-- A natural number rounded to 53 significant bits; a tie goes to the even neighbour. -/
def roundTo53 (n : Nat) : Nat :=
  let unit := Nat.pow 2 (n.log2 - 52)
  let kept := n / unit
  let dropped := n % unit
  let up := unit < 2 * dropped || (2 * dropped == unit && kept % 2 == 1)
  (if up then kept + 1 else kept) * unit

/-- The least number that rounds to infinity: halfway between the greatest
double-precision number and the next power of two. -/
def infinityFrom : Nat :=
  Nat.pow 2 1024 - Nat.pow 2 970

/-- Whether `significand` times ten to the power of `exponent` is out of range. -/
def outOfRange (significand : Nat) (exponent : Int) : Bool :=
  match exponent with
  | .negSucc _ => false
  | .ofNat power =>
    if power ≤ 308 then infinityFrom ≤ roundTo53 significand * roundTo53 (Nat.pow 10 power)
    else significand != 0

/-- The value of a decimal digit. -/
def digitValue (c : Char) : Nat :=
  c.toNat - '0'.toNat

/-- Appends digits to a significand as long as it stays below 2^64; the digits
behind that are handed back. -/
def absorb (significand : Nat) : List Char → Nat × List Char
  | [] => (significand, [])
  | c :: rest =>
    let next := significand * 10 + digitValue c
    if next < Nat.pow 2 64 then absorb next rest else (significand, c :: rest)

/-- The number that a run of digits stands for. -/
def digitsValue (digits : List Char) : Nat :=
  digits.foldl (fun value c => value * 10 + digitValue c) 0

/-- A number as it is written: integer digits, digits behind the point, and exponent. -/
structure Decimal where
  integer : List Char
  fraction : List Char
  exponent : Int

/-- Whether a written number is out of range. Integer digits that the significand
has no room for count as powers of ten, and such fraction digits are dropped. -/
def Decimal.outOfRange (decimal : Decimal) : Bool :=
  let (head, surplus) := absorb 0 decimal.integer
  let (significand, dropped) := absorb head decimal.fraction
  Json.outOfRange significand
    (surplus.length - (decimal.fraction.length - dropped.length) + decimal.exponent)

/-- Reads a run of digits, which may be empty. -/
def takeDigits (text : List Char) : List Char × List Char :=
  (text.takeWhile Char.isDigit, text.dropWhile Char.isDigit)

/-- Reads a run of at least one digit. -/
def takeSomeDigits (text : List Char) : Take (List Char) :=
  match takeDigits text with
  | ([], rest) => .error (faultAt rest)
  | (digits, rest) => .ok (digits, rest)

/-- Reads the digits before the point. A zero stands alone. -/
def takeInteger : List Char → Take (List Char)
  | '0' :: rest =>
    if rest.head?.any Char.isDigit then .error .malformed else .ok (['0'], rest)
  | text => takeSomeDigits text

/-- Reads the point and the digits behind it, if a point stands here. -/
def takeFraction : List Char → Take (List Char)
  | '.' :: rest => takeSomeDigits rest
  | text => .ok ([], text)

/-- Reads the digits of an exponent behind its sign. -/
def takeExponentDigits (negative : Bool) (text : List Char) : Take Int :=
  match takeSomeDigits text with
  | .error fault => .error fault
  | .ok (digits, rest) =>
    .ok (if negative then -(digitsValue digits : Int) else digitsValue digits, rest)

/-- Reads the exponent, if one stands here. -/
def takeExponent : List Char → Take Int
  | 'e' :: '-' :: rest | 'E' :: '-' :: rest => takeExponentDigits true rest
  | 'e' :: '+' :: rest | 'E' :: '+' :: rest => takeExponentDigits false rest
  | 'e' :: rest | 'E' :: rest => takeExponentDigits false rest
  | text => .ok (0, text)

/-- Reads a number without its sign. -/
def takeDecimal (text : List Char) : Take Decimal :=
  match takeInteger text with
  | .error fault => .error fault
  | .ok (integer, rest) =>
    match takeFraction rest with
    | .error fault => .error fault
    | .ok (fraction, rest) =>
      match takeExponent rest with
      | .error fault => .error fault
      | .ok (exponent, rest) =>
        if Decimal.outOfRange ⟨integer, fraction, exponent⟩ then .error .malformed
        else .ok (⟨integer, fraction, exponent⟩, rest)

theorem length_lt_of_takeSomeDigits {text digits rest : List Char}
    (h : takeSomeDigits text = .ok (digits, rest)) : rest.length < text.length := by
  unfold takeSomeDigits at h
  split at h
  · simp at h
  · next read left nonempty found =>
    simp only [Except.ok.injEq, Prod.mk.injEq] at h
    simp only [takeDigits, Prod.mk.injEq] at found
    have total : text.length = read.length + left.length := by
      rw [← found.1, ← found.2, ← List.length_append, List.takeWhile_append_dropWhile]
    have : read.length ≠ 0 := by
      intro zero
      exact nonempty (List.eq_nil_of_length_eq_zero zero)
    rw [← h.2]
    omega

theorem length_lt_of_takeInteger {text digits rest : List Char}
    (h : takeInteger text = .ok (digits, rest)) : rest.length < text.length := by
  unfold takeInteger at h
  split at h
  · split at h
    · simp at h
    · simp only [Except.ok.injEq, Prod.mk.injEq] at h
      simp [← h.2]
  · exact length_lt_of_takeSomeDigits h

theorem length_le_of_takeFraction {text digits rest : List Char}
    (h : takeFraction text = .ok (digits, rest)) : rest.length ≤ text.length := by
  unfold takeFraction at h
  split at h
  · have := length_lt_of_takeSomeDigits h
    simp only [List.length_cons]
    omega
  · simp only [Except.ok.injEq, Prod.mk.injEq] at h
    simp [← h.2]

theorem length_le_of_takeExponentDigits {negative : Bool} {text rest : List Char} {exponent : Int}
    (h : takeExponentDigits negative text = .ok (exponent, rest)) : rest.length ≤ text.length := by
  unfold takeExponentDigits at h
  split at h
  · simp at h
  · next step =>
    simp only [Except.ok.injEq, Prod.mk.injEq] at h
    rw [← h.2]
    exact Nat.le_of_lt (length_lt_of_takeSomeDigits step)

theorem length_le_of_takeExponent {text rest : List Char} {exponent : Int}
    (h : takeExponent text = .ok (exponent, rest)) : rest.length ≤ text.length := by
  unfold takeExponent at h
  split at h
  all_goals first
    | have := length_le_of_takeExponentDigits h
      simp only [List.length_cons]
      omega
    | simp only [Except.ok.injEq, Prod.mk.injEq] at h
      simp [← h.2]

theorem length_lt_of_takeDecimal {text rest : List Char} {decimal : Decimal}
    (h : takeDecimal text = .ok (decimal, rest)) : rest.length < text.length := by
  unfold takeDecimal at h
  split at h
  · simp at h
  · next first =>
    split at h
    · simp at h
    · next second =>
      split at h
      · simp at h
      · next third =>
        split at h
        · simp at h
        · simp only [Except.ok.injEq, Prod.mk.injEq] at h
          have one := length_lt_of_takeInteger first
          have two := length_le_of_takeFraction second
          have three := length_le_of_takeExponent third
          rw [← h.2]
          omega

end CssSelect.Json
