/-!
How reading JSON goes wrong, and the steps that all readers share. A text that
runs out inside a value and a text with a wrong character are told apart, by
whichever is met first.
-/
namespace CssSelect.Json

/-- Why a text is no JSON value. -/
inductive Fault where
  | malformed
  | endOfText
  deriving DecidableEq, Repr

/-- A value and the characters after it, or a fault. -/
abbrev Take (α : Type) := Except Fault (α × List Char)

/-- The blanks of JSON. -/
def isBlank (c : Char) : Bool :=
  c == ' ' || c == '\n' || c == '\t' || c == '\r'

/-- What is left of a text once its leading blanks are gone. -/
def skipBlanks (text : List Char) : List Char :=
  text.dropWhile isBlank

theorem length_skipBlanks_le (text : List Char) : (skipBlanks text).length ≤ text.length :=
  (List.dropWhile_sublist isBlank).length_le

/-- The fault at a place where something else has to stand. -/
def faultAt : List Char → Fault
  | [] => .endOfText
  | _ :: _ => .malformed

/-- Reads the given characters. -/
def takeWord : List Char → List Char → Except Fault (List Char)
  | [], rest => .ok rest
  | _ :: _, [] => .error .endOfText
  | c :: word, d :: rest => if c == d then takeWord word rest else .error .malformed

theorem length_le_of_takeWord {word text rest : List Char} (h : takeWord word text = .ok rest) :
    rest.length ≤ text.length := by
  fun_induction takeWord word text with
  | case1 => simp_all
  | case2 => simp at h
  | case3 c word d left _ ih =>
    have := ih h
    simp only [List.length_cons]
    omega
  | case4 => simp at h

end CssSelect.Json
