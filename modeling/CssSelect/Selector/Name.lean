import CssSelect.Selector.Failure

/-!
Names: the identifiers of selectors. A backslash makes any character part of a
name. Writing a name escapes the characters that would not be read back as part of
it at their place, and a leading hyphen unless the character behind it, written as
it is, lets the two start a name.
-/
namespace CssSelect.Name

/-- A character with which a name can start: an ASCII letter, `_`, or anything outside ASCII. -/
def isStart (c : Char) : Bool :=
  c.isAlpha || c == '_' || c.toNat ≥ 128

/-- A character that stands in a name without an escape. -/
def isPart (c : Char) : Bool :=
  isStart c || c.isDigit || c == '-'

/-- Whether a name starts here. A hyphen starts one if a start character, a second
hyphen or an escape follows. -/
def startsHere : List Char → Bool
  | [] => false
  | c :: rest =>
    if c == '-' then
      match rest with
      | [] => false
      | d :: _ => isStart d || d == '-' || d == '\\'
    else isStart c || c == '\\'

/-- Puts a character in front of what a step reads. -/
def prepend (c : Char) : Step (List Char) → Step (List Char)
  | .ok (read, rest) => .ok (c :: read, rest)
  | .error failure => .error failure

/-- Reads the longest run of name characters and escaped characters; it may be empty. -/
def take : List Char → Step (List Char)
  | [] => .ok ([], [])
  | c :: rest =>
    if c == '\\' then
      match rest with
      | [] => .error ⟨.unterminatedEscape, []⟩
      | d :: rest => prepend d (take rest)
    else if isPart c then prepend c (take rest)
    else .ok ([], c :: rest)

/-- Reads a name where one has to stand. -/
def takeAt (place : NamePlace) (text : List Char) : Step (List Char) :=
  if startsHere text then take text else .error ⟨.nameExpected place, text⟩

/-- A character behind a backslash. -/
def escape (c : Char) : List Char :=
  ['\\', c]

/-- Writes a character of a name that is not its first. -/
def writePart (c : Char) : List Char :=
  if isPart c then [c] else escape c

/-- Whether the first character of a name can be written as it is. -/
def leadsPlainly (c : Char) (rest : List Char) : Bool :=
  if c == '-' then
    match rest with
    | [] => false
    | d :: _ => isStart d || d == '-'
  else isStart c

/-- Writes a name so that it is read back as one. -/
def write : List Char → List Char
  | [] => []
  | c :: rest => (if leadsPlainly c rest then [c] else escape c) ++ rest.flatMap writePart

end CssSelect.Name
