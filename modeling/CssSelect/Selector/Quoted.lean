import CssSelect.Selector.Name

/-!
Quoted strings. A backslash makes the character after it part of the string, the
quotation mark and the backslash itself included. Strings are written between
double quotation marks.
-/
namespace CssSelect.Quoted

/-- Reads up to the closing quotation mark; the opening one has been read. -/
def take (quote : Char) : List Char → Step (List Char)
  | [] => .error ⟨.unterminatedString, []⟩
  | c :: rest =>
    if c == '\\' then
      match rest with
      | [] => .error ⟨.unterminatedString, []⟩
      | d :: rest => Name.prepend d (take quote rest)
    else if c == quote then .ok ([], rest)
    else Name.prepend c (take quote rest)

/-- Writes a character between double quotation marks. -/
def writeChar (c : Char) : List Char :=
  if c == '"' || c == '\\' then ['\\', c] else [c]

/-- Writes a string with its quotation marks. -/
def write (value : List Char) : List Char :=
  '"' :: value.flatMap writeChar ++ ['"']

end CssSelect.Quoted
