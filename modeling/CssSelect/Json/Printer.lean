import CssSelect.Json.Value

/-!
JSON values as indented text: two spaces a level, one item or member a line, and
nothing between the brackets of an empty array or object.
-/
namespace CssSelect.Json

/-- The digit of a number below sixteen, in small letters. -/
def hexDigit (n : Nat) : Char :=
  if n < 10 then Char.ofNat ('0'.toNat + n) else Char.ofNat ('a'.toNat + (n - 10))

/-- A character as it is written in a JSON string. Control characters are escaped,
five of them by a letter and the others by their code. -/
def writeChar (c : Char) : List Char :=
  if c == '"' then ['\\', '"']
  else if c == '\\' then ['\\', '\\']
  else if c == '\x08' then ['\\', 'b']
  else if c == '\x0c' then ['\\', 'f']
  else if c == '\n' then ['\\', 'n']
  else if c == '\r' then ['\\', 'r']
  else if c == '\t' then ['\\', 't']
  else if c.toNat < 32 then ['\\', 'u', '0', '0', hexDigit (c.toNat / 16), hexDigit (c.toNat % 16)]
  else [c]

/-- A string with its quotation marks. -/
def writeString (text : String) : List Char :=
  '"' :: text.toList.flatMap writeChar ++ ['"']

/-- The digits of a number, with a point and an exponent where there is something to write. -/
def Decimal.write (decimal : Decimal) : List Char :=
  decimal.integer ++ (if decimal.fraction.isEmpty then [] else '.' :: decimal.fraction) ++
    if decimal.exponent == 0 then [] else 'e' :: (toString decimal.exponent).toList

/-- A line break and the blanks of a level. -/
def newline (level : Nat) : List Char :=
  '\n' :: List.replicate (2 * level) ' '

mutual

/-- A value whose first line starts at the given level. -/
def Value.write (level : Nat) : Value → List Char
  | .null => "null".toList
  | .bool true => "true".toList
  | .bool false => "false".toList
  | .number negative decimal => if negative then '-' :: decimal.write else decimal.write
  | .string text => writeString text
  | .array [] => ['[', ']']
  | .array (item :: items) =>
    '[' :: newline (level + 1) ++ item.write (level + 1) ++ writeItems (level + 1) items ++
      newline level ++ [']']
  | .object [] => ['{', '}']
  | .object ((name, value) :: members) =>
    '{' :: newline (level + 1) ++ writeString name ++ ':' :: ' ' :: value.write (level + 1) ++
      writeMembers (level + 1) members ++ newline level ++ ['}']

/-- The items behind the first one. -/
def writeItems (level : Nat) : List Value → List Char
  | [] => []
  | item :: items => ',' :: newline level ++ item.write level ++ writeItems level items

/-- The members behind the first one. -/
def writeMembers (level : Nat) : List (String × Value) → List Char
  | [] => []
  | (name, value) :: members =>
    ',' :: newline level ++ writeString name ++ ':' :: ' ' :: value.write level ++
      writeMembers level members

end

/-- The value as indented text. -/
def Value.pretty (value : Value) : String :=
  String.ofList (value.write 0)

end CssSelect.Json
