/-!
The characters of the Unicode property `White_Space`, and trimming by it. The
table has twenty-five characters; every ASCII blank is among them.
-/
namespace CssSelect.Text

/-- The Unicode property `White_Space`. -/
def isWhiteSpace (c : Char) : Bool :=
  let code := c.toNat
  (0x09 ≤ code && code ≤ 0x0D) || code == 0x20 || code == 0x85 || code == 0xA0
    || code == 0x1680 || (0x2000 ≤ code && code ≤ 0x200A) || code == 0x2028
    || code == 0x2029 || code == 0x202F || code == 0x205F || code == 0x3000

/-- A text without the white space at its end. -/
def trimEnd : List Char → List Char
  | [] => []
  | c :: rest =>
    match trimEnd rest with
    | [] => if isWhiteSpace c then [] else [c]
    | kept => c :: kept

/-- A text without the white space at its two ends. -/
def trim (text : List Char) : List Char :=
  trimEnd (text.dropWhile isWhiteSpace)

/-- A string without the white space at its two ends. -/
def trimString (text : String) : String :=
  String.ofList (trim text.toList)

end CssSelect.Text
