/-!
Plain facts about text that only concern ASCII: the five blanks of selector
syntax, the words that blanks separate, letter case, and the size of a text in
UTF-8 bytes. Characters outside ASCII are never blank and have no case here.
-/
namespace CssSelect.Text

/-- The blanks of selector syntax: space, tab, line feed, form feed, carriage return. -/
def isBlank (c : Char) : Bool :=
  c == ' ' || c == '\t' || c == '\n' || c == '\x0c' || c == '\r'

/-- What is left of a text once its leading blanks are gone. -/
def skipBlanks (text : List Char) : List Char :=
  text.dropWhile isBlank

theorem length_skipBlanks_le (text : List Char) : (skipBlanks text).length ≤ text.length :=
  (List.dropWhile_sublist isBlank).length_le

/-- The pieces of a text between its blanks; two neighbouring blanks have an empty piece between them. -/
def pieces : List Char → List (List Char)
  | [] => [[]]
  | c :: rest =>
    if isBlank c then [] :: pieces rest
    else
      match pieces rest with
      | [] => [[c]]
      | piece :: others => (c :: piece) :: others

/-- The words of a text: its pieces between blanks that are not empty. -/
def words (text : List Char) : List (List Char) :=
  (pieces text).filter fun piece => !piece.isEmpty

/-- A text with its ASCII capitals replaced by small letters. -/
def lowerChars (text : List Char) : List Char :=
  text.map Char.toLower

/-- A string with its ASCII capitals replaced by small letters. -/
def lower (text : String) : String :=
  String.ofList (lowerChars text.toList)

/-- Whether two strings differ at most in the case of ASCII letters. -/
def sameIgnoringCase (a b : String) : Bool :=
  lower a == lower b

/-- How many bytes a text takes in UTF-8. -/
def utf8Size : List Char → Nat
  | [] => 0
  | c :: rest => c.utf8Size + utf8Size rest

/-- Replaces the character `found` by the text `replacement` wherever it stands. -/
def replaceChar (found : Char) (replacement : List Char) (text : List Char) : List Char :=
  text.flatMap fun c => if c == found then replacement else [c]

end CssSelect.Text
