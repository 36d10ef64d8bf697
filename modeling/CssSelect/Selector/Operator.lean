import CssSelect.Text.Ascii

/-!
The six operators of an attribute test. Each compares an attribute's value with
an expected value; each has a name and a symbol of its own, and is found again
from its symbol.
-/
namespace CssSelect

/-- How an attribute's value is compared with the expected value. -/
inductive AttributeOperator where
  | equals
  | includes
  | dashMatch
  | prefixMatch
  | suffixMatch
  | substringMatch
  deriving DecidableEq, Repr

namespace AttributeOperator

/-- All operators, in the order in which they are listed. -/
def all : List AttributeOperator :=
  [equals, includes, dashMatch, prefixMatch, suffixMatch, substringMatch]

/-- The operator as it is written in a selector. -/
def symbol : AttributeOperator → String
  | equals => "="
  | includes => "~="
  | dashMatch => "|="
  | prefixMatch => "^="
  | suffixMatch => "$="
  | substringMatch => "*="

/-- The operator's name in the tree form of a selector. -/
def name : AttributeOperator → String
  | equals => "Equals"
  | includes => "Includes"
  | dashMatch => "DashMatch"
  | prefixMatch => "PrefixMatch"
  | suffixMatch => "SuffixMatch"
  | substringMatch => "SubstringMatch"

/-- The operator that is written as `text`, if there is one. -/
def ofSymbol? (text : String) : Option AttributeOperator :=
  all.find? fun operator => operator.symbol == text

/-- Whether `part` stands somewhere in `text` without a gap. -/
def occursIn (part : List Char) : List Char → Bool
  | [] => part.isEmpty
  | c :: rest => part.isPrefixOf (c :: rest) || occursIn part rest

/-- Whether `value` is `expected`, alone or followed by a hyphen and anything. -/
def startsWithDash (expected value : List Char) : Bool :=
  expected.isPrefixOf value &&
    match value.drop expected.length with
    | [] => true
    | c :: _ => c == '-'

/-- Whether an attribute with the given value passes the test. The four operators
that look for a part of the value find nothing when asked for the empty text;
a word that is asked for holds no blank. -/
def accepts (operator : AttributeOperator) (value expected : String) : Bool :=
  match operator with
  | equals => value == expected
  | includes =>
    !expected.toList.isEmpty && !expected.toList.any Text.isBlank
      && (Text.words value.toList).contains expected.toList
  | dashMatch => startsWithDash expected.toList value.toList
  | prefixMatch => !expected.toList.isEmpty && expected.toList.isPrefixOf value.toList
  | suffixMatch => !expected.toList.isEmpty && expected.toList.isSuffixOf value.toList
  | substringMatch => !expected.toList.isEmpty && occursIn expected.toList value.toList

/-- The message for a symbol that no operator has. -/
def unknownSymbolMessage : String :=
  "Matching variant not found"

end AttributeOperator

end CssSelect
