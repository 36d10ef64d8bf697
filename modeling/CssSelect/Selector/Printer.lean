import CssSelect.Selector.Name
import CssSelect.Selector.Quoted

/-!
Selectors as text. The text is canonical: one space or a spaced symbol between
compounds, a comma and a space between members, double quotation marks, and
escapes only where they are needed. A compound without conditions is written `*`.
-/
namespace CssSelect

namespace CaseFlag

/-- The flag as it is written behind a value. -/
def write : CaseFlag → List Char
  | ignoreCase => [' ', 'i']
  | exact => [' ', 's']

end CaseFlag

namespace AttributeTest

/-- The operator, the quoted value and the flag. -/
def write (test : AttributeTest) : List Char :=
  test.operator.symbol.toList ++ Quoted.write test.value.toList ++
    match test.flag with
    | none => []
    | some flag => flag.write

end AttributeTest

namespace AttributeSelector

/-- The selector in its brackets. -/
def write (selector : AttributeSelector) : List Char :=
  '[' :: Name.write selector.name.toList ++
    (match selector.test with
    | none => []
    | some test => test.write) ++ [']']

end AttributeSelector

namespace Pseudo

/-- The name, and the argument as it stands between its parentheses. -/
def write (pseudo : Pseudo) : List Char :=
  Name.write pseudo.name.toList ++
    match pseudo.argument with
    | none => []
    | some argument => '(' :: argument.toList ++ [')']

end Pseudo

namespace TypeSelector

/-- `*`, or the tag's name. -/
def write : TypeSelector → List Char
  | universal => ['*']
  | tag name => Name.write name.toList

end TypeSelector

namespace SubclassSelector

/-- The condition behind its mark. -/
def write : SubclassSelector → List Char
  | id name => '#' :: Name.write name.toList
  | className name => '.' :: Name.write name.toList
  | .attribute selector => selector.write
  | pseudoClass pseudo => ':' :: pseudo.write
  | pseudoElement pseudo => ':' :: ':' :: pseudo.write

end SubclassSelector

namespace CompoundSelector

/-- The type selector and the conditions, without anything between them. -/
def write (compound : CompoundSelector) : List Char :=
  (match compound.type with
  | some type => type.write
  | none => if compound.subclasses.isEmpty then ['*'] else []) ++
    compound.subclasses.flatMap SubclassSelector.write

/-- The compound as a string. -/
def display (compound : CompoundSelector) : String :=
  String.ofList compound.write

end CompoundSelector

namespace Combinator

/-- What stands between two compounds: one space, or the symbol between spaces. -/
def write : Combinator → List Char
  | descendant => [' ']
  | combinator => ' ' :: combinator.symbol.toList ++ [' ']

end Combinator

namespace ComplexSelector

/-- The compounds with their combinators between them. -/
def write (selector : ComplexSelector) : List Char :=
  selector.head.write ++
    selector.tail.flatMap fun (combinator, compound) => combinator.write ++ compound.write

end ComplexSelector

namespace SelectorList

/-- The members with a comma and a space between them. -/
def writeMembers : List ComplexSelector → List Char
  | [] => []
  | [selector] => selector.write
  | selector :: others => selector.write ++ ',' :: ' ' :: writeMembers others

/-- The list as characters. -/
def write (list : SelectorList) : List Char :=
  writeMembers list.members

/-- The list as a string. -/
def display (list : SelectorList) : String :=
  String.ofList list.write

end SelectorList

end CssSelect
