import CssSelect.Json.Value
import CssSelect.Selector.Basic

/-!
Selectors as JSON values, one object a node of the selector's tree. Alternatives
are written as an object with a single member that names the alternative.
-/
namespace CssSelect

open Json (Value)

namespace CaseFlag

/-- The flag's name in the tree form of a selector. -/
def name : CaseFlag → String
  | ignoreCase => "AsciiInsensitive"
  | exact => "Sensitive"

end CaseFlag

namespace AttributeTest

/-- The test as an object. -/
def toJson (test : AttributeTest) : Value :=
  .object [("operator", .string test.operator.name), ("value", .string test.value),
    ("case", match test.flag with
      | none => .null
      | some flag => .string flag.name)]

end AttributeTest

namespace AttributeSelector

/-- The selector as an object. -/
def toJson (selector : AttributeSelector) : Value :=
  .object [("name", .string selector.name),
    ("matcher", match selector.test with
      | none => .null
      | some test => test.toJson)]

end AttributeSelector

namespace Pseudo

/-- The pseudo selector as an object. -/
def toJson (pseudo : Pseudo) : Value :=
  .object [("name", .string pseudo.name),
    ("argument", match pseudo.argument with
      | none => .null
      | some argument => .string argument)]

end Pseudo

namespace TypeSelector

/-- The type selector as a string or an object. -/
def toJson : TypeSelector → Value
  | universal => .string "Universal"
  | tag name => .object [("Tag", .string name)]

end TypeSelector

namespace SubclassSelector

/-- The condition as an object that names its kind. -/
def toJson : SubclassSelector → Value
  | id name => .object [("Id", .string name)]
  | className name => .object [("Class", .string name)]
  | .attribute selector => .object [("Attribute", selector.toJson)]
  | pseudoClass pseudo => .object [("PseudoClass", pseudo.toJson)]
  | pseudoElement pseudo => .object [("PseudoElement", pseudo.toJson)]

end SubclassSelector

namespace CompoundSelector

/-- The compound as an object. -/
def toJson (compound : CompoundSelector) : Value :=
  .object [("type_selector", match compound.type with
      | none => .null
      | some type => type.toJson),
    ("subclasses", .array (compound.subclasses.map SubclassSelector.toJson))]

end CompoundSelector

namespace ComplexSelector

/-- The complex selector as an object; its tail is an array of pairs. -/
def toJson (selector : ComplexSelector) : Value :=
  .object [("head", selector.head.toJson),
    ("tail", .array (selector.tail.map fun (combinator, compound) =>
      .array [.string combinator.name, compound.toJson]))]

end ComplexSelector

namespace SelectorList

/-- The list as an object. -/
def toJson (list : SelectorList) : Value :=
  .object [("selectors", .array (list.members.map ComplexSelector.toJson))]

end SelectorList

end CssSelect
