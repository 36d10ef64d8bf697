import CssSelect.Selector.Operator

/-!
The tree of a selector. A list holds complex selectors; a complex selector is a
head compound followed by compounds that combinators join to it; a compound
states conditions on a single node.
-/
namespace CssSelect

/-- The flag behind an attribute test's value. -/
inductive CaseFlag where
  | ignoreCase
  | exact
  deriving DecidableEq, Repr

/-- The part of an attribute selector that looks at the value. -/
structure AttributeTest where
  operator : AttributeOperator
  value : String
  flag : Option CaseFlag
  deriving DecidableEq, Repr

/-- `[name]`, or `[name op "value" flag]`. Without a test the attribute only has to be there. -/
structure AttributeSelector where
  name : String
  test : Option AttributeTest
  deriving DecidableEq, Repr

/-- The name of a pseudo-class or pseudo-element and the text between its parentheses. -/
structure Pseudo where
  name : String
  argument : Option String
  deriving DecidableEq, Repr

/-- The part of a compound that names a tag. -/
inductive TypeSelector where
  | universal
  | tag (name : String)
  deriving DecidableEq, Repr

/-- A condition on a node other than its tag. -/
inductive SubclassSelector where
  | id (name : String)
  | className (name : String)
  | attribute (selector : AttributeSelector)
  | pseudoClass (pseudo : Pseudo)
  | pseudoElement (pseudo : Pseudo)
  deriving DecidableEq, Repr

/-- Conditions that one node has to meet together. -/
structure CompoundSelector where
  type : Option TypeSelector
  subclasses : List SubclassSelector
  deriving DecidableEq, Repr

namespace CompoundSelector

/-- Whether the compound states no condition at all. -/
def isUniversal (compound : CompoundSelector) : Bool :=
  compound.subclasses.isEmpty &&
    match compound.type with
    | none | some .universal => true
    | some (.tag _) => false

end CompoundSelector

/-- How the node of the compound on the right is related to the one on the left. -/
inductive Combinator where
  | descendant
  | child
  | nextSibling
  | subsequentSibling
  | column
  deriving DecidableEq, Repr

namespace Combinator

/-- All combinators, in the order in which they are listed. -/
def all : List Combinator :=
  [descendant, child, nextSibling, subsequentSibling, column]

/-- The combinator as it is written between two compounds. -/
def symbol : Combinator → String
  | descendant => " "
  | child => ">"
  | nextSibling => "+"
  | subsequentSibling => "~"
  | column => "||"

/-- The combinator's name in the tree form of a selector. -/
def name : Combinator → String
  | descendant => "Descendant"
  | child => "Child"
  | nextSibling => "NextSibling"
  | subsequentSibling => "SubsequentSibling"
  | column => "Column"

end Combinator

/-- Compounds joined by combinators, from left to right as they are written. -/
structure ComplexSelector where
  head : CompoundSelector
  tail : List (Combinator × CompoundSelector)
  deriving DecidableEq, Repr

namespace ComplexSelector

/-- The rightmost compound: the one that states what the matched node itself is. -/
def subject (selector : ComplexSelector) : CompoundSelector :=
  match selector.tail.getLast? with
  | none => selector.head
  | some (_, compound) => compound

end ComplexSelector

/-- Alternatives: a node is matched if one member matches it. -/
structure SelectorList where
  members : List ComplexSelector
  deriving DecidableEq, Repr

end CssSelect
