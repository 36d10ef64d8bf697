/-!
What the engine knows of a tree: nine questions about a node, answered by
whoever owns the tree. The engine changes nothing and checks nothing; parents,
children and siblings may disagree or run in circles.

A view may cover some values of its node type only. Asking about another value
ends a query with `unknownNode`. Nothing bounds a walk along its links; one that has no
end in the tree has none in the engine either.
-/
namespace CssSelect

/-- Read-only access to a tree whose nodes are named by values of type `ν`. -/
structure View (ν : Type) where
  /-- Whether the view can be asked about this value at all. -/
  knows : ν → Bool
  tagName : ν → Option String
  content : ν → Option String
  id : ν → Option String
  hasClass : ν → String → Bool
  attributeValue : ν → String → Option String
  parent : ν → Option ν
  children : ν → List ν
  previousSibling : ν → Option ν
  nextSibling : ν → Option ν

/-- What ends the evaluation of a selector without an answer. -/
inductive Halt where
  | columnCombinator
  | unknownNode
  deriving DecidableEq, Repr

namespace Halt

/-- The cause in words. -/
def message : Halt → String
  | columnCombinator => "unsupported selector feature: column combinator (||)"
  | unknownNode => "unknown node"

end Halt

namespace View

/-- The answer to a question about a node, if the view can be asked about it. -/
def ask {ν α : Type} (view : View ν) (node : ν) (answer : α) : Except Halt α :=
  if view.knows node then .ok answer else .error .unknownNode

end View

end CssSelect
