import CssSelect.Matching.Complex
import CssSelect.Selector.Parser
import CssSelect.Traversal

/-!
Queries. Each reads its selector text first, so a text that is no selector is
reported whatever the tree. A search visits the descendants of its root in
preorder, tests each when it comes to it, and stops at the first that cannot be
decided.
-/
namespace CssSelect

/-- Why a query has no answer. -/
inductive QueryError where
  | selector (error : SyntaxError)
  | evaluation (halt : Halt)
  deriving DecidableEq, Repr

namespace QueryError

/-- The cause in words. -/
def message : QueryError → String
  | selector error => error.message
  | evaluation halt => halt.message

/-- The outcome of an evaluation as the outcome of a query. -/
def ofEvaluation {α : Type} : Except Halt α → Except QueryError α
  | .ok value => .ok value
  | .error halt => .error (.evaluation halt)

end QueryError

namespace View

variable {ν : Type} [BEq ν] [Hashable ν]

/-- Visits the next node of a search that ends at the first match. -/
def seekFirst (view : View ν) (list : SelectorList) (stack : List ν) :
    Except Halt (List ν ⊕ Option ν) :=
  match view.next stack with
  | .error halt => .error halt
  | .ok none => .ok (.inr none)
  | .ok (some (node, stack)) =>
    match list.test view node with
    | .error halt => .error halt
    | .ok true => .ok (.inr (some node))
    | .ok false => .ok (.inl stack)

/-- Visits the nodes on a stack and below until one is matched. -/
def findFirst (view : View ν) (list : SelectorList) (stack : List ν) : Except Halt (Option ν) :=
  repeatM (view.seekFirst list) stack

/-- Visits the next node of a search that finds all matches. -/
def seekAll (view : View ν) (list : SelectorList) :
    List ν × Array ν → Except Halt ((List ν × Array ν) ⊕ Array ν)
  | (stack, found) =>
    match view.next stack with
    | .error halt => .error halt
    | .ok none => .ok (.inr found)
    | .ok (some (node, stack)) =>
      match list.test view node with
      | .error halt => .error halt
      | .ok true => .ok (.inl (stack, found.push node))
      | .ok false => .ok (.inl (stack, found))

/-- Visits the nodes on a stack and below, and adds the matched ones to `found`. -/
def findAll (view : View ν) (list : SelectorList) (stack : List ν) (found : Array ν) :
    Except Halt (Array ν) :=
  repeatM (view.seekAll list) (stack, found)

/-- Tests a node and goes on to its parent if it is not matched. -/
def seekUp (view : View ν) (list : SelectorList) (node : ν) : Except Halt (ν ⊕ Option ν) :=
  match list.test view node with
  | .error halt => .error halt
  | .ok true => .ok (.inr (some node))
  | .ok false =>
    match view.ask node (view.parent node) with
    | .error halt => .error halt
    | .ok none => .ok (.inr none)
    | .ok (some parent) => .ok (.inl parent)

/-- Tests a node and its ancestors, nearest first, until one is matched. -/
def findUp (view : View ν) (list : SelectorList) (node : ν) : Except Halt (Option ν) :=
  repeatM (view.seekUp list) node

/-- The first descendant of the root that the list matches. -/
def firstMatch (view : View ν) (root : ν) (list : SelectorList) : Except Halt (Option ν) :=
  match view.startAt root false with
  | .error halt => .error halt
  | .ok stack => view.findFirst list stack

/-- The descendants of the root that the list matches, in preorder. -/
def allMatches (view : View ν) (root : ν) (list : SelectorList) : Except Halt (List ν) :=
  match view.startAt root false with
  | .error halt => .error halt
  | .ok stack =>
    match view.findAll list stack #[] with
    | .error halt => .error halt
    | .ok found => .ok found.toList

/-- The nearest among a node and its ancestors that the list matches. -/
def closestMatch (view : View ν) (node : ν) (list : SelectorList) : Except Halt (Option ν) :=
  view.findUp list node

/-- Evaluates what a selector text stands for. -/
def query {α : Type} (selectors : String) (evaluate : SelectorList → Except Halt α) :
    Except QueryError α :=
  match SelectorList.parse selectors with
  | .error error => .error (.selector error)
  | .ok list => QueryError.ofEvaluation (evaluate list)

/-- The first descendant of `root`, in preorder, that is matched; the root is none of them. -/
def select (view : View ν) (root : ν) (selectors : String) : Except QueryError (Option ν) :=
  query selectors (view.firstMatch root)

/-- Every descendant of `root` that is matched, in preorder. -/
def selectAll (view : View ν) (root : ν) (selectors : String) : Except QueryError (List ν) :=
  query selectors (view.allMatches root)

/-- Whether `node` itself is matched. -/
def isMatch (view : View ν) (node : ν) (selectors : String) : Except QueryError Bool :=
  query selectors fun list => list.test view node

/-- The nearest among `node` and its ancestors that is matched. -/
def closest (view : View ν) (node : ν) (selectors : String) : Except QueryError (Option ν) :=
  query selectors (view.closestMatch node)

end View

end CssSelect
