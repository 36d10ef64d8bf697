import CssSelect.Loop
import CssSelect.Query

/-!
Traces. A query tests one node after the other; its trace is made of the walks
of the nodes that it tested, in that order. The tested nodes are found again by
visiting nodes as the query does, up to the one that ended it.
-/
namespace CssSelect

variable {ν : Type} [BEq ν] [Hashable ν]

namespace SelectorList

/-- Whether a search ends with this node: at an error, and at a match if one is enough. -/
def endsAt (list : SelectorList) (view : View ν) (oneIsEnough : Bool) (node : ν) : Bool :=
  match list.test view node with
  | .error _ => true
  | .ok matched => matched && oneIsEnough

/-- The trace of testing nodes one after the other. -/
def traceOf (list : SelectorList) (view : View ν) (nodes : Array ν) : String :=
  nodes.foldl (fun trace node => trace ++ (list.walk view node).trace) ""

end SelectorList

namespace View

/-- Adds the next node that a search tests. -/
def retraceBelow (view : View ν) (ends : ν → Bool) :
    List ν × Array ν → (List ν × Array ν) ⊕ Array ν
  | (stack, tested) =>
    match view.next stack with
    | .ok (some (node, stack)) =>
      if ends node then .inr (tested.push node) else .inl (stack, tested.push node)
    | _ => .inr tested

/-- The nodes on a stack and below that a search tests. -/
def testedBelow (view : View ν) (ends : ν → Bool) (stack : List ν) : Array ν :=
  iterate (view.retraceBelow ends) (stack, #[])

/-- Adds the node that a search upwards has come to. -/
def retraceAbove (view : View ν) (ends : ν → Bool) : ν × Array ν → (ν × Array ν) ⊕ Array ν
  | (node, tested) =>
    if ends node then .inr (tested.push node)
    else
      match view.ask node (view.parent node) with
      | .ok (some parent) => .inl (parent, tested.push node)
      | _ => .inr (tested.push node)

/-- The node and its ancestors that a search upwards tests. -/
def testedAbove (view : View ν) (ends : ν → Bool) (node : ν) : Array ν :=
  iterate (view.retraceAbove ends) (node, #[])

/-- The trace of a query, once its selectors are read. -/
def traceQuery (view : View ν) (selectors : String) (tested : SelectorList → Array ν) : String :=
  match SelectorList.parse selectors with
  | .error _ => ""
  | .ok list => list.traceOf view (tested list)

/-- The trace of a search among the descendants of a root. -/
def traceSearch (view : View ν) (root : ν) (oneIsEnough : Bool) (selectors : String) : String :=
  view.traceQuery selectors fun list =>
    match view.startAt root false with
    | .error _ => #[]
    | .ok stack => view.testedBelow (list.endsAt view oneIsEnough) stack

/-- The trace of testing a single node. -/
def traceIsMatch (view : View ν) (node : ν) (selectors : String) : String :=
  view.traceQuery selectors fun _ => #[node]

/-- The trace of a search upwards. -/
def traceClosest (view : View ν) (node : ν) (selectors : String) : String :=
  view.traceQuery selectors fun list => view.testedAbove (list.endsAt view true) node

/-- The trace of a step across a combinator. -/
def traceCollect (view : View ν) (combinator : Combinator) (candidates : List ν) : String :=
  match view.collect combinator candidates with
  | .error _ => ""
  | .ok found => Stage.collectLine combinator candidates.length found.length

end View

end CssSelect
