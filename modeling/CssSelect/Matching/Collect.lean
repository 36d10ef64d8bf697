import Std.Data.HashSet
import CssSelect.Selector.Basic
import CssSelect.View

/-!
From the nodes on the right of a combinator to those on its left. Each node is
collected once, at the place where it is first seen. A walk along parents or
siblings stops at a node that has been seen: what lies behind it has been
collected with it. So a walk ends even where links run in circles.
-/
namespace CssSelect

variable {ν : Type} [BEq ν] [Hashable ν]

/-- Nodes collected so far, in order, and the same nodes as a set. -/
structure Harvest (ν : Type) [BEq ν] [Hashable ν] where
  seen : Std.HashSet ν
  found : Array ν

namespace Harvest

/-- Nothing collected yet. -/
def empty : Harvest ν :=
  ⟨∅, #[]⟩

instance : Nonempty (Harvest ν) :=
  ⟨empty⟩

/-- Collects a node that has not been seen. -/
def add (harvest : Harvest ν) (node : ν) : Harvest ν :=
  ⟨harvest.seen.insert node, harvest.found.push node⟩

end Harvest

namespace View

/-- Collects the node one step from `node`, if it is new. -/
def collectNext (view : View ν) (step : ν → Option ν) (harvest : Harvest ν) (node : ν) :
    Except Halt (Harvest ν) :=
  match view.ask node (step node) with
  | .error halt => .error halt
  | .ok none => .ok harvest
  | .ok (some next) => .ok (if harvest.seen.contains next then harvest else harvest.add next)

/-- Goes on to the next node if it has not been seen; else the walk is over. -/
def walkOn (view : View ν) (step : ν → Option ν) :
    Harvest ν × ν → Except Halt ((Harvest ν × ν) ⊕ Harvest ν)
  | (harvest, node) =>
    match view.ask node (step node) with
    | .error halt => .error halt
    | .ok none => .ok (.inr harvest)
    | .ok (some next) =>
      .ok (if harvest.seen.contains next then .inr harvest else .inl (harvest.add next, next))

/-- Collects the nodes one, two, three and more steps from `node`, up to one that has been seen. -/
def collectAlong (view : View ν) (step : ν → Option ν) (harvest : Harvest ν) (node : ν) :
    Except Halt (Harvest ν) :=
  repeatM (view.walkOn step) (harvest, node)

/-- Collects from one candidate after the other. -/
def collectEach (collect : Harvest ν → ν → Except Halt (Harvest ν)) :
    Harvest ν → List ν → Except Halt (Harvest ν)
  | harvest, [] => .ok harvest
  | harvest, node :: nodes =>
    match collect harvest node with
    | .error halt => .error halt
    | .ok harvest => collectEach collect harvest nodes

/-- Collects across a combinator that has a meaning. -/
def harvest (view : View ν) (candidates : List ν) : Combinator → Except Halt (Harvest ν)
  | .descendant => collectEach (view.collectAlong view.parent) .empty candidates
  | .child => collectEach (view.collectNext view.parent) .empty candidates
  | .nextSibling => collectEach (view.collectNext view.previousSibling) .empty candidates
  | .subsequentSibling => collectEach (view.collectAlong view.previousSibling) .empty candidates
  | .column => .error .columnCombinator

/-- The nodes that can stand on the left of a combinator when a candidate stands on its right:
ancestors, parents, preceding siblings, or the sibling right before. -/
def collect (view : View ν) (combinator : Combinator) (candidates : List ν) :
    Except Halt (List ν) :=
  match view.harvest candidates combinator with
  | .error halt => .error halt
  | .ok harvest => .ok harvest.found.toList

end View

end CssSelect
