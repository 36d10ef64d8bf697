import CssSelect.Matching.Compound
import CssSelect.Matching.Collect
import CssSelect.Selector.Printer

/-!
Complex selectors from right to left. A set of candidates starts with the node in
question; each compound filters it and the combinator on its left steps the
survivors on. The node is matched if the head meets a candidate in the end.

A `Walk` keeps the stages that were taken beside the outcome, which is what a
match trace shows.
-/
namespace CssSelect

variable {ν : Type} [BEq ν] [Hashable ν]

/-- A compound was met by `before` candidates, from which a combinator led to `after` nodes. -/
structure Stage where
  compound : CompoundSelector
  combinator : Combinator
  before : Nat
  after : Nat
  deriving DecidableEq, Repr

namespace Stage

/-- The trace line of a step across a combinator. -/
def collectLine (combinator : Combinator) (before after : Nat) : String :=
  s!"[MATCH] collect {combinator.name}: {before} candidates -> {after} nodes\n"

/-- The trace lines of a stage. -/
def lines (stage : Stage) : String :=
  collectLine stage.combinator stage.before stage.after ++
    s!"[MATCH] '{stage.compound.display}' then {stage.combinator.name}: {stage.after} candidates\n"

end Stage

/-- The stages of a match and how it ended. -/
structure Walk where
  stages : List Stage
  outcome : Except Halt Bool

namespace Walk

/-- A walk that takes no stage. -/
def ending (outcome : Except Halt Bool) : Walk :=
  ⟨[], outcome⟩

/-- A walk with a stage in front. -/
def after (stage : Stage) (walk : Walk) : Walk :=
  ⟨stage :: walk.stages, walk.outcome⟩

/-- The trace of a walk. -/
def trace (walk : Walk) : String :=
  String.join (walk.stages.map Stage.lines)

end Walk

namespace ComplexSelector

/-- Matches the compounds left of the candidates; the nearest comes first in `joined`. -/
def walkLeft (view : View ν) (head : CompoundSelector) :
    List (Combinator × CompoundSelector) → List ν → Walk
  | [], candidates => .ending (head.testAny view candidates)
  | (combinator, compound) :: joined, candidates =>
    match compound.keep view candidates with
    | .error halt => .ending (.error halt)
    | .ok [] => .ending (.ok false)
    | .ok kept =>
      match view.collect combinator kept with
      | .error halt => .ending (.error halt)
      | .ok next =>
        (walkLeft view head joined next).after ⟨compound, combinator, kept.length, next.length⟩

/-- The walk that decides whether a node is matched. -/
def walk (selector : ComplexSelector) (view : View ν) (node : ν) : Walk :=
  walkLeft view selector.head selector.tail.reverse [node]

/-- Whether a node is matched. -/
def test (selector : ComplexSelector) (view : View ν) (node : ν) : Except Halt Bool :=
  (selector.walk view node).outcome

end ComplexSelector

namespace SelectorList

/-- The members' walks from left to right, up to the first that does not end in `false`. -/
def walkMembers (view : View ν) (node : ν) : List ComplexSelector → Walk
  | [] => .ending (.ok false)
  | selector :: others =>
    let walk := selector.walk view node
    match walk.outcome with
    | .ok false =>
      let rest := walkMembers view node others
      ⟨walk.stages ++ rest.stages, rest.outcome⟩
    | _ => walk

/-- The walk that decides whether a node is matched by some member. -/
def walk (list : SelectorList) (view : View ν) (node : ν) : Walk :=
  walkMembers view node list.members

/-- Whether a node is matched by some member. -/
def test (list : SelectorList) (view : View ν) (node : ν) : Except Halt Bool :=
  (list.walk view node).outcome

end SelectorList

end CssSelect
