import CssSelect.View

/-!
Trees in preorder. The nodes still to come stand on a stack, the next one on
top. Taking a node replaces it by its children, so a node comes before its
descendants, and these before the siblings behind it.
-/
namespace CssSelect.View

variable {ν : Type}

/-- The stack that a traversal of `root` starts with: its children, or the root itself. -/
def startAt (view : View ν) (root : ν) (includeRoot : Bool) : Except Halt (List ν) :=
  if includeRoot then .ok [root] else view.ask root (view.children root)

/-- The next node and the stack behind it. The view is asked for the node's children first. -/
def next (view : View ν) : List ν → Except Halt (Option (ν × List ν))
  | [] => .ok none
  | node :: stack =>
    match view.ask node (view.children node) with
    | .error halt => .error halt
    | .ok children => .ok (some (node, children ++ stack))

/-- Adds up to `limit` more nodes to those visited. -/
def visit (view : View ν) : Nat → List ν → Array ν → Except Halt (Array ν)
  | 0, _, visited => .ok visited
  | limit + 1, stack, visited =>
    match view.next stack with
    | .error halt => .error halt
    | .ok none => .ok visited
    | .ok (some (node, stack)) => view.visit limit stack (visited.push node)

/-- The first `limit` nodes of a traversal. -/
def traverse (view : View ν) (root : ν) (includeRoot : Bool) (limit : Nat) :
    Except Halt (List ν) :=
  match view.startAt root includeRoot with
  | .error halt => .error halt
  | .ok stack =>
    match view.visit limit stack #[] with
    | .error halt => .error halt
    | .ok visited => .ok visited.toList

end CssSelect.View
