import CssSelect.Document.Tree

/-!
Document trees as text: one line a node, each level indented by two blanks. A line
feed in a text is written as an escape; all else is written as it is.
-/
namespace CssSelect

namespace Attributes

/-- The attributes behind a tag. An attribute without a value is written as its name. -/
def write (attributes : Attributes) : String :=
  String.join (attributes.entries.map fun (name, value) =>
    if value.isEmpty then s!" {name}" else s!" {name}=\"{value}\"")

end Attributes

namespace NodeKind

/-- What is printed for a node itself. -/
def write : NodeKind → String
  | .document => "#document"
  | .element data => s!"<{data.tag}{data.attributes.write}>"
  | .text content =>
    let escaped := String.ofList (Text.replaceChar '\n' ['\\', 'n'] content.toList)
    s!"\"{escaped}\""
  | .comment content => s!"<!-- {content} -->"

end NodeKind

namespace Tree

/-- The lines of a node and its descendants, `levels` deep at most, behind those printed so far. -/
def printFrom (tree : Tree) : Nat → NodeId → Nat → String → String
  | 0, _, _, printed => printed
  | levels + 1, id, indent, printed =>
    match tree.get? id with
    | none => printed
    | some node =>
      node.children.foldl (fun printed child => tree.printFrom levels child (indent + 1) printed)
        (printed ++ String.ofList (List.replicate (2 * indent) ' ') ++ node.kind.write ++ "\n")

/-- The printed form of a node and its descendants. No path without a repetition is longer
than the tree has nodes. -/
def print (tree : Tree) (id : NodeId) (indent : Nat) : String :=
  tree.printFrom tree.size id indent ""

/-- The most blanks that fit into memory before a line. -/
def marginLimit : Nat :=
  9223372036854775807

/-- The printed form; `none` if the blanks before its first line would not fit, which is
asked even if there is no such line. -/
def print? (tree : Tree) (id : NodeId) (indent : Nat) : Option String :=
  if 2 * indent ≤ marginLimit then some (tree.print id indent) else none

end Tree

end CssSelect
