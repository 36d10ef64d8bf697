import CssSelect.Document.Outline
import CssSelect.Document.Tree
import CssSelect.Json.Reader
import CssSelect.Text.Blank

/-!
Loading documents. Nodes are added in document order, so a node's position is its
place in that order. Tags lose the white space at their ends, and the first
element in document order that has no tag left is reported with its place.

Of several things wrong with a text, a fault in its first JSON value comes first,
then the shape of that value, then what stands behind it, then empty tags.
-/
namespace CssSelect

/-- Why a text is no document. -/
inductive LoadError where
  | json (fault : Json.Fault)
  | shape
  | emptyTag (places : List Nat)
  deriving DecidableEq, Repr

namespace LoadError

/-- What is wrong with the JSON, in words. -/
def jsonMessage : Json.Fault → String
  | .malformed => "malformed JSON"
  | .endOfText => "unexpected end of JSON"

/-- What is wrong with a value that is no document, in words. -/
def shapeMessage : String :=
  "data did not match any variant of untagged enum JsonDocument"

/-- The cause behind the error, if it has one of its own. -/
def source? : LoadError → Option String
  | json fault => some (jsonMessage fault)
  | shape => some shapeMessage
  | emptyTag _ => none

/-- The error in words. -/
def message : LoadError → String
  | json fault => s!"invalid document JSON: {jsonMessage fault}"
  | shape => s!"invalid document JSON: {shapeMessage}"
  | emptyTag places => s!"element at {Tree.writePlaces places} has an empty tag name"

end LoadError

namespace Tree

mutual

/-- Adds a node and all below it as the last child of `parent`. `above` are the places of
the node and its ancestors, from the bottom. -/
def insert (tree : Tree) (parent : NodeId) (above : List Nat) : Outline → Except LoadError Tree
  | .text content => .ok (tree.append parent (.text content)).2
  | .element tag attributes children =>
    let name := Text.trimString tag
    if name.isEmpty then .error (.emptyTag above.reverse)
    else
      let (id, grown) := tree.append parent (.element ⟨name, .ofList attributes⟩)
      grown.insertAll id above 0 children

/-- Adds nodes one after the other; the first of them has the place `place`. -/
def insertAll (tree : Tree) (parent : NodeId) (above : List Nat) (place : Nat) :
    List Outline → Except LoadError Tree
  | [] => .ok tree
  | outline :: outlines =>
    match tree.insert parent (place :: above) outline with
    | .error error => .error error
    | .ok grown => grown.insertAll parent above (place + 1) outlines

end

/-- The tree of a document with the given top-level nodes. -/
def ofOutlines (outlines : List Outline) : Except LoadError Tree :=
  empty.insertAll root [] 0 outlines

/-- The tree of a document text. -/
def load (text : String) : Except LoadError Tree :=
  match Json.read text.toList with
  | .error fault => .error (.json fault)
  | .ok (value, rest) =>
    match Outline.ofDocument? value with
    | none => .error .shape
    | some outlines =>
      match Json.skipBlanks rest with
      | [] => ofOutlines outlines
      | _ :: _ => .error (.json .malformed)

end Tree

end CssSelect
