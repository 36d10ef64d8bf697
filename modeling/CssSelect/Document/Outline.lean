import CssSelect.Json.Value

/-!
Documents as they are written: a text is a string, and an element is an object
with a tag, attributes and children, of which the last two may be missing. Other
members are ignored. A document is one node or an array of nodes.
-/
namespace CssSelect

open Json (Value)

/-- A node of a document as it is written, with its attributes in the order of the text. -/
inductive Outline where
  | text (content : String)
  | element (tag : String) (attributes : List (String × String)) (children : List Outline)

namespace Outline

/-- The members of an element that have been read. -/
structure Draft where
  tag : Option String
  attributes : Option (List (String × String))
  children : Option (List Outline)

/-- The element of a draft; it has to have a tag. -/
def Draft.finish? (draft : Draft) : Option Outline :=
  draft.tag.map fun tag => .element tag (draft.attributes.getD []) (draft.children.getD [])

/-- The members of an object whose values are all strings. -/
def strings? : List (String × Value) → Option (List (String × String))
  | [] => some []
  | (name, .string value) :: members => (strings? members).map ((name, value) :: ·)
  | _ :: _ => none

mutual

/-- The node that a value describes. -/
def ofValue? : Value → Option Outline
  | .string content => some (.text content)
  | .object members => (draft? members).bind Draft.finish?
  | _ => none

/-- The nodes that values describe. -/
def ofValues? : List Value → Option (List Outline)
  | [] => some []
  | value :: values =>
    match ofValue? value, ofValues? values with
    | some node, some nodes => some (node :: nodes)
    | _, _ => none

/-- The draft that an object's members make. None of the three may come twice. -/
def draft? : List (String × Value) → Option Draft
  | [] => some ⟨none, none, none⟩
  | (name, value) :: members =>
    match draft? members with
    | none => none
    | some draft =>
      if name == "tag" then
        match draft.tag, value with
        | none, .string tag => some { draft with tag := some tag }
        | _, _ => none
      else if name == "attrs" then
        match draft.attributes, value with
        | none, .object entries =>
          (strings? entries).map fun entries => { draft with attributes := some entries }
        | _, _ => none
      else if name == "children" then
        match draft.children, value with
        | none, .array values =>
          (ofValues? values).map fun nodes => { draft with children := some nodes }
        | _, _ => none
      else some draft

end

/-- The top-level nodes of the document that a value describes. -/
def ofDocument? : Value → Option (List Outline)
  | .array values => ofValues? values
  | value => (ofValue? value).map fun node => [node]

end Outline

end CssSelect
