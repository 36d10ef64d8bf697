import CssSelect.Document.Attributes
import CssSelect.Text.Ascii

/-!
Document trees. All nodes stand in one array and refer to each other by their
position in it; position 0 holds the document itself. A node keeps its parent,
its children and its two siblings, and appending a child updates all of them.

Appending does not take the child from where it was before: an earlier parent
keeps it among its children, and earlier siblings keep their links to it.
-/
namespace CssSelect

/-- The position of a node in its tree. -/
abbrev NodeId := Nat

/-- An element's tag and attributes. -/
structure Element where
  tag : String
  attributes : Attributes

namespace Element

/-- The value of the attribute `id`. -/
def id? (element : Element) : Option String :=
  element.attributes.get? "id"

/-- Whether a name is one of the words of the attribute `class`. -/
def hasClass (element : Element) (name : String) : Bool :=
  match element.attributes.get? "class" with
  | none => false
  | some names => (Text.words names.toList).contains name.toList

end Element

/-- What a node is. -/
inductive NodeKind where
  | document
  | element (element : Element)
  | text (content : String)
  | comment (content : String)

/-- A node with its links. -/
structure Node where
  kind : NodeKind
  parent : Option NodeId
  children : Array NodeId
  previous : Option NodeId
  next : Option NodeId

namespace Node

/-- A node without links. -/
def detached (kind : NodeKind) : Node :=
  ⟨kind, none, #[], none, none⟩

end Node

/-- Nodes by position. -/
structure Tree where
  nodes : Array Node

namespace Tree

/-- The tree that holds nothing but the document. -/
def empty : Tree :=
  ⟨#[.detached .document]⟩

/-- The position of the document. -/
def root : NodeId :=
  0

/-- How many nodes there are, the document included. -/
def size (tree : Tree) : Nat :=
  tree.nodes.size

/-- The node at a position. -/
def get? (tree : Tree) (id : NodeId) : Option Node :=
  tree.nodes[id]?

/-! ## Building -/

/-- Adds a node without links; it stands behind all others. -/
def alloc (tree : Tree) (kind : NodeKind) : NodeId × Tree :=
  (tree.size, ⟨tree.nodes.push (.detached kind)⟩)

/-- Changes the node at a position. -/
def update (tree : Tree) (id : NodeId) (change : Node → Node) : Tree :=
  ⟨tree.nodes.modify id change⟩

/-- Makes two nodes neighbours. -/
def linkSiblings (tree : Tree) (before after : NodeId) : Tree :=
  (tree.update before fun node => { node with next := some after }).update after
    fun node => { node with previous := some before }

/-- Makes a node the last child of another. Both are taken to exist. -/
def link (tree : Tree) (parent child : NodeId) : Tree :=
  let last := (tree.get? parent).bind fun node => node.children.back?
  let linked :=
    (tree.update parent fun node => { node with children := node.children.push child }).update
      child fun node => { node with parent := some parent }
  match last with
  | none => linked
  | some before => linked.linkSiblings before child

/-- Makes a node the last child of another; `none` if one of them does not exist. -/
def appendChild? (tree : Tree) (parent child : NodeId) : Option Tree :=
  if parent < tree.size && child < tree.size then some (tree.link parent child) else none

/-- Adds a node as the last child of another, which is taken to exist. -/
def append (tree : Tree) (parent : NodeId) (kind : NodeKind) : NodeId × Tree :=
  let (id, grown) := tree.alloc kind
  (id, grown.link parent id)

/-- Adds a node as the last child of another; `none` if that does not exist. The new node
exists by then, so it may be put under itself. -/
def append? (tree : Tree) (parent : NodeId) (kind : NodeKind) : Option (NodeId × Tree) :=
  let (id, grown) := tree.alloc kind
  (grown.appendChild? parent id).map fun linked => (id, linked)

/-! ## Links and contents -/

/-- The parent of a node. -/
def parent? (tree : Tree) (id : NodeId) : Option NodeId :=
  (tree.get? id).bind Node.parent

/-- The children of a node; none if it does not exist. -/
def children (tree : Tree) (id : NodeId) : List NodeId :=
  match tree.get? id with
  | none => []
  | some node => node.children.toList

/-- The sibling right before a node. -/
def previous? (tree : Tree) (id : NodeId) : Option NodeId :=
  (tree.get? id).bind Node.previous

/-- The sibling right after a node. -/
def next? (tree : Tree) (id : NodeId) : Option NodeId :=
  (tree.get? id).bind Node.next

/-- The element at a position, if it is one. -/
def element? (tree : Tree) (id : NodeId) : Option Element :=
  match tree.get? id with
  | some { kind := .element element, .. } => some element
  | _ => none

/-- The content of the text at a position, if it is one. -/
def text? (tree : Tree) (id : NodeId) : Option String :=
  match tree.get? id with
  | some { kind := .text content, .. } => some content
  | _ => none

/-- Whether an element stands at a position. -/
def isElement (tree : Tree) (id : NodeId) : Bool :=
  (tree.element? id).isSome

/-- The nodes met by taking a step again and again, at most `limit` of them. -/
def follow (step : NodeId → Option NodeId) : Nat → Option NodeId → List NodeId
  | limit + 1, some id => id :: follow step limit (step id)
  | _, _ => []

/-- The ancestors of a node, nearest first, at most `limit` of them. -/
def ancestors (tree : Tree) (id : NodeId) (limit : Nat) : List NodeId :=
  follow tree.parent? limit (tree.parent? id)

/-- The siblings before a node, nearest first, at most `limit` of them. -/
def precedingSiblings (tree : Tree) (id : NodeId) (limit : Nat) : List NodeId :=
  follow tree.previous? limit (tree.previous? id)

/-- The siblings after a node, nearest first, at most `limit` of them. -/
def followingSiblings (tree : Tree) (id : NodeId) (limit : Nat) : List NodeId :=
  follow tree.next? limit (tree.next? id)

/-- The texts among a node's children, joined; `none` if there is no text among them. -/
def ownText? (tree : Tree) (id : NodeId) : Option String :=
  match (tree.children id).filterMap tree.text? with
  | [] => none
  | texts => some (String.join texts)

/-- The place of a node among the children of its parent. -/
def placeInParent? (tree : Tree) (id : NodeId) : Option Nat :=
  (tree.parent? id).bind fun parent => (tree.children parent).idxOf? id

/-- The places of a node and its ancestors, from the top. A node that its parent does not
list is left out. -/
def places (tree : Tree) (id : NodeId) : List Nat :=
  ((id :: tree.ancestors id tree.size).filterMap tree.placeInParent?).reverse

/-- Places as text, each behind a slash. -/
def writePlaces (places : List Nat) : String :=
  String.join (places.map fun place => s!"/{place}")

/-- The path of a node: its places, or a lone slash if there are none. -/
def path (tree : Tree) (id : NodeId) : String :=
  match tree.places id with
  | [] => "/"
  | places => writePlaces places

end Tree

end CssSelect
