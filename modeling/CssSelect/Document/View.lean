import CssSelect.Document.Tree
import CssSelect.Loop
import CssSelect.View

/-!
Documents as the engine sees them: elements only. The document itself, texts and
comments are skipped among parents, children and siblings, so that no combinator
leads to one of them. Positions without a node have no links and no properties.
-/
namespace CssSelect.Tree

/-- Goes on to the next node, if there is one and this is no element. -/
def passOver (tree : Tree) (step : NodeId → Option NodeId) :
    Option NodeId → Option NodeId ⊕ Option NodeId
  | none => .inr none
  | some id => if tree.isElement id then .inr (some id) else .inl (step id)

/-- The first element met by taking a step again and again. -/
def firstElement (tree : Tree) (step : NodeId → Option NodeId) (start : Option NodeId) :
    Option NodeId :=
  iterate (tree.passOver step) start

/-- The nearest element before a node among its siblings. -/
def previousElement? (tree : Tree) (id : NodeId) : Option NodeId :=
  tree.firstElement tree.previous? (tree.previous? id)

/-- The nearest element after a node among its siblings. -/
def nextElement? (tree : Tree) (id : NodeId) : Option NodeId :=
  tree.firstElement tree.next? (tree.next? id)

/-- The parent of a node, if it is an element. -/
def parentElement? (tree : Tree) (id : NodeId) : Option NodeId :=
  (tree.parent? id).filter tree.isElement

/-- The elements among the children of a node. -/
def childElements (tree : Tree) (id : NodeId) : List NodeId :=
  (tree.children id).filter tree.isElement

/-- The elements of the tree. -/
def view (tree : Tree) : View NodeId where
  knows _ := true
  tagName id := (tree.element? id).map Element.tag
  content := tree.ownText?
  id id := (tree.element? id).bind Element.id?
  hasClass id name := (tree.element? id).any (Element.hasClass · name)
  attributeValue id name := (tree.element? id).bind fun element => element.attributes.get? name
  parent := tree.parentElement?
  children := tree.childElements
  previousSibling := tree.previousElement?
  nextSibling := tree.nextElement?

end CssSelect.Tree
