import CssSelect.Proofs.Document.Listing
import CssSelect.Proofs.Document.Loaded

/-!
Attributes that are set one after the other. Of what is set only the last value of each name is
left, so documents and sequences of calls that agree in these values make the same tree.
-/
namespace CssSelect

/-- Each name has the same last value, or none, among the settings of both lists. -/
def SameLastValues (settings others : List (String × String)) : Prop :=
  ∀ name, settings.reverse.lookup name = others.reverse.lookup name

theorem Attributes.ofList_eq_iff {settings others : List (String × String)} :
    ofList settings = ofList others ↔ SameLastValues settings others := by
  constructor
  · intro same name
    rw [← get?_ofList, ← get?_ofList, same]
  · intro same
    exact ext_get? fun name => by rw [get?_ofList, get?_ofList, same]

/-! ## Documents -/

/-- The nodes of two forests are the same but for the settings of their attributes, of which only
the last values agree. -/
inductive Outline.Rearranged : List Outline → List Outline → Prop
  | nil : Rearranged [] []
  | text (content : String) {behind others : List Outline} (rest : Rearranged behind others) :
      Rearranged (.text content :: behind) (.text content :: others)
  | element (tag : String) {settings otherSettings : List (String × String)}
      {children otherChildren behind others : List Outline}
      (same : SameLastValues settings otherSettings) (inner : Rearranged children otherChildren)
      (rest : Rearranged behind others) :
      Rearranged (.element tag settings children :: behind)
        (.element tag otherSettings otherChildren :: others)

namespace Tree

open Outline (Rearranged elementOf)

theorem insertAll_rearranged {forest other : List Outline} (rearranged : Rearranged forest other)
    (tree : Tree) (parent : NodeId) (above : List Nat) (place : Nat) :
    tree.insertAll parent above place forest = tree.insertAll parent above place other := by
  induction rearranged generalizing tree parent above place with
  | nil => rfl
  | text content rest ih => rw [insertAll_text, insertAll_text, ih]
  | element tag same inner rest ihInner ihRest =>
    have element := congrArg (Element.mk (Text.trimString tag)) (Attributes.ofList_eq_iff.mpr same)
    rw [insertAll_element, insertAll_element, elementOf, element, ihInner]
    simp only [ihRest]
    rfl

/-- Such documents have the same tree, or the same error. -/
theorem ofOutlines_rearranged {document other : List Outline}
    (rearranged : Rearranged document other) : ofOutlines document = ofOutlines other :=
  insertAll_rearranged rearranged empty root [] 0

end Tree

/-! ## Calls -/

/-- What a node is made of. An element has its attributes set one after the other. -/
inductive Content where
  | document
  | element (tag : String) (settings : List (String × String))
  | text (content : String)
  | comment (content : String)

/-- The node that is made. -/
def Content.kind : Content → NodeKind
  | document => .document
  | element tag settings => .element ⟨tag, .ofList settings⟩
  | text content => .text content
  | comment content => .comment content

/-- A call that changes a tree. -/
inductive Call where
  | alloc (content : Content)
  | append (parent : NodeId) (content : Content)
  | appendChild (parent child : NodeId)

namespace Tree

/-- The tree after a call; `none` if it names a node that does not exist. -/
def call? (tree : Tree) : Call → Option Tree
  | .alloc content => some (tree.alloc content.kind).2
  | .append parent content => (tree.append? parent content.kind).map Prod.snd
  | .appendChild parent child => tree.appendChild? parent child

/-- The tree after one call after the other. -/
def build? (tree : Tree) (calls : List Call) : Option Tree :=
  calls.foldlM call? tree

end Tree

/-- The same is made, with settings whose last values agree. -/
inductive Content.Rearranged : Content → Content → Prop
  | same (content : Content) : Rearranged content content
  | element (tag : String) {settings others : List (String × String)}
      (same : SameLastValues settings others) :
      Rearranged (.element tag settings) (.element tag others)

theorem Content.Rearranged.kind_eq {content other : Content}
    (rearranged : Rearranged content other) : content.kind = other.kind := by
  cases rearranged with
  | same => rfl
  | element tag same => rw [kind, kind, Attributes.ofList_eq_iff.mpr same]

/-- The same call, with settings whose last values agree. -/
inductive Call.Rearranged : Call → Call → Prop
  | alloc {content other : Content} (rearranged : content.Rearranged other) :
      Rearranged (.alloc content) (.alloc other)
  | append (parent : NodeId) {content other : Content} (rearranged : content.Rearranged other) :
      Rearranged (.append parent content) (.append parent other)
  | appendChild (parent child : NodeId) :
      Rearranged (.appendChild parent child) (.appendChild parent child)

namespace Tree

theorem call?_rearranged {call other : Call} (rearranged : call.Rearranged other) (tree : Tree) :
    tree.call? call = tree.call? other := by
  cases rearranged with
  | alloc rearranged => rw [call?, call?, rearranged.kind_eq]
  | append parent rearranged => rw [call?, call?, rearranged.kind_eq]
  | appendChild parent child => rfl

/-- Such calls make the same tree, or none. The induction is on the calls, from any tree. -/
theorem build?_rearranged {calls others : List Call}
    (rearranged : List.Forall₂ Call.Rearranged calls others) (tree : Tree) : tree.build? calls = tree.build? others := by
  induction rearranged generalizing tree with
  | nil => rfl
  | cons first rest ih =>
    rw [build?, build?, List.foldlM_cons, List.foldlM_cons, call?_rearranged first]
    exact congrArg _ (funext ih)

end Tree

end CssSelect
