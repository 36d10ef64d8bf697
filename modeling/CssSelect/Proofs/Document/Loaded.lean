import CssSelect.Document.Loader
import CssSelect.Proofs.Document.Links

/-!
What is loaded. The nodes of a document are numbered in document order, and the tree shows at
each number what the document has there: `Shows` says so of a whole forest. Loading appends one
node after the other, so a loaded tree is a well-built one.
-/
namespace CssSelect

namespace Outline

mutual

/-- How many nodes there are, the node itself and all below it. -/
def count : Outline → Nat
  | .text _ => 1
  | .element _ _ children => countAll children + 1

/-- How many nodes a forest has. -/
def countAll : List Outline → Nat
  | [] => 0
  | outline :: outlines => outline.count + countAll outlines

end

/-- The numbers of the roots of a forest whose nodes are numbered from `first` on. -/
def tops (first : Nat) : List Outline → List NodeId
  | [] => []
  | outline :: outlines => first :: tops (first + outline.count) outlines

/-- The element that is made of a tag and attributes as they are written. -/
def elementOf (tag : String) (attributes : List (String × String)) : Element :=
  ⟨Text.trimString tag, .ofList attributes⟩

mutual

/-- The elements of a document in document order, with their numbers. -/
def elements (first : Nat) : Outline → List (NodeId × Element)
  | .text _ => []
  | .element tag attributes children =>
    (first, elementOf tag attributes) :: elementsAll (first + 1) children

/-- The elements of a forest in document order, with their numbers. -/
def elementsAll (first : Nat) : List Outline → List (NodeId × Element)
  | [] => []
  | outline :: outlines => outline.elements first ++ elementsAll (first + outline.count) outlines

end

/-- Induction over forests: a text in front of others, or an element with its children. -/
theorem forest_induction {motive : List Outline → Prop} (nil : motive [])
    (text : ∀ content others, motive others → motive (.text content :: others))
    (element : ∀ tag attributes children others, motive children → motive others →
      motive (.element tag attributes children :: others)) (outlines : List Outline) :
    motive outlines := by
  have both := countAll.induct (fun outline => ∀ others, motive others → motive (outline :: others))
    motive text (fun tag attributes children inner others => element tag attributes children others inner)
    nil fun outline others first rest => first others rest
  exact both outlines

end Outline

namespace Tree

open Outline (countAll tops elementOf elementsAll forest_induction)

mutual

/-- The node `first` shows the outline, and the nodes behind it show all below. -/
def ShowsOne (tree : Tree) (first : Nat) : Outline → Prop
  | .text content =>
    (tree.get? first).map Node.kind = some (.text content) ∧ tree.children first = []
  | .element tag attributes children =>
    (tree.get? first).map Node.kind = some (.element (elementOf tag attributes)) ∧
      tree.children first = tops (first + 1) children ∧ tree.Shows (first + 1) children

/-- The nodes from `first` on show the forest. -/
def Shows (tree : Tree) (first : Nat) : List Outline → Prop
  | [] => True
  | outline :: outlines =>
    tree.ShowsOne first outline ∧ tree.Shows (first + outline.count) outlines

end

/-- What a forest shows does not depend on nodes outside of it. -/
theorem Shows.congr {outlines : List Outline} {tree other : Tree} {first : Nat}
    (children : ∀ id : Nat, first ≤ id → id < first + countAll outlines →
      other.children id = tree.children id)
    (kind : ∀ id : Nat, first ≤ id → id < first + countAll outlines →
      (other.get? id).map Node.kind = (tree.get? id).map Node.kind)
    (shown : tree.Shows first outlines) : other.Shows first outlines := by
  induction outlines using forest_induction generalizing first with
  | nil => trivial
  | text content others ih =>
    simp only [countAll, Outline.count] at children kind
    obtain ⟨⟨isText, leaf⟩, rest⟩ := shown
    refine ⟨⟨?_, ?_⟩, ih ?_ ?_ rest⟩
    · rw [kind first (Nat.le_refl _) (by omega), isText]
    · rw [children first (Nat.le_refl _) (by omega), leaf]
    · simp only [Outline.count]
      exact fun id low high => children id (by omega) (by omega)
    · simp only [Outline.count]
      exact fun id low high => kind id (by omega) (by omega)
  | element tag attributes inner others ihInner ihOthers =>
    simp only [countAll, Outline.count] at children kind
    obtain ⟨⟨isElement, placed, below⟩, rest⟩ := shown
    refine ⟨⟨?_, ?_, ihInner ?_ ?_ below⟩, ihOthers ?_ ?_ rest⟩
    · rw [kind first (Nat.le_refl _) (by omega), isElement]
    · rw [children first (Nat.le_refl _) (by omega), placed]
    · exact fun id low high => children id (by omega) (by omega)
    · exact fun id low high => kind id (by omega) (by omega)
    · simp only [Outline.count]
      exact fun id low high => children id (by omega) (by omega)
    · simp only [Outline.count]
      exact fun id low high => kind id (by omega) (by omega)

/-! ## Inserting a forest -/

/-- A forest was put behind the children of a node, and nothing else was changed. -/
structure GrownBy (tree : Tree) (parent : NodeId) (outlines : List Outline) (grown : Tree) :
    Prop where
  size : grown.size = tree.size + countAll outlines
  children : ∀ id < tree.size, grown.children id =
    if id = parent then tree.children parent ++ tops tree.size outlines else tree.children id
  kind : ∀ id < tree.size, (grown.get? id).map Node.kind = (tree.get? id).map Node.kind
  shows : grown.Shows tree.size outlines
  built : tree.WellBuilt → grown.WellBuilt

theorem GrownBy.lt_size {tree grown : Tree} {parent : NodeId} {outlines : List Outline}
    (after : tree.GrownBy parent outlines grown) {id : NodeId} (old : id < tree.size) :
    id < grown.size := by
  rw [after.size]
  exact Nat.lt_add_right _ old

section Insert

variable {tree grown : Tree} {parent : NodeId} {above : List Nat} {place : Nat}

theorem insertAll_text (tree : Tree) (parent : NodeId) (above : List Nat) (place : Nat)
    (content : String) (others : List Outline) :
    tree.insertAll parent above place (.text content :: others) =
      (tree.append parent (.text content)).2.insertAll parent above (place + 1) others := by
  rw [insertAll, Tree.insert]

theorem insertAll_element (tree : Tree) (parent : NodeId) (above : List Nat) (place : Nat)
    (tag : String) (attributes : List (String × String)) (children others : List Outline) :
    tree.insertAll parent above place (.element tag attributes children :: others) =
      if (Text.trimString tag).isEmpty then .error (.emptyTag (place :: above).reverse)
      else
        match (tree.append parent (.element (elementOf tag attributes))).2.insertAll tree.size
          (place :: above) 0 children with
        | .error error => .error error
        | .ok grown => grown.insertAll parent above (place + 1) others := by
  rw [insertAll, Tree.insert]
  by_cases blank : (Text.trimString tag).isEmpty = true
  · simp only [blank, if_true]
  · simp only [blank]
    rfl

/-- A new node is the last child of its parent and has no children of its own. -/
theorem children_append_new (allocated : parent < tree.size) (kind : NodeKind) :
    (tree.append parent kind).2.children tree.size = [] := by
  rw [children_append allocated, if_neg (Nat.ne_of_gt allocated), children,
    get?_eq_none (Nat.le_refl _)]

theorem GrownBy.nil (tree : Tree) (parent : NodeId) : tree.GrownBy parent [] tree where
  size := rfl
  children id _ := by
    split
    · next here => rw [here, tops, List.append_nil]
    · rfl
  kind _ _ := rfl
  shows := trivial
  built := id

theorem GrownBy.text (allocated : parent < tree.size) (content : String) :
    tree.GrownBy parent [.text content] (tree.append parent (.text content)).2 where
  size := size_append
  children id _ := children_append allocated id
  kind _ old := kind_append old
  shows := ⟨⟨kind_append_new, children_append_new allocated _⟩, trivial⟩
  built built := built.append allocated _

/-- An element is put behind the children of a node, and then a forest below it. -/
theorem GrownBy.element (allocated : parent < tree.size) {tag : String}
    {attributes : List (String × String)} {inner : List Outline}
    (below : (tree.append parent (.element (elementOf tag attributes))).2.GrownBy tree.size inner
      grown) : tree.GrownBy parent [.element tag attributes inner] grown where
  size := by
    rw [below.size, size_append]
    simp only [countAll, Outline.count]
    omega
  children id old := by
    rw [below.children id (by rw [size_append]; exact Nat.lt_succ_of_lt old),
      if_neg (Nat.ne_of_lt old), children_append allocated]
    rfl
  kind id old := by
    rw [below.kind id (by rw [size_append]; exact Nat.lt_succ_of_lt old), kind_append old]
  shows := by
    have new : tree.size < (tree.append parent (.element (elementOf tag attributes))).2.size := by
      rw [size_append]
      exact Nat.lt_succ_self _
    have shown := below.shows
    rw [size_append] at shown
    refine ⟨⟨?_, ?_, shown⟩, trivial⟩
    · rw [below.kind _ new, kind_append_new]
    · rw [below.children _ new, if_pos rfl, children_append_new allocated, size_append]
      rfl
  built built := below.built (built.append allocated _)

/-- One node with all below it, and then the others behind it. -/
theorem GrownBy.cons (allocated : parent < tree.size) {outline : Outline} {others : List Outline}
    {between : Tree} (first : tree.GrownBy parent [outline] between)
    (rest : between.GrownBy parent others grown) :
    tree.GrownBy parent (outline :: others) grown where
  size := by
    rw [rest.size, first.size]
    simp only [countAll]
    omega
  children id old := by
    rw [rest.children id (first.lt_size old), first.children id old,
      first.children parent allocated, first.size]
    split
    · rw [if_pos rfl, List.append_assoc]
      rfl
    · rfl
  kind id old := by rw [rest.kind id (first.lt_size old), first.kind id old]
  shows := by
    -- What is put in later gets numbers of its own, so the first node shows what it showed.
    have kept : grown.Shows tree.size [outline] := by
      refine first.shows.congr (fun id low high => ?_) fun id low high => ?_
      · rw [← first.size] at high
        rw [rest.children id high, if_neg (Nat.ne_of_gt (Nat.lt_of_lt_of_le allocated low))]
      · rw [← first.size] at high
        exact rest.kind id high
    have behind := rest.shows
    rw [first.size] at behind
    exact ⟨kept.1, behind⟩
  built built := rest.built (first.built built)

/-- Inserting numbers the nodes of a forest in document order. The induction follows the
forest; below an element its own node is the parent. -/
theorem grownBy_of_insertAll {outlines : List Outline} (allocated : parent < tree.size)
    (run : tree.insertAll parent above place outlines = .ok grown) :
    tree.GrownBy parent outlines grown := by
  induction outlines using forest_induction generalizing tree grown parent above place with
  | nil =>
    cases run
    exact .nil tree parent
  | text content others ih =>
    rw [insertAll_text] at run
    have first := GrownBy.text allocated content
    exact first.cons allocated (ih (first.lt_size allocated) run)
  | element tag attributes inner others ihInner ihOthers =>
    rw [insertAll_element] at run
    split at run
    · cases run
    · split at run
      · cases run
      · next between inserted =>
        have first := GrownBy.element allocated
          (ihInner (by rw [size_append]; exact Nat.lt_succ_self _) inserted)
        exact first.cons allocated (ihOthers (first.lt_size allocated) run)

end Insert

/-- A document that is loaded: its forest below the document node. -/
theorem grownBy_of_ofOutlines {outlines : List Outline} {tree : Tree}
    (loaded : ofOutlines outlines = .ok tree) : empty.GrownBy root outlines tree :=
  grownBy_of_insertAll Nat.zero_lt_one loaded

theorem wellBuilt_of_ofOutlines {outlines : List Outline} {tree : Tree}
    (loaded : ofOutlines outlines = .ok tree) : tree.WellBuilt :=
  (grownBy_of_ofOutlines loaded).built .empty

/-- The forest of a document stands below the document node, with numbers from 1 on. -/
theorem GrownBy.below_root {tree : Tree} {document : List Outline}
    (grown : empty.GrownBy root document tree) :
    (tree.get? root).map Node.kind = some .document ∧ tree.children root = tops 1 document ∧
      tree.Shows 1 document := by
  have allocated : root < empty.size := Nat.zero_lt_one
  refine ⟨?_, ?_, grown.shows⟩
  · rw [grown.kind _ allocated]
    rfl
  · rw [grown.children _ allocated, if_pos rfl]
    rfl

theorem exists_ofOutlines_of_load {text : String} {tree : Tree} (loaded : load text = .ok tree) :
    ∃ document, ofOutlines document = .ok tree := by
  unfold load at loaded
  split at loaded
  · cases loaded
  · split at loaded
    · cases loaded
    · next document _ =>
      split at loaded
      · exact ⟨document, loaded⟩
      · cases loaded

theorem wellBuilt_of_load {text : String} {tree : Tree} (loaded : load text = .ok tree) :
    tree.WellBuilt := by
  obtain ⟨document, loaded⟩ := exists_ofOutlines_of_load loaded
  exact wellBuilt_of_ofOutlines loaded

/-- The links of every tree that is built step by step, or loaded, agree with each other. -/
theorem wellLinked_of_built_or_loaded :
    (∀ tree : Tree, tree.WellBuilt → tree.WellLinked) ∧
      ∀ text tree, load text = .ok tree → tree.WellBuilt ∧ tree.WellLinked :=
  ⟨fun _ built => built.wellLinked,
    fun _ _ loaded => ⟨wellBuilt_of_load loaded, (wellBuilt_of_load loaded).wellLinked⟩⟩

/-- An element with a text below it, built on its own and then put into the document. -/
def attachedSubtree : Tree :=
  ((empty.alloc (.element ⟨"a", .empty⟩)).2.append 1 (.text "x")).2.link root 1

theorem wellLinked_attachedSubtree : attachedSubtree.WellBuilt ∧ attachedSubtree.WellLinked := by
  have detached : (empty.alloc (.element ⟨"a", .empty⟩)).2.WellBuilt := .step .empty (.alloc _)
  have subtree : ((empty.alloc (.element ⟨"a", .empty⟩)).2.append 1 (.text "x")).2.WellBuilt :=
    detached.append (by decide) _
  have free : ((empty.alloc (.element ⟨"a", .empty⟩)).2.append 1 (.text "x")).2.Attachable root 1 := by
    refine ⟨by decide, by decide, by decide, rfl, by decide, ?_⟩
    intro path
    obtain ⟨_, taken, _⟩ := Relation.TransGen.head'_iff.mp path
    cases taken
  have built : attachedSubtree.WellBuilt := .step subtree (.attach free rfl)
  exact ⟨built, wellLinked_of_built_or_loaded.1 attachedSubtree built⟩

end Tree

end CssSelect
