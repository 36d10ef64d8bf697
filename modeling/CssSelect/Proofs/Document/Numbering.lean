import CssSelect.Proofs.Document.Attributes
import CssSelect.Proofs.Document.Loaded
import CssSelect.Proofs.Document.Places
import CssSelect.Proofs.Text.Trim

/-!
A loaded tree, node by node. The nodes of a document are numbered from 1 on in document order, and
each has its places: where it stands in its array, behind the places of the element around it. The
tree has just these nodes, each with the children that the document has below it, and its path is
read off its places. There is no tree if an element has a blank tag; the first one is reported.
-/
namespace CssSelect

namespace Outline

/-- What stands below a node, in its order. -/
def inner : Outline → List Outline
  | .text _ => []
  | .element _ _ children => children

/-- The element that a node becomes; none if it is a text. -/
def element? : Outline → Option Element
  | .text _ => none
  | .element tag attributes _ => some (elementOf tag attributes)

/-- A node of a document and its places, its own at the end. -/
structure Placed where
  places : List Nat
  outline : Outline

mutual

/-- A node at the given places, and behind it all below it. -/
def placed (places : List Nat) : Outline → List Placed
  | .text content => [⟨places, .text content⟩]
  | .element tag attributes children =>
    ⟨places, .element tag attributes children⟩ :: placedAll places 0 children

/-- The nodes of a forest in document order. The first root has the place `place` in the array
that stands at the places `above`. -/
def placedAll (above : List Nat) (place : Nat) : List Outline → List Placed
  | [] => []
  | outline :: outlines => outline.placed (above ++ [place]) ++ placedAll above (place + 1) outlines

end

/-- The nodes of a document in document order, numbered from 1 on. -/
def numbered (document : List Outline) : List (Placed × NodeId) :=
  (placedAll [] 0 document).zipIdx 1

/-- The kind of tree node that a node of a document becomes. A tag is what is left without the white
space around it, and the last value that a name is given is its value. -/
inductive LoadedAs : Outline → NodeKind → Prop
  | text (content : String) : LoadedAs (.text content) (.text content)
  | element {tag : String} {attributes : List (String × String)} {children : List Outline}
      {element : Element} (trimmed : Text.TrimsTo tag.toList element.tag.toList)
      (last : ∀ name, element.attributes.get? name = attributes.reverse.lookup name) :
      LoadedAs (.element tag attributes children) (.element element)

/-- Induction over forests: what stands below the first root, and the roots behind it. -/
theorem inner_induction {motive : List Outline → Prop} (nil : motive [])
    (cons : ∀ outline others, motive outline.inner → motive others → motive (outline :: others))
    (outlines : List Outline) : motive outlines :=
  forest_induction nil (fun content others rest => cons (.text content) others nil rest)
    (fun tag attributes children others inner rest =>
      cons (.element tag attributes children) others inner rest) outlines

/-! ## Numbers and places -/

section Numbers

variable {above : List Nat} {place first : Nat}

theorem count_eq (outline : Outline) : outline.count = countAll outline.inner + 1 := by
  cases outline <;> rfl

theorem placed_eq (places : List Nat) (outline : Outline) :
    outline.placed places = ⟨places, outline⟩ :: placedAll places 0 outline.inner := by
  cases outline <;> rfl

theorem length_placedAll (above : List Nat) (place : Nat) (outlines : List Outline) :
    (placedAll above place outlines).length = countAll outlines := by
  induction outlines using inner_induction generalizing above place with
  | nil => rfl
  | cons outline others ihInner ihOthers =>
    rw [placedAll, placed_eq, List.length_append, List.length_cons, ihInner, ihOthers, countAll,
      count_eq]

/-- A root has its number before all below it, and the other roots have theirs behind these. -/
theorem zipIdx_placedAll_cons (outline : Outline) (others : List Outline) :
    (placedAll above place (outline :: others)).zipIdx first =
      (⟨above ++ [place], outline⟩, first) ::
        ((placedAll (above ++ [place]) 0 outline.inner).zipIdx (first + 1) ++
          (placedAll above (place + 1) others).zipIdx (first + outline.count)) := by
  rw [placedAll, placed_eq, List.cons_append, List.zipIdx_cons, List.zipIdx_append,
    length_placedAll, count_eq, Nat.add_assoc, Nat.add_comm 1]

theorem length_tops (first : Nat) (outlines : List Outline) :
    (tops first outlines).length = outlines.length := by
  induction outlines generalizing first with
  | nil => rfl
  | cons outline others ih => rw [tops, List.length_cons, List.length_cons, ih]

/-- A root is found by its place among the roots. -/
theorem exists_tops (above : List Nat) (place first : Nat) {outlines : List Outline} {offset : Nat}
    {outline : Outline} (found : outlines[offset]? = some outline) :
    ∃ id, (tops first outlines)[offset]? = some id ∧
      (⟨above ++ [place + offset], outline⟩, id) ∈ (placedAll above place outlines).zipIdx first := by
  induction outlines generalizing place first offset with
  | nil => cases found
  | cons root others ih =>
    rw [zipIdx_placedAll_cons]
    cases offset with
    | zero =>
      cases found
      exact ⟨first, rfl, List.mem_cons_self⟩
    | succ offset =>
      obtain ⟨id, top, member⟩ := ih (place + 1) (first + root.count) found
      rw [Nat.add_right_comm] at member
      exact ⟨id, top, List.mem_cons_of_mem _ (List.mem_append_right _ member)⟩

theorem exists_numbered {document : List Outline} {offset : Nat} (inside : offset < countAll document) :
    ∃ placed, (placed, offset + 1) ∈ numbered document := by
  rw [← length_placedAll [] 0] at inside
  refine ⟨(placedAll [] 0 document)[offset], ?_⟩
  rw [numbered, List.mem_zipIdx_iff_le_and_getElem?_sub]
  exact ⟨Nat.le_add_left 1 offset, List.getElem?_eq_getElem inside⟩

/-- The elements of a forest are the nodes that are elements, with their numbers. -/
theorem elementsAll_eq_filterMap (above : List Nat) (place first : Nat) (outlines : List Outline) :
    elementsAll first outlines = ((placedAll above place outlines).zipIdx first).filterMap
      fun entry => entry.1.outline.element?.map fun element => (entry.2, element) := by
  induction outlines using inner_induction generalizing above place first with
  | nil => rfl
  | cons outline others ihInner ihOthers =>
    rw [zipIdx_placedAll_cons, List.filterMap_cons, List.filterMap_append, ← ihInner, ← ihOthers]
    cases outline <;> rfl

/-- What stands below a node is numbered right behind it. -/
theorem zipIdx_inner_subset {outlines : List Outline} {entry : Placed × NodeId}
    (member : entry ∈ (placedAll above place outlines).zipIdx first) :
    (placedAll entry.1.places 0 entry.1.outline.inner).zipIdx (entry.2 + 1) ⊆
      (placedAll above place outlines).zipIdx first := by
  induction outlines using inner_induction generalizing above place first with
  | nil => cases member
  | cons outline others ihInner ihOthers =>
    rw [zipIdx_placedAll_cons] at member ⊢
    apply List.subset_cons_of_subset
    rcases List.mem_cons.mp member with rfl | member
    · exact List.subset_append_left _ _
    · rcases List.mem_append.mp member with below | later
      · exact List.subset_append_of_subset_left _ (ihInner below)
      · exact List.subset_append_of_subset_right _ (ihOthers later)

end Numbers

/-! ## Blank tags -/

section Report

/-- Whether a node is an element whose tag is white space throughout. -/
def hasBlankTag : Outline → Bool
  | .text _ => false
  | .element tag _ _ => tag.toList.all Text.isWhiteSpace

/-- The report of the first blank tag, if there is one. -/
def report? (entries : List (Placed × NodeId)) : Option LoadError :=
  (entries.find? fun entry => entry.1.outline.hasBlankTag).map
    fun entry => .emptyTag entry.1.places

/-- A tag is blank if nothing is left of it once it is trimmed. -/
theorem isEmpty_trimString (tag : String) (attributes : List (String × String))
    (children : List Outline) :
    (Text.trimString tag).isEmpty = (element tag attributes children).hasBlankTag :=
  Text.isEmpty_trimString tag

theorem report?_cons_of_blank {entry : Placed × NodeId} (blank : entry.1.outline.hasBlankTag = true)
    (entries : List (Placed × NodeId)) :
    report? (entry :: entries) = some (.emptyTag entry.1.places) := by
  simp only [report?, List.find?_cons, blank, Option.map_some]

theorem report?_cons_of_tagged {entry : Placed × NodeId}
    (tagged : entry.1.outline.hasBlankTag = false) (entries : List (Placed × NodeId)) :
    report? (entry :: entries) = report? entries := by
  simp only [report?, List.find?_cons, tagged]

theorem report?_append (entries behind : List (Placed × NodeId)) :
    report? (entries ++ behind) = (report? entries).or (report? behind) := by
  rw [report?, List.find?_append]
  simp only [report?, Option.map_or]

theorem report?_eq_none_iff {entries : List (Placed × NodeId)} :
    report? entries = none ↔ ∀ entry ∈ entries, entry.1.outline.hasBlankTag = false := by
  simp only [report?, Option.map_eq_none_iff, List.find?_eq_none, Bool.not_eq_true]

end Report

end Outline

namespace Tree

open Outline (tops elementOf elementsAll placedAll numbered report?)

/-- A node stands at the given places of a document, and its children are the nodes that are
numbered for what the document has below it, each at its place. -/
structure StandsAt (tree : Tree) (document : List Outline) (id : NodeId) (here : List Nat)
    (below : List Outline) : Prop where
  places : tree.places id = here
  path : tree.path id = "/" ++ "/".intercalate (here.map toString)
  length : (tree.children id).length = below.length
  child : ∀ place outline, below[place]? = some outline →
    ∃ child, (tree.children id)[place]? = some child ∧
      (⟨here ++ [place], outline⟩, child) ∈ numbered document

/-- A tree is what a document describes: the document node, and one node for each number. -/
structure Represents (tree : Tree) (document : List Outline) : Prop where
  size : tree.size = (numbered document).length + 1
  root_kind : (tree.get? root).map Node.kind = some .document
  root_stands : tree.StandsAt document root [] document
  kind : ∀ entry ∈ numbered document,
    ∃ kind, (tree.get? entry.2).map Node.kind = some kind ∧ entry.1.outline.LoadedAs kind
  stands : ∀ entry ∈ numbered document,
    tree.StandsAt document entry.2 entry.1.places entry.1.outline.inner

variable {tree : Tree} {document : List Outline}

section Shows

variable {id : NodeId} {outline : Outline}

theorem ShowsOne.exists_kind (shown : tree.ShowsOne id outline) :
    ∃ kind, (tree.get? id).map Node.kind = some kind ∧ outline.LoadedAs kind := by
  cases outline with
  | text content => exact ⟨_, shown.1, .text content⟩
  | element tag attributes children =>
    exact ⟨_, shown.1, .element (Text.trimsTo_trimString tag) (Attributes.get?_ofList attributes)⟩

theorem ShowsOne.children (shown : tree.ShowsOne id outline) :
    tree.children id = tops (id + 1) outline.inner := by
  cases outline with
  | text content => exact shown.2
  | element tag attributes children => exact shown.2.1

theorem ShowsOne.inner (shown : tree.ShowsOne id outline) : tree.Shows (id + 1) outline.inner := by
  cases outline with
  | text content => trivial
  | element tag attributes children => exact shown.2.2

/-- Each node of a forest that a tree shows is shown at its number, and its places are those that
the links of the tree lead to. The induction is on the forest; the roots before it are counted. -/
theorem Shows.placed (linked : tree.WellLinked) {outlines : List Outline} {first : Nat}
    (shown : tree.Shows first outlines) {parent : NodeId} {before : List NodeId}
    (children : tree.children parent = before ++ tops first outlines) :
    ∀ entry ∈ (placedAll (tree.places parent) before.length outlines).zipIdx first,
      tree.ShowsOne entry.2 entry.1.outline ∧ tree.places entry.2 = entry.1.places := by
  induction outlines using Outline.inner_induction generalizing first parent before with
  | nil => exact fun _ member => absurd member List.not_mem_nil
  | cons outline others ihInner ihOthers =>
    obtain ⟨here, rest⟩ := shown
    rw [tops] at children
    have found : (tree.children parent)[before.length]? = some first := by
      rw [children, List.getElem?_append_right (Nat.le_refl _), Nat.sub_self]
      rfl
    have places := linked.places_child found
    have behind : tree.children parent =
        (before ++ [first]) ++ tops (first + outline.count) others := by
      rw [children, List.append_assoc]
      rfl
    have below : tree.children first = [] ++ tops (first + 1) outline.inner := here.children
    have inner := ihInner here.inner below
    have others := ihOthers rest behind
    rw [places] at inner
    rw [List.length_append] at others
    rw [Outline.zipIdx_placedAll_cons, List.forall_mem_cons, List.forall_mem_append]
    exact ⟨⟨here, places⟩, inner, others⟩

end Shows

/-! ## Loading -/

section Insert

variable {parent : NodeId} {above : List Nat} {place : Nat} {outlines : List Outline}

/-- Where each error is known, it is known when there is none. -/
theorem exists_ok_iff_of_error_iff {ε α : Type} {result : Except ε α} {reported : Option ε}
    (errors : ∀ error, result = .error error ↔ reported = some error) :
    (∃ value, result = .ok value) ↔ reported = none := by
  cases result with
  | error error =>
    rw [(errors error).mp rfl]
    simp
  | ok value =>
    have silent : ∀ error, reported ≠ some error := fun error fails => by
      cases (errors error).mpr fails
    rw [Option.eq_none_iff_forall_ne_some]
    exact iff_of_true ⟨value, rfl⟩ silent

/-- Inserting a forest reports its first blank tag. The induction follows the forest; what stands
in front of a node and above it is inserted, or reported, before it. -/
theorem insertAll_eq_error_iff (first : Nat) (error : LoadError) :
    tree.insertAll parent above place outlines = .error error ↔
      report? ((placedAll above.reverse place outlines).zipIdx first) = some error := by
  induction outlines using Outline.forest_induction
    generalizing tree parent above place first error with
  | nil => simp [insertAll, placedAll, report?]
  | text content others ih =>
    rw [insertAll_text, ih (first + 1), Outline.zipIdx_placedAll_cons,
      Outline.report?_cons_of_tagged rfl]
    rfl
  | element tag attributes inner others ihInner ihOthers =>
    rw [insertAll_element, Outline.isEmpty_trimString tag attributes inner,
      Outline.zipIdx_placedAll_cons, ← List.reverse_cons]
    cases blank : (Outline.element tag attributes inner).hasBlankTag with
    | true =>
      rw [Outline.report?_cons_of_blank blank, if_pos rfl, Except.error.injEq, Option.some_inj]
    | false =>
      rw [Outline.report?_cons_of_tagged blank, Outline.report?_append, if_neg Bool.false_ne_true,
        Outline.inner]
      have inside := @ihInner (tree.append parent (.element (elementOf tag attributes))).2
        tree.size (place :: above) 0 (first + 1)
      cases inserted : (tree.append parent (.element (elementOf tag attributes))).2.insertAll
          tree.size (place :: above) 0 inner with
      | error blankBelow =>
        rw [(inside blankBelow).mp inserted]
        simp
      | ok between =>
        rw [(exists_ok_iff_of_error_iff inside).mp ⟨between, inserted⟩, Option.none_or]
        exact ihOthers _ error

/-- Inserting fails only at an element whose tag is blank. -/
theorem exists_insertAll_iff (first : Nat) :
    (∃ grown, tree.insertAll parent above place outlines = .ok grown) ↔
      ∀ entry ∈ elementsAll first outlines, entry.2.tag.isEmpty = false := by
  rw [exists_ok_iff_of_error_iff (insertAll_eq_error_iff first), Outline.report?_eq_none_iff,
    Outline.elementsAll_eq_filterMap above.reverse place, List.forall_mem_filterMap]
  refine forall₂_congr fun entry _ => ?_
  obtain ⟨⟨_, outline⟩, _⟩ := entry
  cases outline with
  | text content => simp [Outline.hasBlankTag, Outline.element?]
  | element tag attributes children =>
    simp [← Outline.isEmpty_trimString, Outline.element?, elementOf]

end Insert

theorem standsAt_of_tops {id : NodeId} {here : List Nat} {below : List Outline}
    (places : tree.places id = here) (children : tree.children id = tops (id + 1) below)
    (inside : (placedAll here 0 below).zipIdx (id + 1) ⊆ numbered document) :
    tree.StandsAt document id here below where
  places := places
  path := by rw [path_eq, places]
  length := by rw [children, Outline.length_tops]
  child place outline found := by
    obtain ⟨child, top, member⟩ := Outline.exists_tops here 0 (id + 1) found
    rw [Nat.zero_add] at member
    exact ⟨child, children ▸ top, inside member⟩

theorem GrownBy.showsOne (grown : empty.GrownBy root document tree) :
    ∀ entry ∈ numbered document,
      tree.ShowsOne entry.2 entry.1.outline ∧ tree.places entry.2 = entry.1.places := by
  have linked := (grown.built .empty).wellLinked
  obtain ⟨_, children, shown⟩ := grown.below_root
  have below : tree.children root = [] ++ tops 1 document := children
  have placed := shown.placed linked below
  rwa [places_of_orphan linked.root_parent] at placed

theorem GrownBy.represents (grown : empty.GrownBy root document tree) :
    tree.Represents document := by
  have linked := (grown.built .empty).wellLinked
  obtain ⟨isDocument, children, _⟩ := grown.below_root
  constructor
  case size =>
    rw [grown.size, numbered, List.length_zipIdx, Outline.length_placedAll, Nat.add_comm]
    rfl
  case root_kind => exact isDocument
  case root_stands =>
    exact standsAt_of_tops (places_of_orphan linked.root_parent) children (List.Subset.refl _)
  case kind => exact fun entry member => (grown.showsOne entry member).1.exists_kind
  case stands =>
    intro entry member
    obtain ⟨shown, places⟩ := grown.showsOne entry member
    exact standsAt_of_tops places shown.children (Outline.zipIdx_inner_subset member)

/-- A document is turned into a tree exactly if no tag in it is blank. -/
theorem exists_ofOutlines_iff_tagged :
    (∃ tree, ofOutlines document = .ok tree) ↔
      ∀ entry ∈ numbered document, entry.1.outline.hasBlankTag = false :=
  (exists_ok_iff_of_error_iff (insertAll_eq_error_iff 1)).trans Outline.report?_eq_none_iff

/-- A document without a blank tag is loaded, and the tree is what the document describes. Its nodes
are numbered in document order and have their kinds, tags, attributes and texts from there, their
children in the order of the arrays, and paths that lead through the arrays. A text is loaded as the
document that its value describes, a single node as an array of one. -/
theorem load_represents (document : List Outline)
    (tagged : ∀ entry ∈ numbered document, entry.1.outline.hasBlankTag = false) :
    ∃ tree, ofOutlines document = .ok tree ∧ tree.Represents document ∧
      ∀ text value rest, Json.read text.toList = .ok (value, rest) →
        Outline.ofDocument? value = some document → Json.skipBlanks rest = [] →
        load text = .ok tree := by
  obtain ⟨tree, loaded⟩ := exists_ofOutlines_iff_tagged.mpr tagged
  refine ⟨tree, loaded, (grownBy_of_ofOutlines loaded).represents, ?_⟩
  intro text value rest read described blank
  rw [load, read]
  simp only [described, blank]
  exact loaded

/-- An element around a text and another element, and a text behind it. -/
def mixed : List Outline :=
  [.element " a " [("k", "v")] [.text "x", .element "b" [] []], .text "y"]

/-- The same as a text. -/
def mixedText : String :=
  "[\x7b\"tag\": \" a \", \"attrs\": \x7b\"k\": \"v\"\x7d, \"children\": " ++
    "[\"x\", \x7b\"tag\": \"b\"\x7d]\x7d, \"y\"]"

/-- The tag of the first element is loaded without the blanks around it. -/
theorem load_represents_mixed :
    (∀ entry ∈ numbered mixed, entry.1.outline.hasBlankTag = false) ∧
    ∃ tree, load mixedText = .ok tree ∧ tree.Represents mixed ∧
      (tree.element? 1).map Element.tag = some "a" ∧ tree.children 1 = [2, 3] ∧
      tree.path 3 = "/0/1" := by
  have tagged : ∀ entry ∈ numbered mixed, entry.1.outline.hasBlankTag = false := by decide
  obtain ⟨tree, loaded, represents, loads⟩ := load_represents mixed tagged
  have read : Json.read mixedText.toList = .ok (.array [.object [("tag", .string " a "),
      ("attrs", .object [("k", .string "v")]),
      ("children", .array [.string "x", .object [("tag", .string "b")]])], .string "y"], []) := by
    with_unfolding_all rfl
  refine ⟨tagged, tree, loads mixedText _ [] read (by with_unfolding_all rfl) rfl, represents, ?_⟩
  cases loaded
  exact ⟨rfl, rfl, rfl⟩

end Tree

end CssSelect
