import CssSelect.Proofs.Document.Numbering
import CssSelect.Proofs.Document.Texts

/-!
Elements without a tag. A node is looked at before all that stands below it, and nothing is loaded
behind a blank tag, so what is reported is the first blank tag in document order. Its path is known
before there is a tree: it is the one that the element has in every tree that is loaded once the
blank tags have been filled.
-/
namespace CssSelect

namespace Outline

/-- The path that the places of a node make, with slashes between them. -/
def Placed.path (placed : Placed) : String :=
  "/" ++ "/".intercalate (placed.places.map toString)

/-- A node is the first of a document, in document order, that has a blank tag. -/
structure FirstBlankTag (document : List Outline) (entry : Placed × NodeId) : Prop where
  blank : entry.1.outline.hasBlankTag = true
  first : ∃ before behind, numbered document = before ++ entry :: behind ∧
    ∀ earlier ∈ before, earlier.1.outline.hasBlankTag = false

/-- Each blank tag of a forest gives way to a name, and nothing else is changed. -/
inductive TagsFilled : List Outline → List Outline → Prop
  | nil : TagsFilled [] []
  | text (content : String) {others filled : List Outline} (rest : TagsFilled others filled) :
      TagsFilled (.text content :: others) (.text content :: filled)
  | element {tag name : String} (attributes : List (String × String))
      {children below others filled : List Outline}
      (named : name.toList.all Text.isWhiteSpace = false)
      (kept : tag.toList.all Text.isWhiteSpace = false → name = tag)
      (inner : TagsFilled children below) (rest : TagsFilled others filled) :
      TagsFilled (.element tag attributes children :: others)
        (.element name attributes below :: filled)

/-- The text is accepted as JSON, and as the JSON of a document. -/
def Describes (text : String) (document : List Outline) : Prop :=
  ∃ value rest, Json.read text.toList = .ok (value, rest) ∧ ofDocument? value = some document ∧
    Json.skipBlanks rest = []

/-! ## The report -/

theorem report?_numbered {document : List Outline} {error : LoadError} :
    report? (numbered document) = some error ↔
      ∃ entry, FirstBlankTag document entry ∧ error = .emptyTag entry.1.places := by
  simp only [report?, Option.map_eq_some_iff, List.find?_eq_some_iff_append, Bool.not_eq_true']
  refine exists_congr fun entry => and_congr ?_ eq_comm
  exact ⟨fun found => ⟨found.1, found.2⟩, fun first => ⟨first.blank, first.first⟩⟩

theorem FirstBlankTag.mem {document : List Outline} {entry : Placed × NodeId}
    (first : FirstBlankTag document entry) : entry ∈ numbered document := by
  obtain ⟨before, behind, split, _⟩ := first.first
  rw [split]
  exact List.mem_append_right _ List.mem_cons_self

theorem exists_firstBlankTag {document : List Outline} {entry : Placed × NodeId}
    (member : entry ∈ numbered document) (blank : entry.1.outline.hasBlankTag = true) :
    ∃ first, FirstBlankTag document first := by
  cases reported : report? (numbered document) with
  | none =>
    have tagged := report?_eq_none_iff.mp reported entry member
    rw [blank] at tagged
    cases tagged
  | some error =>
    obtain ⟨first, isFirst, _⟩ := report?_numbered.mp reported
    exact ⟨first, isFirst⟩

theorem isSome_element?_of_blank {outline : Outline} (blank : outline.hasBlankTag = true) :
    outline.element?.isSome := by
  cases outline with
  | text content => cases blank
  | element tag attributes children => rfl

/-- No node stands outside of all arrays. -/
theorem places_ne_nil {above : List Nat} {place first : Nat} {outlines : List Outline}
    {entry : Placed × NodeId} (member : entry ∈ (placedAll above place outlines).zipIdx first) :
    entry.1.places ≠ [] := by
  induction outlines using inner_induction generalizing above place first with
  | nil => cases member
  | cons outline others ihInner ihOthers =>
    rw [zipIdx_placedAll_cons] at member
    rcases List.mem_cons.mp member with rfl | member
    · exact List.append_ne_nil_of_right_ne_nil above (List.cons_ne_nil place [])
    · rcases List.mem_append.mp member with below | later
      · exact ihInner below
      · exact ihOthers later

/-! ## Filling tags -/

/-- There are always tags to fill in. -/
theorem exists_tagsFilled (document : List Outline) : ∃ filled, TagsFilled document filled := by
  induction document using forest_induction with
  | nil => exact ⟨[], .nil⟩
  | text content others ih =>
    obtain ⟨filled, rest⟩ := ih
    exact ⟨_, .text content rest⟩
  | element tag attributes children others ihInner ihOthers =>
    obtain ⟨below, inner⟩ := ihInner
    obtain ⟨filled, rest⟩ := ihOthers
    cases blank : tag.toList.all Text.isWhiteSpace with
    | true =>
      have named : "a".toList.all Text.isWhiteSpace = false := by decide
      exact ⟨_, .element attributes named (fun tagged => by cases blank.symm.trans tagged) inner rest⟩
    | false => exact ⟨_, .element attributes blank (fun _ => rfl) inner rest⟩

section Filled

variable {outlines filled : List Outline} {above : List Nat} {place first : Nat}

theorem TagsFilled.countAll_eq (fills : TagsFilled outlines filled) :
    countAll filled = countAll outlines := by
  induction fills with
  | nil => rfl
  | text content _ ih => rw [countAll, countAll, ih]
  | element attributes _ _ _ _ ihInner ihRest =>
    rw [countAll, countAll, count, count, ihInner, ihRest]

/-- Filling tags moves no node: each keeps its places and its number, and elements stay elements. -/
theorem TagsFilled.exists_same_places (fills : TagsFilled outlines filled)
    {entry : Placed × NodeId} (member : entry ∈ (placedAll above place outlines).zipIdx first) :
    ∃ outline, (⟨entry.1.places, outline⟩, entry.2) ∈ (placedAll above place filled).zipIdx first ∧
      outline.element?.isSome = entry.1.outline.element?.isSome := by
  induction fills generalizing above place first with
  | nil => cases member
  | text content _ ih =>
    rw [zipIdx_placedAll_cons] at member ⊢
    simp only [List.mem_cons, List.mem_append] at member ⊢
    rcases member with rfl | below | later
    · exact ⟨.text content, .inl rfl, rfl⟩
    · cases below
    · obtain ⟨outline, there, same⟩ := ih later
      exact ⟨outline, .inr (.inr there), same⟩
  | @element tag name attributes children inside others filled named kept inner rest ihInner ihRest =>
    rw [zipIdx_placedAll_cons] at member ⊢
    simp only [List.mem_cons, List.mem_append] at member ⊢
    rcases member with rfl | below | later
    · exact ⟨.element name attributes inside, .inl rfl, rfl⟩
    · obtain ⟨outline, there, same⟩ := ihInner below
      exact ⟨outline, .inr (.inl there), same⟩
    · obtain ⟨outline, there, same⟩ := ihRest later
      rw [count, ← inner.countAll_eq] at there
      exact ⟨outline, .inr (.inr there), same⟩

/-- No blank tag is left once the tags are filled. -/
theorem TagsFilled.report?_eq_none (fills : TagsFilled outlines filled) :
    report? ((placedAll above place filled).zipIdx first) = none := by
  induction fills generalizing above place first with
  | nil => rfl
  | text content _ ih =>
    rw [zipIdx_placedAll_cons, report?_cons_of_tagged rfl]
    exact ih
  | @element _ name attributes _ below _ _ named _ _ _ ihInner ihRest =>
    have tagged : (Outline.element name attributes below).hasBlankTag = false := named
    rw [zipIdx_placedAll_cons, report?_cons_of_tagged tagged, report?_append, inner, ihInner, ihRest]
    rfl

end Filled

end Outline

namespace Tree

open Outline (Placed numbered FirstBlankTag TagsFilled Describes)

variable {document filled : List Outline} {error : LoadError}

theorem ofOutlines_eq_error_iff :
    ofOutlines document = .error error ↔
      ∃ entry, FirstBlankTag document entry ∧ error = .emptyTag entry.1.places :=
  (insertAll_eq_error_iff 1 error).trans Outline.report?_numbered

theorem exists_ofOutlines_of_tagsFilled (fills : TagsFilled document filled) :
    ∃ tree, ofOutlines filled = .ok tree :=
  (exists_ok_iff_of_error_iff (insertAll_eq_error_iff 1)).mpr fills.report?_eq_none

/-- An element keeps its number and its path when the blank tags are filled. -/
theorem path_of_tagsFilled (fills : TagsFilled document filled) {tree : Tree}
    (loaded : ofOutlines filled = .ok tree) {entry : Placed × NodeId}
    (member : entry ∈ numbered document) (element : entry.1.outline.element?.isSome) :
    tree.isElement entry.2 = true ∧ tree.path entry.2 = entry.1.path := by
  obtain ⟨outline, there, same⟩ := fills.exists_same_places member
  obtain ⟨shown, places⟩ := (grownBy_of_ofOutlines loaded).showsOne _ there
  rw [element] at same
  refine ⟨?_, by rw [path_eq, places, Placed.path]⟩
  cases outline with
  | text content => cases same
  | element tag attributes children => exact isElement_of_element shown.1

/-- The path of a node is written in the report of its tag, and the node has this path in every
tree that is loaded once the blank tags are filled. -/
structure PathKnown (document : List Outline) (entry : Placed × NodeId) : Prop where
  reported : (LoadError.emptyTag entry.1.places).message =
    "element at " ++ entry.1.path ++ " has an empty tag name"
  fillable : ∃ filled, TagsFilled document filled
  loaded : ∀ filled, TagsFilled document filled → ∃ tree, ofOutlines filled = .ok tree ∧
    tree.isElement entry.2 = true ∧ tree.path entry.2 = entry.1.path

theorem pathKnown_of_firstBlankTag {entry : Placed × NodeId}
    (first : FirstBlankTag document entry) : PathKnown document entry where
  reported := by
    have inside := Outline.places_ne_nil first.mem
    obtain ⟨place, places, split⟩ := List.exists_cons_of_ne_nil inside
    rw [Placed.path, split, ← writePlaces_eq_intercalate]
    rfl
  fillable := Outline.exists_tagsFilled document
  loaded filled fills := by
    obtain ⟨tree, loaded⟩ := exists_ofOutlines_of_tagsFilled fills
    have element := Outline.isSome_element?_of_blank first.blank
    exact ⟨tree, loaded, path_of_tagsFilled fills loaded first.mem element⟩

theorem load_of_describes {text : String} (described : Describes text document) :
    load text = ofOutlines document := by
  obtain ⟨value, rest, read, fits, blank⟩ := described
  rw [load, read]
  simp only [fits, blank]

/-- A text that describes a document is loaded unless some element of it, at any depth, has a blank
tag. If one has, then the first of them in document order is reported, with the places that lead to
it through the arrays. This is the path that the element has in the tree of the document whose
blank tags have been filled. -/
theorem load_reports_firstBlankTag {text : String} (described : Describes text document) :
    ((∃ places, load text = .error (.emptyTag places)) ↔
        ∃ entry ∈ numbered document, entry.1.outline.hasBlankTag = true) ∧
      (∀ error, load text = .error error ↔
        ∃ entry, FirstBlankTag document entry ∧ error = .emptyTag entry.1.places) ∧
      ∀ entry, FirstBlankTag document entry → PathKnown document entry := by
  have reports := load_of_describes described
  have fails : ∀ error, load text = .error error ↔
      ∃ entry, FirstBlankTag document entry ∧ error = .emptyTag entry.1.places := by
    intro error
    rw [reports]
    exact ofOutlines_eq_error_iff
  refine ⟨?_, fails, fun entry first => pathKnown_of_firstBlankTag first⟩
  simp only [fails]
  constructor
  · rintro ⟨_, entry, first, _⟩
    exact ⟨entry, first.mem, first.blank⟩
  · rintro ⟨entry, member, blank⟩
    obtain ⟨first, isFirst⟩ := Outline.exists_firstBlankTag member blank
    exact ⟨_, first, isFirst, rfl⟩

/-- An element whose second child has a blank tag, and so has the child of that. -/
def blankInside : List Outline :=
  [.element "div" [] [.text "x", .element "\u3000 " [] [.element "" [] []]]]

/-- The same as a text. The element stands for an array of one. -/
def blankInsideText : String :=
  "\x7b\"tag\": \"div\", \"children\": [\"x\", " ++
    "\x7b\"tag\": \"\u3000 \", \"children\": [\x7b\"tag\": \"\"\x7d]\x7d]\x7d"

theorem load_reports_blankInside :
    Describes blankInsideText blankInside ∧
      load blankInsideText = .error (.emptyTag [0, 1]) ∧
      (LoadError.emptyTag [0, 1]).message = "element at /0/1 has an empty tag name" ∧
      ∃ tree, ofOutlines [.element "div" [] [.text "x", .element "a" [] [.element "b" [] []]]] =
        .ok tree ∧ tree.path 3 = "/0/1" := by
  have described : Describes blankInsideText blankInside :=
    ⟨.object [("tag", .string "div"), ("children", .array [.string "x",
      .object [("tag", .string "\u3000 "), ("children", .array [.object [("tag", .string "")]])]])],
      [], by with_unfolding_all rfl, by with_unfolding_all rfl, rfl⟩
  have first : FirstBlankTag blankInside
      (⟨[0, 1], .element "\u3000 " [] [.element "" [] []]⟩, 3) :=
    ⟨by decide, (numbered blankInside).take 2, (numbered blankInside).drop 3, rfl, by decide⟩
  obtain ⟨_, fails, known⟩ := load_reports_firstBlankTag described
  refine ⟨described, (fails _).mpr ⟨_, first, rfl⟩, (known _ first).reported, ?_⟩
  have fills : TagsFilled blankInside
      [.element "div" [] [.text "x", .element "a" [] [.element "b" [] []]]] :=
    .element [] (by decide) (fun _ => rfl)
      (.text "x" (.element [] (by decide) (fun tagged => by cases tagged)
        (.element [] (by decide) (fun tagged => by cases tagged) .nil .nil) .nil)) .nil
  obtain ⟨tree, loaded, _, path⟩ := (known _ first).loaded _ fills
  exact ⟨tree, loaded, path⟩

end Tree

end CssSelect
