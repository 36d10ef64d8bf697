import CssSelect.Text.Blank

/-!
Trimming takes white space from the two ends of a text and nothing else: what is
left neither begins nor ends with white space, and a text of that kind is left as
it is.
-/
namespace CssSelect.Text

/-- No white space at either end. -/
structure IsTrimmed (text : List Char) : Prop where
  first : text.head?.any isWhiteSpace = false
  last : text.getLast?.any isWhiteSpace = false

instance (text : List Char) : Decidable (IsTrimmed text) :=
  decidable_of_iff
    (text.head?.any isWhiteSpace = false ∧ text.getLast?.any isWhiteSpace = false)
    ⟨fun ⟨first, last⟩ => ⟨first, last⟩, fun ⟨first, last⟩ => ⟨first, last⟩⟩

theorem trimEnd_cons_of_ne_nil {c : Char} {rest : List Char} (kept : trimEnd rest ≠ []) :
    trimEnd (c :: rest) = c :: trimEnd rest := by
  rw [trimEnd]
  split
  · next gone => exact absurd gone kept
  · rfl

theorem trimEnd_cons_of_nil {c : Char} {rest : List Char} (gone : trimEnd rest = []) :
    trimEnd (c :: rest) = if isWhiteSpace c then [] else [c] := by
  rw [trimEnd, gone]

/-- What is taken from the end is white space, and no white space is left there. -/
theorem trimEnd_split (text : List Char) :
    ∃ behind, text = trimEnd text ++ behind ∧ (∀ c ∈ behind, isWhiteSpace c = true) ∧
      (trimEnd text).getLast?.any isWhiteSpace = false := by
  induction text with
  | nil => exact ⟨[], rfl, by simp, rfl⟩
  | cons c rest ih =>
    obtain ⟨behind, split, white, last⟩ := ih
    by_cases gone : trimEnd rest = []
    · rw [gone, List.nil_append] at split
      subst split
      rw [trimEnd_cons_of_nil gone]
      cases first : isWhiteSpace c with
      | true => exact ⟨c :: rest, rfl, by simpa [first] using white, rfl⟩
      | false => exact ⟨rest, rfl, white, by simpa using first⟩
    · rw [trimEnd_cons_of_ne_nil gone]
      refine ⟨behind, by rw [List.cons_append, ← split], white, ?_⟩
      rw [List.getLast?_cons_of_ne_nil gone]
      exact last

theorem trimEnd_eq_self {text : List Char} (last : text.getLast?.any isWhiteSpace = false) :
    trimEnd text = text := by
  obtain ⟨behind, split, white, _⟩ := trimEnd_split text
  rcases List.eq_nil_or_concat behind with rfl | ⟨front, c, rfl⟩
  · rw [List.append_nil] at split
    exact split.symm
  · have isLast : text.getLast? = some c := by
      rw [split, List.concat_eq_append, ← List.append_assoc, List.getLast?_concat]
    have lastWhite : isWhiteSpace c = true := white c (by simp)
    simp [isLast, lastWhite] at last

/-- Trimming takes white space from both ends. -/
theorem trim_split (text : List Char) :
    ∃ before behind, text = before ++ trim text ++ behind ∧
      (∀ c ∈ before, isWhiteSpace c = true) ∧ ∀ c ∈ behind, isWhiteSpace c = true := by
  obtain ⟨behind, split, white, _⟩ := trimEnd_split (text.dropWhile isWhiteSpace)
  refine ⟨text.takeWhile isWhiteSpace, behind, ?_,
    fun c member => List.all_eq_true.mp List.all_takeWhile c member, white⟩
  rw [List.append_assoc, trim, ← split, List.takeWhile_append_dropWhile]

theorem isTrimmed_trim (text : List Char) : IsTrimmed (trim text) := by
  obtain ⟨behind, split, _, last⟩ := trimEnd_split (text.dropWhile isWhiteSpace)
  refine ⟨?_, last⟩
  have first := List.head?_dropWhile_not isWhiteSpace text
  rw [split] at first
  rw [trim]
  cases kept : trimEnd (text.dropWhile isWhiteSpace) with
  | nil => rfl
  | cons c rest =>
    rw [kept] at first
    simpa using first

/-- What is left of a text without the white space at its two ends. -/
structure TrimsTo (text left : List Char) : Prop where
  split : ∃ before behind, text = before ++ left ++ behind ∧
    (∀ c ∈ before, isWhiteSpace c = true) ∧ ∀ c ∈ behind, isWhiteSpace c = true
  trimmed : IsTrimmed left

theorem trimsTo_trimString (text : String) : TrimsTo text.toList (trimString text).toList := by
  rw [trimString, String.toList_ofList]
  exact ⟨trim_split text.toList, isTrimmed_trim text.toList⟩

theorem trim_eq_self {text : List Char} (trimmed : IsTrimmed text) : trim text = text := by
  have start : text.dropWhile isWhiteSpace = text := by
    cases text with
    | nil => rfl
    | cons c rest => exact List.dropWhile_cons_of_neg (by simpa using trimmed.first)
  rw [trim, start, trimEnd_eq_self trimmed.last]

/-- Nothing is left of a text exactly if it is white space throughout. -/
theorem trim_eq_nil_iff {text : List Char} : trim text = [] ↔ ∀ c ∈ text, isWhiteSpace c = true := by
  obtain ⟨before, behind, split, whiteBefore, whiteBehind⟩ := trim_split text
  constructor
  · intro gone
    rw [gone, List.append_nil] at split
    rw [split, List.forall_mem_append]
    exact ⟨whiteBefore, whiteBehind⟩
  · intro white
    cases left : trim text with
    | nil => rfl
    | cons c rest =>
      have first := (isTrimmed_trim text).first
      have inside : c ∈ text := by
        rw [split, left]
        simp
      rw [left, List.head?_cons, Option.any_some, white c inside] at first
      cases first

theorem isEmpty_trimString (text : String) :
    (trimString text).isEmpty = text.toList.all isWhiteSpace := by
  rw [Bool.eq_iff_iff, String.isEmpty_iff, List.all_eq_true, trimString, ← trim_eq_nil_iff,
    ← String.toList_inj, String.toList_ofList]
  rfl

end CssSelect.Text
