import CssSelect.Text.Ascii

/-!
The words of a text. A blank ends one word and belongs to none, so the words on its two sides do
not see each other; from this alone it follows which words a text has. They are the parts without a
blank that stand between blanks, or at an end of the text.
-/
namespace CssSelect.Text

/-- A text is split at each of its blanks. -/
theorem pieces_eq_splitOnP (text : List Char) : pieces text = text.splitOnP isBlank := by
  induction text with
  | nil => rfl
  | cons c rest ih =>
    rw [pieces, List.splitOnP_cons_eq_if_modifyHead, ih]
    split
    · rfl
    · have nonempty := List.splitOnP_ne_nil isBlank rest
      cases split : rest.splitOnP isBlank with
      | nil => exact absurd split nonempty
      | cons => rfl

/-- The words on the two sides of a blank are found apart from each other. -/
theorem words_append_blank {c : Char} (blank : isBlank c = true) (before behind : List Char) :
    words (before ++ c :: behind) = words before ++ words behind := by
  simp only [words, pieces_eq_splitOnP]
  rw [List.splitOnP_append_cons before behind blank, List.filter_append]

/-- A text without a blank is its only word, unless it is empty. -/
theorem mem_words_of_noBlank {text word : List Char} (noBlank : ∀ c ∈ text, isBlank c = false) :
    word ∈ words text ↔ word = text ∧ word ≠ [] := by
  rw [words, pieces_eq_splitOnP, List.splitOnP_eq_singleton noBlank]
  simp

/-! ## Words as parts of a text -/

section Split

variable {before behind word : List Char}

theorem words_append_of_head (apart : behind.head?.all isBlank = true) (before : List Char) :
    words (before ++ behind) = words before ++ words behind := by
  cases behind with
  | nil =>
    have empty : words [] = [] := rfl
    rw [empty, List.append_nil, List.append_nil]
  | cons c rest =>
    have first : words (c :: rest) = words rest := words_append_blank apart [] rest
    rw [words_append_blank apart, first]

theorem words_append_of_last (apart : before.getLast?.all isBlank = true) (behind : List Char) :
    words (before ++ behind) = words before ++ words behind := by
  rcases List.eq_nil_or_concat before with rfl | ⟨front, c, rfl⟩
  · rfl
  · have blank : isBlank c = true := by simpa using apart
    have last : words (front ++ [c]) = words front ++ [] := words_append_blank blank front []
    rw [List.concat_eq_append, last, List.append_nil, List.append_assoc, List.singleton_append,
      words_append_blank blank]

/-- Where a word stands. `front` is what has been read of the current word when the induction comes
to the rest of the text. -/
theorem split_of_mem_words (front : List Char) {rest : List Char}
    (noBlank : ∀ c ∈ front, isBlank c = false) (member : word ∈ words (front ++ rest)) :
    word ≠ [] ∧ (∀ c ∈ word, isBlank c = false) ∧
      ∃ before behind, front ++ rest = before ++ word ++ behind ∧
        before.getLast?.all isBlank = true ∧ behind.head?.all isBlank = true := by
  induction rest generalizing front with
  | nil =>
    rw [List.append_nil, mem_words_of_noBlank noBlank] at member
    obtain ⟨rfl, nonempty⟩ := member
    exact ⟨nonempty, noBlank, [], [], rfl, rfl, rfl⟩
  | cons c rest ih =>
    by_cases blank : isBlank c = true
    · rw [words_append_blank blank, List.mem_append, mem_words_of_noBlank noBlank] at member
      rcases member with ⟨rfl, nonempty⟩ | later
      · exact ⟨nonempty, noBlank, [], c :: rest, rfl, rfl, blank⟩
      · obtain ⟨nonempty, wordNoBlank, before, behind, split, last, first⟩ :=
          ih [] (by simp) later
        refine ⟨nonempty, wordNoBlank, front ++ c :: before, behind, ?_, ?_, first⟩
        · rw [List.nil_append] at split
          simp only [split, List.append_assoc, List.cons_append]
        · rw [List.getLast?_append, List.getLast?_cons, Option.some_or, Option.all_some]
          cases ending : before.getLast? with
          | none => exact blank
          | some d =>
            rw [ending] at last
            exact last
    · -- The character belongs to the current word.
      have longer : ∀ d ∈ front ++ [c], isBlank d = false := by
        rw [List.forall_mem_append, List.forall_mem_singleton]
        exact ⟨noBlank, Bool.eq_false_iff.mpr blank⟩
      rw [← List.singleton_append, ← List.append_assoc] at member ⊢
      exact ih _ longer member

/-- The words of a text are its parts without a blank that are not empty and that have a blank, or
an end of the text, on each side. -/
theorem mem_words_iff {text : List Char} : word ∈ words text ↔
    word ≠ [] ∧ (∀ c ∈ word, isBlank c = false) ∧
      ∃ before behind, text = before ++ word ++ behind ∧
        before.getLast?.all isBlank = true ∧ behind.head?.all isBlank = true := by
  constructor
  · exact split_of_mem_words [] (by simp)
  · rintro ⟨nonempty, noBlank, before, behind, rfl, last, first⟩
    rw [List.append_assoc, words_append_of_last last, words_append_of_head first]
    have here := (mem_words_of_noBlank noBlank).mpr ⟨rfl, nonempty⟩
    exact List.mem_append_right _ (List.mem_append_left _ here)

end Split

end CssSelect.Text
