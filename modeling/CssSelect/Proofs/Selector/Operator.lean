import CssSelect.Proofs.Text.Words
import CssSelect.Selector.Operator

/-!
What the attribute operators mean. Each accepts the values that are put together from the expected
value and other texts in one way: nothing else, a hyphen and anything behind it, anything behind it,
before it or on both sides of it, and for a word anything that a blank keeps apart from it.
-/
namespace CssSelect.AttributeOperator

/-- How a value is put together that the operator accepts. -/
def Meaning : AttributeOperator → (value expected : List Char) → Prop
  | equals, value, expected => value = expected
  | includes, value, expected => expected ≠ [] ∧ (∀ c ∈ expected, Text.isBlank c = false) ∧
      ∃ before behind, value = before ++ expected ++ behind ∧
        before.getLast?.all Text.isBlank = true ∧ behind.head?.all Text.isBlank = true
  | dashMatch, value, expected => value = expected ∨ ∃ rest, value = expected ++ '-' :: rest
  | prefixMatch, value, expected => expected ≠ [] ∧ ∃ rest, value = expected ++ rest
  | suffixMatch, value, expected => expected ≠ [] ∧ ∃ rest, value = rest ++ expected
  | substringMatch, value, expected =>
      expected ≠ [] ∧ ∃ before behind, value = before ++ expected ++ behind

section Parts

variable {part text expected value : List Char}

theorem occursIn_iff_isInfix : occursIn part text = true ↔ part <:+: text := by
  induction text with
  | nil => rw [occursIn, List.isEmpty_iff, List.infix_nil]
  | cons c rest ih =>
    rw [occursIn, Bool.or_eq_true, List.isPrefixOf_iff_prefix, ih, List.infix_cons_iff]

theorem occursIn_iff :
    occursIn part text = true ↔ ∃ before behind, text = before ++ part ++ behind := by
  rw [occursIn_iff_isInfix]
  exact exists_congr fun before => exists_congr fun behind => eq_comm

theorem startsWithDash_iff : startsWithDash expected value = true ↔
    value = expected ∨ ∃ rest, value = expected ++ '-' :: rest := by
  rw [startsWithDash, Bool.and_eq_true, List.isPrefixOf_iff_prefix, List.prefix_iff_exists_eq_append]
  constructor
  · rintro ⟨⟨rest, rfl⟩, dash⟩
    rw [List.drop_left] at dash
    cases rest with
    | nil => exact .inl (List.append_nil expected)
    | cons c rest =>
      obtain rfl := beq_iff_eq.mp dash
      exact .inr ⟨rest, rfl⟩
  · rintro (rfl | ⟨rest, rfl⟩)
    · exact ⟨⟨[], (List.append_nil value).symm⟩, by rw [List.drop_length]⟩
    · exact ⟨⟨_, rfl⟩, by rw [List.drop_left]; rfl⟩

end Parts

/-- A word need not be asked for its characters: a text with a blank in it is no word of any text, and
neither is the empty one. -/
theorem accepts_includes (value expected : String) :
    includes.accepts value expected = (Text.words value.toList).contains expected.toList := by
  rw [Bool.eq_iff_iff, accepts, Bool.and_eq_true, and_iff_right_iff_imp]
  intro word
  obtain ⟨nonempty, noBlank, _⟩ := Text.mem_words_iff.mp (List.contains_iff_mem.mp word)
  simp only [Bool.and_eq_true, Bool.not_eq_true', List.isEmpty_eq_false_iff, List.any_eq_false,
    Bool.not_eq_true]
  exact ⟨nonempty, noBlank⟩

/-- An operator accepts the values that are put together as it means. -/
theorem accepts_iff_meaning (operator : AttributeOperator) (value expected : String) :
    operator.accepts value expected = true ↔
      operator.Meaning value.toList expected.toList := by
  have nonempty : (!expected.toList.isEmpty) = true ↔ expected.toList ≠ [] := by
    rw [Bool.not_eq_true', List.isEmpty_eq_false_iff]
  cases operator with
  | equals => rw [accepts, beq_iff_eq, Meaning, String.toList_inj]
  | includes => rw [accepts_includes, List.contains_iff_mem, Text.mem_words_iff, Meaning]
  | dashMatch => rw [accepts, startsWithDash_iff, Meaning]
  | prefixMatch =>
    rw [accepts, Bool.and_eq_true, nonempty, List.isPrefixOf_iff_prefix,
      List.prefix_iff_exists_eq_append, Meaning]
  | suffixMatch =>
    rw [accepts, Bool.and_eq_true, nonempty, List.isSuffixOf_iff_suffix,
      List.suffix_iff_exists_eq_append, Meaning]
  | substringMatch => rw [accepts, Bool.and_eq_true, nonempty, occursIn_iff, Meaning]

/-! ## What follows from what -/

section Consequences

variable {value expected : List Char}

/-- A word, a beginning and an end of a value are parts of it. -/
theorem Meaning.substring {operator : AttributeOperator}
    (part : operator ∈ [includes, prefixMatch, suffixMatch])
    (meant : operator.Meaning value expected) : substringMatch.Meaning value expected := by
  simp only [List.mem_cons, List.not_mem_nil, or_false] at part
  rcases part with rfl | rfl | rfl
  · obtain ⟨nonempty, _, before, behind, split, _, _⟩ := meant
    exact ⟨nonempty, before, behind, split⟩
  · obtain ⟨nonempty, rest, split⟩ := meant
    exact ⟨nonempty, [], rest, split⟩
  · obtain ⟨nonempty, rest, split⟩ := meant
    exact ⟨nonempty, rest, [], by rw [split, List.append_nil]⟩

/-- The whole value begins and ends with itself. -/
theorem Meaning.ofEquals (meant : equals.Meaning value expected) :
    dashMatch.Meaning value expected ∧ (expected ≠ [] →
      prefixMatch.Meaning value expected ∧ suffixMatch.Meaning value expected) := by
  have same : value = expected := meant
  refine ⟨.inl same, fun nonempty => ⟨⟨nonempty, [], ?_⟩, nonempty, [], same⟩⟩
  rw [same, List.append_nil]

end Consequences

/-- The six operators, by concatenation. Each accepts exactly the values that are put together as it
means. So a value with a word, a beginning or an end has it as a part, and a value that equals the
expected one passes the dash test, and begins and ends with it unless it is empty. -/
theorem accepts_by_concatenation (value expected : String) :
    (∀ operator : AttributeOperator, operator.accepts value expected = true ↔
      operator.Meaning value.toList expected.toList) ∧
    (∀ operator ∈ [includes, prefixMatch, suffixMatch], operator.accepts value expected = true →
      substringMatch.accepts value expected = true) ∧
    (equals.accepts value expected = true → dashMatch.accepts value expected = true ∧
      (expected ≠ "" → prefixMatch.accepts value expected = true ∧
        suffixMatch.accepts value expected = true)) := by
  refine ⟨fun operator => operator.accepts_iff_meaning value expected, ?_, ?_⟩
  · intro operator part accepted
    rw [accepts_iff_meaning] at accepted ⊢
    exact accepted.substring part
  · intro accepted
    simp only [accepts_iff_meaning] at accepted ⊢
    have empty_iff : expected ≠ "" ↔ expected.toList ≠ [] := by
      rw [Ne, Ne, ← String.toList_inj]
      rfl
    rw [empty_iff]
    exact Meaning.ofEquals accepted

/-- A word between two kinds of blanks, of which other words have parts. -/
theorem accepts_wordBetweenBlanks :
    includes ∈ [includes, prefixMatch, suffixMatch] ∧
      includes.accepts "men en\ten-US" "en" = true ∧
      substringMatch.accepts "men en\ten-US" "en" = true ∧
      equals.accepts "en" "en" = true ∧ "en" ≠ "" ∧ suffixMatch.accepts "en" "en" = true := by
  have part : includes ∈ [includes, prefixMatch, suffixMatch] := by decide
  have word : includes.accepts "men en\ten-US" "en" = true := by decide +kernel
  have same : equals.accepts "en" "en" = true := by decide
  have nonempty : "en" ≠ "" := by decide
  have whole := (accepts_by_concatenation "en" "en").2.2 same
  exact ⟨part, word, (accepts_by_concatenation _ _).2.1 includes part word, same, nonempty,
    (whole.2 nonempty).2⟩

end CssSelect.AttributeOperator
