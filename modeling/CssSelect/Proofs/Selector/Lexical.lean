import CssSelect.Proofs.Selector.Grammar

/-!
Names, strings and arguments are read whole. Each reader has two lemmas: what it
takes is such a piece of text (`of`), and in front of anything that cannot belong to
it such a piece is taken (`append`). For names that is a character that is no part
of a name; strings and arguments carry their own end.
-/
namespace CssSelect

open Grammar

/-! ## Blanks -/

namespace Text

/-- Blanks in front of something else are skipped. -/
theorem skipBlanks_append {blanks rest : List Char} (skipped : Blanks blanks)
    (stop : rest.head?.any isBlank = false) : skipBlanks (blanks ++ rest) = rest := by
  rw [skipBlanks, List.dropWhile_append_of_pos skipped]
  cases rest with
  | nil => rfl
  | cons c rest =>
    rw [List.dropWhile_cons_of_neg]
    simpa using stop

/-- Skipping takes blanks away, and no blank is left in front. -/
theorem skipBlanks_split (text : List Char) :
    ∃ blanks, text = blanks ++ skipBlanks text ∧ Blanks blanks ∧
      (skipBlanks text).head?.any isBlank = false := by
  refine ⟨text.takeWhile isBlank, List.takeWhile_append_dropWhile.symm, ?_, ?_⟩
  · exact fun c member => List.all_eq_true.mp List.all_takeWhile c member
  · cases left : skipBlanks text with
    | nil => rfl
    | cons c rest =>
      have first := List.head?_dropWhile_not isBlank text
      rw [skipBlanks] at left
      rw [left] at first
      simpa using first

end Text

/-! ## Names -/

namespace Name

/-- Whether a name can go on with this character. -/
def leads (c : Char) : Bool :=
  isPart c || c == '\\'

/-- Whether a name ends in front of this text. -/
def endsBefore (text : List Char) : Bool :=
  !text.head?.any leads

theorem ne_of_leads {c d : Char} (first : leads c = true) (other : leads d = false) : c ≠ d := by
  rintro rfl
  rw [first] at other
  cases other

theorem not_isBlank_of_leads {c : Char} (first : leads c = true) : Text.isBlank c = false := by
  cases blank : Text.isBlank c with
  | false => rfl
  | true =>
    simp only [Text.isBlank, Bool.or_eq_true, beq_iff_eq, or_assoc] at blank
    rcases blank with rfl | rfl | rfl | rfl | rfl <;> exact absurd first (by decide)

theorem endsBefore_cons_iff {c : Char} {rest : List Char} :
    endsBefore (c :: rest) = true ↔ isPart c = false ∧ c ≠ '\\' := by
  simp [endsBefore, leads]

theorem ne_backslash_of_isPart {c : Char} (part : isPart c = true) : c ≠ '\\' := by
  rintro rfl
  exact absurd part (by decide)

theorem take_of_endsBefore {rest : List Char} (stop : endsBefore rest = true) :
    take rest = .ok ([], rest) := by
  cases rest with
  | nil => rfl
  | cons c rest =>
    obtain ⟨notPart, notEscape⟩ := endsBefore_cons_iff.mp stop
    rw [take.eq_def]
    simp [notPart, notEscape]

theorem take_of_isPart {c : Char} (part : isPart c = true) (rest : List Char) :
    take (c :: rest) = prepend c (take rest) := by
  rw [take.eq_def]
  simp [part, ne_backslash_of_isPart part]

theorem take_append {text name rest : List Char} (reads : NameText text name)
    (stop : endsBefore rest = true) : take (text ++ rest) = .ok (name, rest) := by
  induction reads with
  | nil => exact take_of_endsBefore stop
  | plain part _ ih =>
    rw [List.cons_append, take_of_isPart part, ih]
    rfl
  | escaped c _ ih => simp [take, ih, prepend]

theorem nameText_of_take {text name rest : List Char} (h : take text = .ok (name, rest)) :
    ∃ taken, text = taken ++ rest ∧ NameText taken name ∧ endsBefore rest = true := by
  fun_induction take text generalizing name with
  | case1 =>
    cases h
    exact ⟨[], rfl, .nil, rfl⟩
  | case2 => cases h
  | case3 c escape d rest' ih =>
    obtain ⟨tail, step, rfl⟩ := Parser.prepend_eq_ok h
    obtain ⟨taken, rfl, reads, stop⟩ := ih step
    obtain rfl : c = '\\' := by simpa using escape
    exact ⟨'\\' :: d :: taken, rfl, .escaped d reads, stop⟩
  | case4 c rest' _ part ih =>
    obtain ⟨tail, step, rfl⟩ := Parser.prepend_eq_ok h
    obtain ⟨taken, rfl, reads, stop⟩ := ih step
    exact ⟨c :: taken, rfl, .plain part reads, stop⟩
  | case5 c rest' notEscape notPart =>
    cases h
    rw [Bool.not_eq_true] at notPart
    exact ⟨[], rfl, .nil, endsBefore_cons_iff.mpr ⟨notPart, by simpa using notEscape⟩⟩

/-- A name that is not empty is written with a character that leads one. -/
theorem cons_of_nameText {text name : List Char} (reads : NameText text name)
    (nonempty : name ≠ []) : ∃ c rest, text = c :: rest ∧ leads c = true := by
  cases reads with
  | nil => exact absurd rfl nonempty
  | @plain c text name part _ => exact ⟨c, text, rfl, by simp [leads, part]⟩
  | escaped c _ => exact ⟨'\\', _, rfl, by decide⟩

theorem ne_nil_of_ident {text name : List Char} (ident : Ident text name) : name ≠ [] := by
  obtain ⟨reads, starts⟩ := ident
  cases reads with
  | nil => exact absurd starts (by decide)
  | plain _ _ => exact List.cons_ne_nil _ _
  | escaped _ _ => exact List.cons_ne_nil _ _

/-- Two characters decide whether a name starts, and a name that ends is no shorter for it. -/
theorem startsHere_append {text rest : List Char} (nonempty : text ≠ [])
    (stop : endsBefore rest = true) : startsHere (text ++ rest) = startsHere text := by
  match text, rest with
  | [], _ => exact absurd rfl nonempty
  | [c], [] => rfl
  | [c], d :: rest =>
    obtain ⟨notPart, notEscape⟩ := endsBefore_cons_iff.mp stop
    simp only [isPart, Bool.or_eq_false_iff] at notPart
    by_cases hyphen : c = '-' <;> simp [startsHere, hyphen, notPart, notEscape]
  | c :: d :: _, _ => rfl

theorem takeAt_append {place : NamePlace} {text name rest : List Char} (ident : Ident text name)
    (stop : endsBefore rest = true) : takeAt place (text ++ rest) = .ok (name, rest) := by
  obtain ⟨c, left, rfl, _⟩ := cons_of_nameText ident.reads (ne_nil_of_ident ident)
  have nonempty : c :: left ≠ [] := List.cons_ne_nil c left
  rw [takeAt, startsHere_append nonempty stop, if_pos ident.starts, take_append ident.reads stop]

theorem ident_of_take {text name rest : List Char} (starts : startsHere text = true)
    (h : take text = .ok (name, rest)) :
    ∃ taken, text = taken ++ rest ∧ Ident taken name ∧ endsBefore rest = true := by
  have shorter := Parser.length_lt_of_takeName starts h
  obtain ⟨taken, rfl, reads, stop⟩ := nameText_of_take h
  have nonempty : taken ≠ [] := by
    rintro rfl
    exact absurd shorter (Nat.lt_irrefl _)
  rw [startsHere_append nonempty stop] at starts
  exact ⟨taken, rfl, ⟨reads, starts⟩, stop⟩

theorem ident_of_takeAt {place : NamePlace} {text name rest : List Char}
    (h : takeAt place text = .ok (name, rest)) :
    ∃ taken, text = taken ++ rest ∧ Ident taken name ∧ endsBefore rest = true := by
  unfold takeAt at h
  split at h
  · next starts => exact ident_of_take starts h
  · cases h

end Name

/-! ## Quoted strings -/

namespace Quoted

theorem take_append {mark : Char} (isMark : IsMark mark) {text value : List Char}
    (body : StringText mark text value) (rest : List Char) :
    take mark (text ++ mark :: rest) = .ok (value, rest) := by
  induction body with
  | nil =>
    rw [List.nil_append, take.eq_def]
    rcases isMark with rfl | rfl <;> simp
  | plain notMark notEscape _ ih =>
    rw [List.cons_append, take.eq_def]
    simp [notMark, notEscape, ih, Name.prepend]
  | escaped c _ ih => simp [take, ih, Name.prepend]

theorem stringText_of_take {mark : Char} {text value rest : List Char}
    (h : take mark text = .ok (value, rest)) :
    ∃ taken, text = taken ++ mark :: rest ∧ StringText mark taken value := by
  fun_induction take mark text generalizing value with
  | case1 | case2 => cases h
  | case3 c escape d rest' ih =>
    obtain ⟨tail, step, rfl⟩ := Parser.prepend_eq_ok h
    obtain ⟨taken, rfl, body⟩ := ih step
    obtain rfl : c = '\\' := by simpa using escape
    exact ⟨'\\' :: d :: taken, rfl, .escaped d body⟩
  | case4 c rest' _ closes =>
    cases h
    obtain rfl : c = mark := by simpa using closes
    exact ⟨[], rfl, .nil⟩
  | case5 c rest' notEscape notMark ih =>
    obtain ⟨tail, step, rfl⟩ := Parser.prepend_eq_ok h
    obtain ⟨taken, rfl, body⟩ := ih step
    exact ⟨c :: taken, rfl, .plain (by simpa using notMark) (by simpa using notEscape) body⟩

end Quoted

end CssSelect
