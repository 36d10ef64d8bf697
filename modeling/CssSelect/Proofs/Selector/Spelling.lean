import CssSelect.Proofs.Selector.Completion
import CssSelect.Proofs.Selector.RoundTrip

/-!
Written names and strings inside longer texts. A written name starts like a name
whatever follows it, and it is read back up to its end exactly if what follows cannot
be read as more of it. A written string carries its own end, so it is read back in
front of anything.

Writing escapes no more than reading needs: no other spelling of a string is shorter
(`Quoted.length_le_of_stringText`), nor one of a name (`Name.length_write_le`), unless
a leading hyphen stands in front of a character that is escaped itself. That escape
would let the hyphen start a name, and the printer escapes the hyphen all the same.
-/
namespace CssSelect

open Grammar

namespace Name

theorem nameText_write (name : List Char) : NameText (write name) name := by
  cases name with
  | nil => exact .nil
  | cons c rest => exact (ident_write (List.cons_ne_nil c rest)).reads

theorem endsBefore_iff {rest : List Char} :
    endsBefore rest = true ↔ ∀ c ∈ rest.head?, isPart c = false ∧ c ≠ '\\' := by
  cases rest with
  | nil => simp [endsBefore]
  | cons c rest => simp [endsBefore_cons_iff]

theorem startsHere_write_append {name : List Char} (nonempty : name ≠ []) (rest : List Char) :
    startsHere (write name ++ rest) = true :=
  startsHere_append_of_starts (ident_write nonempty).starts rest

/-- A written name is read back, and no more than it, exactly in front of a text that
ends names. -/
theorem take_write_append_iff {name rest : List Char} :
    take (write name ++ rest) = .ok (name, rest) ↔ endsBefore rest = true := by
  constructor
  · intro read
    obtain ⟨_, _, _, stop⟩ := nameText_of_take read
    exact stop
  · exact take_append (nameText_write name)

/-! ## Escapes that are needed -/

theorem length_writePart_of_isPart {c : Char} (part : isPart c = true) :
    (writePart c).length = 1 := by
  rw [writePart, if_pos part]
  rfl

theorem length_writePart_le (c : Char) : (writePart c).length ≤ 2 := by
  rw [writePart]
  split <;> simp [escape]

theorem length_parts_le {text name : List Char} (reads : NameText text name) :
    (name.flatMap writePart).length ≤ text.length := by
  induction reads with
  | nil => exact Nat.le_refl 0
  | plain part _ ih =>
    have one := length_writePart_of_isPart part
    simp only [List.flatMap_cons, List.length_append, List.length_cons]
    omega
  | escaped c _ ih =>
    have two := length_writePart_le c
    simp only [List.flatMap_cons, List.length_append, List.length_cons]
    omega

/-- Behind a hyphen that starts a name but cannot be written plainly, a character is
escaped that would not need it. -/
theorem length_parts_lt_of_hyphen {text rest : List Char} (reads : NameText text rest)
    (starts : startsHere ('-' :: text) = true) (escaped : leadsPlainly '-' rest = false)
    (parts : ∀ d ∈ rest.head?, isPart d = true) :
    (rest.flatMap writePart).length < text.length := by
  cases reads with
  | nil => cases starts
  | @plain d text rest part _ =>
    have notEscape := ne_backslash_of_isPart part
    have leadsName : isStart d = true ∨ d = '-' := by simpa [startsHere, notEscape] using starts
    have plainly : leadsPlainly '-' (d :: rest) = true := by simp [leadsPlainly, leadsName]
    rw [plainly] at escaped
    cases escaped
  | @escaped d text rest behind =>
    have one := length_writePart_of_isPart (parts d rfl)
    have others := length_parts_le behind
    simp only [List.flatMap_cons, List.length_append, List.length_cons]
    omega

/-- No spelling of a name is shorter than the written one. The names left out are those
with a hyphen in front of a character that is no part of a name. -/
theorem length_write_le {text name : List Char} (ident : Ident text name)
    (parts : ∀ rest, name = '-' :: rest → ∀ d ∈ rest.head?, isPart d = true) :
    (write name).length ≤ text.length := by
  obtain ⟨reads, starts⟩ := ident
  cases reads with
  | nil => exact Nat.le_refl 0
  | @plain c text rest part reads =>
    rw [write]
    split
    · have others := length_parts_le reads
      simp only [List.length_append, List.length_cons, List.length_nil]
      omega
    · next escaped =>
      rw [Bool.not_eq_true] at escaped
      have hyphen : c = '-' := by
        by_contra notHyphen
        have notEscape := ne_backslash_of_isPart part
        have start : isStart c = true := by simpa [startsHere, notHyphen, notEscape] using starts
        have plainly : leadsPlainly c rest = true := by simp [leadsPlainly, notHyphen, start]
        rw [plainly] at escaped
        cases escaped
      subst hyphen
      have others := length_parts_lt_of_hyphen reads starts escaped (parts rest rfl)
      simp only [escape, List.length_append, List.length_cons, List.length_nil]
      omega
  | @escaped c text rest reads =>
    have others := length_parts_le reads
    have two : (if leadsPlainly c rest then [c] else escape c).length ≤ 2 := by
      split <;> simp [escape]
    simp only [write, List.length_append, List.length_cons]
    omega

/-- The hyphen of `-\ ` starts a name without an escape of its own. -/
example : Ident ['-', '\\', ' '] ['-', ' '] ∧ write ['-', ' '] = ['\\', '-', '\\', ' '] :=
  ⟨⟨.plain (by decide) (.escaped ' ' .nil), by decide⟩, by decide⟩

end Name

namespace Quoted

/-- No spelling of a string between double quotation marks is shorter than the written one. -/
theorem length_le_of_stringText {text value : List Char} (body : StringText '"' text value) :
    (value.flatMap writeChar).length ≤ text.length := by
  induction body with
  | nil => exact Nat.le_refl 0
  | @plain c text value notMark notEscape _ ih =>
    have one : writeChar c = [c] := by simp [writeChar, notMark, notEscape]
    simp only [List.flatMap_cons, one, List.length_append, List.length_cons, List.length_nil]
    omega
  | escaped c _ ih =>
    have two : (writeChar c).length ≤ 2 := by
      rw [writeChar]
      split <;> simp
    simp only [List.flatMap_cons, List.length_append, List.length_cons]
    omega

end Quoted

/-- Reading undoes writing in every context. A written name starts like a name, and it is
read back with exactly what followed it left unread if what followed begins with no part of
a name and no escape, and only then. A written value is read back from behind its opening
quotation mark up to its closing one, whatever follows. -/
theorem written_read_in_context :
    (∀ (name : String) (rest : List Char), name ≠ "" →
      Name.startsHere (Name.write name.toList ++ rest) = true ∧
      (Name.take (Name.write name.toList ++ rest) = .ok (name.toList, rest) ↔
        ∀ c ∈ rest.head?, Name.isPart c = false ∧ c ≠ '\\')) ∧
    ∀ test : AttributeTest, ∃ body ending,
      test.write = test.operator.symbol.toList ++ '"' :: body ++ '"' :: ending ∧
      ∀ rest, Quoted.take '"' (body ++ '"' :: rest) = .ok (test.value.toList, rest) := by
  constructor
  · intro name rest named
    have starts := Name.startsHere_write_append (toList_ne_nil named) rest
    exact ⟨starts, Name.take_write_append_iff.trans Name.endsBefore_iff⟩
  · intro test
    have body := Quoted.stringText_write test.value.toList
    obtain ⟨ending, written⟩ : ∃ ending,
        test.write = test.operator.symbol.toList ++ Quoted.write test.value.toList ++ ending :=
      ⟨_, rfl⟩
    refine ⟨_, ending, ?_, Quoted.take_append (.inl rfl) body⟩
    simp [written, Quoted.write]

/-- A name with a hyphen that has to be escaped, a blank and a letter outside ASCII, in front
of a class; a value of a quotation mark and a backslash. -/
theorem written_read_hyphenAndMarks :
    ("-1 é" ≠ "" ∧ ∀ c ∈ ['.', 'a'].head?, Name.isPart c = false ∧ c ≠ '\\') ∧
      Name.startsHere (Name.write "-1 é".toList ++ ['.', 'a']) = true ∧
      Name.take (Name.write "-1 é".toList ++ ['.', 'a']) = .ok ("-1 é".toList, ['.', 'a']) ∧
      ∃ body ending,
        (⟨.equals, "\"\\", some .exact⟩ : AttributeTest).write = '=' :: '"' :: body ++ '"' :: ending ∧
        Quoted.take '"' (body ++ '"' :: [']']) = .ok ("\"\\".toList, [']']) := by
  have named : "-1 é" ≠ "" := by decide
  have stop := Name.endsBefore_iff.mp (by decide : Name.endsBefore ['.', 'a'] = true)
  obtain ⟨names, values⟩ := written_read_in_context
  obtain ⟨body, ending, written, read⟩ := values ⟨.equals, "\"\\", some .exact⟩
  obtain ⟨starts, readsBack⟩ := names "-1 é" ['.', 'a'] named
  exact ⟨⟨named, stop⟩, starts, readsBack.mpr stop, body, ending, written, read [']']⟩

end CssSelect
