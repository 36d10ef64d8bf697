import Mathlib.Data.List.Forall2
import Mathlib.Data.Option.Basic
import CssSelect.Proofs.Selector.Operator
import CssSelect.Matching.Compound
import CssSelect.Table

/-!
Attribute tests that ignore case. Such a test accepts a value exactly if the plain test accepts some
spelling of it in which only the case of ASCII letters is different. So it accepts whatever the plain
test accepts, and it cannot tell two spellings apart, of the value or of the expected value; all
other characters have to be the same.
-/
namespace CssSelect

/-! ## Letters -/

namespace Text

/-- An ASCII capital and its small form. -/
def IsCapitalOf (capital small : Char) : Prop :=
  'A' ≤ capital ∧ capital ≤ 'Z' ∧ small.toNat = capital.toNat + 32

/-- One and the same character, or the two forms of an ASCII letter. -/
def SameLetter (c d : Char) : Prop :=
  c = d ∨ IsCapitalOf c d ∨ IsCapitalOf d c

/-- Two texts that differ at most in the case of ASCII letters. -/
def SameLetters (text other : String) : Prop :=
  List.Forall₂ SameLetter text.toList other.toList

theorem toNat_toLower (c : Char) :
    c.toLower.toNat = if 65 ≤ c.toNat ∧ c.toNat ≤ 90 then c.toNat + 32 else c.toNat := by
  by_cases capital : c.val ≥ 'A'.val ∧ c.val ≤ 'Z'.val
  · have lowered : c.toLower.val = c.val + 32 := congrArg Char.val (dif_pos capital)
    have range : 65 ≤ c.toNat ∧ c.toNat ≤ 90 := capital
    rw [if_pos range, Char.toNat, lowered, UInt32.toNat_add]
    exact Nat.mod_eq_of_lt (Nat.lt_of_le_of_lt (Nat.add_le_add_right range.2 32) (by decide))
  · have same : c.toLower = c := dif_neg capital
    have range : ¬ (65 ≤ c.toNat ∧ c.toNat ≤ 90) := capital
    rw [if_neg range, same]

/-- Two characters are the same letter if they have the same small form. -/
theorem sameLetter_iff {c d : Char} : SameLetter c d ↔ c.toLower = d.toLower := by
  have capital : ∀ c d : Char, IsCapitalOf c d ↔
      65 ≤ c.toNat ∧ c.toNat ≤ 90 ∧ d.toNat = c.toNat + 32 := fun _ _ => Iff.rfl
  rw [SameLetter, capital, capital, ← Char.toNat_inj, ← Char.toNat_inj, toNat_toLower, toNat_toLower]
  split <;> split <;> omega

theorem isBlank_toLower (c : Char) : isBlank c.toLower = isBlank c := by
  have code : ∀ c : Char, isBlank c = true ↔
      c.toNat = 32 ∨ c.toNat = 9 ∨ c.toNat = 10 ∨ c.toNat = 12 ∨ c.toNat = 13 := by
    intro c
    simp [isBlank, ← Char.toNat_inj, or_assoc]
  rw [Bool.eq_iff_iff, code, code, toNat_toLower]
  split <;> omega

theorem eq_hyphen_of_toLower {c : Char} (hyphen : c.toLower = '-') : c = '-' := by
  have code : c.toLower.toNat = 45 := congrArg Char.toNat hyphen
  rw [toNat_toLower] at code
  rw [← Char.toNat_inj]
  split at code
  · omega
  · exact code

/-- Two texts differ in case only if they have the same small letters. -/
theorem sameLetters_iff {text other : String} : SameLetters text other ↔ lower text = lower other := by
  have letters : SameLetter = fun c d => c.toLower = d.toLower :=
    funext fun c => funext fun d => propext sameLetter_iff
  rw [lower, lower, String.ofList_inj, lowerChars, lowerChars, ← List.forall₂_eq_eq_eq,
    List.forall₂_map_left_iff, List.forall₂_map_right_iff, SameLetters, letters]

end Text

/-! ## Values -/

namespace AttributeOperator

open Text (lowerChars)

variable {operator : AttributeOperator} {value expected before behind : List Char}

theorem all_isBlank_map (c : Option Char) :
    (c.map Char.toLower).all Text.isBlank = c.all Text.isBlank := by
  cases c with
  | none => rfl
  | some c => exact Text.isBlank_toLower c

theorem noBlank_lowerChars_iff : (∀ c ∈ lowerChars expected, Text.isBlank c = false) ↔
    ∀ c ∈ expected, Text.isBlank c = false := by
  simp only [lowerChars, List.forall_mem_map, Text.isBlank_toLower]

theorem lowerChars_ne_nil_iff : lowerChars expected ≠ [] ↔ expected ≠ [] := by
  rw [lowerChars, Ne, List.map_eq_nil_iff]

/-- What an operator means of two texts, it means of their small letters. -/
theorem Meaning.lower (meant : operator.Meaning value expected) :
    operator.Meaning (lowerChars value) (lowerChars expected) := by
  cases operator with
  | equals => exact congrArg lowerChars meant
  | includes =>
    obtain ⟨nonempty, noBlank, before, behind, rfl, last, first⟩ := meant
    refine ⟨lowerChars_ne_nil_iff.mpr nonempty, noBlank_lowerChars_iff.mpr noBlank,
      lowerChars before, lowerChars behind, by simp only [lowerChars, List.map_append], ?_, ?_⟩
    · rw [lowerChars, List.getLast?_map, all_isBlank_map, last]
    · rw [lowerChars, List.head?_map, all_isBlank_map, first]
  | dashMatch =>
    obtain rfl | ⟨rest, rfl⟩ := meant
    · exact .inl rfl
    · exact .inr ⟨lowerChars rest, by simp only [lowerChars, List.map_append]; rfl⟩
  | prefixMatch =>
    obtain ⟨nonempty, rest, rfl⟩ := meant
    exact ⟨lowerChars_ne_nil_iff.mpr nonempty, lowerChars rest, List.map_append⟩
  | suffixMatch =>
    obtain ⟨nonempty, rest, rfl⟩ := meant
    exact ⟨lowerChars_ne_nil_iff.mpr nonempty, lowerChars rest, List.map_append⟩
  | substringMatch =>
    obtain ⟨nonempty, before, behind, rfl⟩ := meant
    exact ⟨lowerChars_ne_nil_iff.mpr nonempty, lowerChars before, lowerChars behind,
      by simp only [lowerChars, List.map_append]⟩

/-- A value that has the expected one as a part, but for the case of letters, can be spelled so that
it has it as it is. -/
theorem exists_spelledPart (split : lowerChars value = before ++ lowerChars expected ++ behind) :
    ∃ front back, lowerChars front = before ∧ lowerChars back = behind ∧
      lowerChars (front ++ expected ++ back) = lowerChars value := by
  obtain ⟨start, back, rfl, starts, ends⟩ := List.map_eq_append_iff.mp split
  obtain ⟨front, part, rfl, inFront, same⟩ := List.map_eq_append_iff.mp starts
  refine ⟨front, back, inFront, ends, ?_⟩
  rw [split, ← inFront, ← ends]
  simp only [lowerChars, List.map_append]

/-- If an operator means something of the small letters of two texts, it means it of the expected
text and some spelling of the value. -/
theorem Meaning.exists_spelled
    (meant : operator.Meaning (lowerChars value) (lowerChars expected)) :
    ∃ spelled, lowerChars spelled = lowerChars value ∧ operator.Meaning spelled expected := by
  cases operator with
  | equals => exact ⟨expected, meant.symm, rfl⟩
  | includes =>
    obtain ⟨nonempty, noBlank, before, behind, split, last, first⟩ := meant
    obtain ⟨front, back, rfl, rfl, same⟩ := exists_spelledPart split
    rw [lowerChars, List.getLast?_map, all_isBlank_map] at last
    rw [lowerChars, List.head?_map, all_isBlank_map] at first
    exact ⟨_, same, lowerChars_ne_nil_iff.mp nonempty, noBlank_lowerChars_iff.mp noBlank, front, back,
      rfl, last, first⟩
  | dashMatch =>
    obtain same | ⟨rest, split⟩ := meant
    · exact ⟨expected, same.symm, .inl rfl⟩
    · rw [← List.nil_append (lowerChars expected)] at split
      obtain ⟨front, back, nothing, behind, same⟩ := exists_spelledPart split
      -- The hyphen has no other form.
      obtain ⟨c, rest, rfl, hyphen, _⟩ := List.map_eq_cons_iff.mp behind
      obtain rfl := List.map_eq_nil_iff.mp nothing
      obtain rfl := Text.eq_hyphen_of_toLower hyphen
      exact ⟨_, same, .inr ⟨rest, rfl⟩⟩
  | prefixMatch =>
    obtain ⟨nonempty, rest, split⟩ := meant
    rw [← List.nil_append (lowerChars expected)] at split
    obtain ⟨front, back, nothing, _, same⟩ := exists_spelledPart split
    obtain rfl := List.map_eq_nil_iff.mp nothing
    exact ⟨_, same, lowerChars_ne_nil_iff.mp nonempty, back, rfl⟩
  | suffixMatch =>
    obtain ⟨nonempty, rest, split⟩ := meant
    rw [← List.append_nil (rest ++ lowerChars expected)] at split
    obtain ⟨front, back, _, nothing, same⟩ := exists_spelledPart split
    obtain rfl := List.map_eq_nil_iff.mp nothing
    exact ⟨_, same, lowerChars_ne_nil_iff.mp nonempty, front, List.append_nil _⟩
  | substringMatch =>
    obtain ⟨nonempty, before, behind, split⟩ := meant
    obtain ⟨front, back, _, _, same⟩ := exists_spelledPart split
    exact ⟨_, same, lowerChars_ne_nil_iff.mp nonempty, front, back, rfl⟩

end AttributeOperator

/-! ## Tests -/

namespace AttributeTest

variable {operator : AttributeOperator} {expected value : String}

/-- Without regard to case a value is accepted if some spelling of it is accepted as it stands. -/
theorem accepts_ignoreCase_iff :
    accepts ⟨operator, expected, some .ignoreCase⟩ value = true ↔
      ∃ spelled, Text.SameLetters value spelled ∧ operator.accepts spelled expected = true := by
  simp only [accepts, AttributeOperator.accepts_iff_meaning, Text.sameLetters_iff]
  constructor
  · intro meant
    rw [Text.lower, Text.lower, String.toList_ofList, String.toList_ofList] at meant
    obtain ⟨spelled, same, meant⟩ := meant.exists_spelled
    refine ⟨String.ofList spelled, ?_, by rwa [String.toList_ofList]⟩
    rw [Text.lower, Text.lower, String.toList_ofList, same]
  · rintro ⟨spelled, same, meant⟩
    rw [same, Text.lower, Text.lower, String.toList_ofList, String.toList_ofList]
    exact meant.lower

theorem accepts_ignoreCase_of_accepts {flag : Option CaseFlag}
    (accepted : accepts ⟨operator, expected, flag⟩ value = true) :
    accepts ⟨operator, expected, some .ignoreCase⟩ value = true := by
  rcases flag with _ | _ | _
  · exact accepts_ignoreCase_iff.mpr ⟨value, Text.sameLetters_iff.mpr rfl, accepted⟩
  · exact accepted
  · exact accepts_ignoreCase_iff.mpr ⟨value, Text.sameLetters_iff.mpr rfl, accepted⟩

theorem accepts_ignoreCase_congr {otherExpected otherValue : String}
    (same : Text.SameLetters value otherValue)
    (sameExpected : Text.SameLetters expected otherExpected) :
    accepts ⟨operator, expected, some .ignoreCase⟩ value =
      accepts ⟨operator, otherExpected, some .ignoreCase⟩ otherValue := by
  simp only [accepts, Text.sameLetters_iff.mp same, Text.sameLetters_iff.mp sameExpected]

end AttributeTest

namespace SubclassSelector

/-- The condition `[name op "value" flag]`. -/
def comparing (name : String) (operator : AttributeOperator) (value : String)
    (flag : Option CaseFlag) : SubclassSelector :=
  .attribute ⟨name, some ⟨operator, value, flag⟩⟩

variable {ν : Type} {view : View ν} {node : ν} {name : String} {operator : AttributeOperator}
  {expected : String} {flag : Option CaseFlag}

theorem test_comparing_eq_true_iff : (comparing name operator expected flag).test view node = .ok true ↔
    view.knows node = true ∧ ∃ value, view.attributeValue node name = some value ∧
      AttributeTest.accepts ⟨operator, expected, flag⟩ value = true := by
  rw [comparing, test, View.ask]
  by_cases known : view.knows node = true
  · cases view.attributeValue node name <;> simp [known, AttributeSelector.accepts]
  · simp [known]

end SubclassSelector

theorem AttributeSelector.accepts_ignoreCase_congr {name otherName : String}
    {operator : AttributeOperator} {expected otherExpected : String} {value otherValue : Option String}
    (same : Option.Rel Text.SameLetters value otherValue)
    (sameExpected : Text.SameLetters expected otherExpected) :
    accepts ⟨name, some ⟨operator, expected, some .ignoreCase⟩⟩ value =
      accepts ⟨otherName, some ⟨operator, otherExpected, some .ignoreCase⟩⟩ otherValue := by
  cases same with
  | none => rfl
  | some same => exact AttributeTest.accepts_ignoreCase_congr same sameExpected

open SubclassSelector (comparing)

/-- What the flag `i` does to an attribute test. The test is met wherever it is met without the flag;
it has the same outcome for values, and expected values, that differ in the case of ASCII letters
only; and it is met exactly where some such spelling of the value passes without the flag, so that
all other characters count as they are. -/
theorem test_ignoreCase {ν μ : Type} (view : View ν) (node : ν) (other : View μ) (twin : μ)
    (name otherName : String) (operator : AttributeOperator) (expected otherExpected : String) :
    (∀ flag, (comparing name operator expected flag).test view node = .ok true →
      (comparing name operator expected (some .ignoreCase)).test view node = .ok true) ∧
    (view.knows node = other.knows twin →
      Option.Rel Text.SameLetters (view.attributeValue node name)
        (other.attributeValue twin otherName) →
      Text.SameLetters expected otherExpected →
      (comparing name operator expected (some .ignoreCase)).test view node =
        (comparing otherName operator otherExpected (some .ignoreCase)).test other twin) ∧
    ((comparing name operator expected (some .ignoreCase)).test view node = .ok true ↔
      view.knows node = true ∧ ∃ value, view.attributeValue node name = some value ∧
        ∃ spelled, Text.SameLetters value spelled ∧ operator.accepts spelled expected = true) := by
  refine ⟨fun flag => ?_, fun known values sameExpected => ?_, ?_⟩
  · simp only [SubclassSelector.test_comparing_eq_true_iff]
    rintro ⟨known, value, found, accepted⟩
    exact ⟨known, value, found, AttributeTest.accepts_ignoreCase_of_accepts accepted⟩
  · simp only [comparing, SubclassSelector.test, View.ask, known]
    rw [AttributeSelector.accepts_ignoreCase_congr values sameExpected]
  · simp only [SubclassSelector.test_comparing_eq_true_iff, AttributeTest.accepts_ignoreCase_iff]

/-- A node without links, with a language as it is written there. -/
def spokenIn (language : String) : Table where
  rows := #[
    { tag := some "p", content := none, id := none, classes := [],
      attributes := [("lang", language)], parent := none, previous := none, next := none,
      children := [] }]

/-- The long s is no other form of an S. -/
theorem test_ignoreCase_languages :
    ((comparing "lang" .dashMatch "EN" none).test (spokenIn "EN-US").view 0 = .ok true ∧
      Option.Rel Text.SameLetters ((spokenIn "EN-US").view.attributeValue 0 "lang")
        ((spokenIn "en-us").view.attributeValue 0 "lang") ∧
      Text.SameLetters "EN" "eN") ∧
    (comparing "lang" .dashMatch "EN" (some .ignoreCase)).test (spokenIn "EN-US").view 0 = .ok true ∧
    (comparing "lang" .dashMatch "eN" (some .ignoreCase)).test (spokenIn "en-us").view 0 = .ok true ∧
    ¬ ∃ spelled, Text.SameLetters "en-uſ" spelled ∧
      AttributeOperator.suffixMatch.accepts spelled "S" = true := by
  have plain : (comparing "lang" .dashMatch "EN" none).test (spokenIn "EN-US").view 0 = .ok true := by
    decide +kernel
  have values : Option.Rel Text.SameLetters ((spokenIn "EN-US").view.attributeValue 0 "lang")
      ((spokenIn "en-us").view.attributeValue 0 "lang") :=
    .some (Text.sameLetters_iff.mpr (by decide +kernel))
  have expected : Text.SameLetters "EN" "eN" := Text.sameLetters_iff.mpr (by decide +kernel)
  obtain ⟨widens, ignores, _⟩ := test_ignoreCase (spokenIn "EN-US").view 0 (spokenIn "en-us").view 0
    "lang" "lang" .dashMatch "EN" "eN"
  have ignored := widens none plain
  refine ⟨⟨plain, values, expected⟩, ignored, (ignores rfl values expected).symm.trans ignored, ?_⟩
  rw [← AttributeTest.accepts_ignoreCase_iff]
  decide +kernel

end CssSelect
