import CssSelect.Proofs.Selector.Derivation
import CssSelect.Proofs.Text.Trim
import CssSelect.Selector.Printer
import Mathlib.Control.Monad.Basic

/-!
What is written is read back. The grammar derives every written list that some text
can stand for, whatever characters its names and values hold, so the reader gives the
list back; reading itself is not looked at again here.

Two things can be written and not be read: names that are empty, and arguments that
do not close where the printer closes them.
-/
namespace CssSelect

open Grammar

/-- The argument's parenthesis closes right behind it and no sooner. -/
def ClosesAtEnd (argument : String) : Prop :=
  Parser.takeArgument 0 none (argument.toList ++ [')']) = .ok (argument.toList, [])

instance (argument : String) : Decidable (ClosesAtEnd argument) :=
  inferInstanceAs (Decidable (_ = _))

theorem closesAtEnd_iff {argument : String} : ClosesAtEnd argument ↔ Balanced argument.toList := by
  rw [ClosesAtEnd, Parser.takeArgument_eq_ok_iff]
  exact ⟨And.right, fun balanced => ⟨rfl, balanced⟩⟩

/-! ## Lists that a text can stand for -/

/-- A pseudo selector with a name in small letters and no white space around its argument. -/
structure Pseudo.WellFormed (pseudo : Pseudo) : Prop where
  nonempty : pseudo.name ≠ ""
  noCapital : pseudo.name.toList.any Char.isUpper = false
  trimmed : ∀ argument ∈ pseudo.argument, Text.IsTrimmed argument.toList

instance (pseudo : Pseudo) : Decidable pseudo.WellFormed :=
  decidable_of_iff
    (pseudo.name ≠ "" ∧ pseudo.name.toList.any Char.isUpper = false ∧
      ∀ argument ∈ pseudo.argument, Text.IsTrimmed argument.toList)
    ⟨fun ⟨nonempty, noCapital, trimmed⟩ => ⟨nonempty, noCapital, trimmed⟩,
      fun ⟨nonempty, noCapital, trimmed⟩ => ⟨nonempty, noCapital, trimmed⟩⟩

/-- Names are not empty, and the four names of pseudo-elements are kept for these. -/
def SubclassSelector.WellFormed : SubclassSelector → Prop
  | id name | className name => name ≠ ""
  | .attribute selector => selector.name ≠ ""
  | pseudoClass pseudo => pseudo.WellFormed ∧ pseudo.name ∉ Parser.singleColonElements
  | pseudoElement pseudo => pseudo.WellFormed

instance (subclass : SubclassSelector) : Decidable subclass.WellFormed :=
  match subclass with
  | .id _ | .className _ | .attribute _ => inferInstanceAs (Decidable (_ ≠ _))
  | .pseudoClass _ => inferInstanceAs (Decidable (_ ∧ _))
  | .pseudoElement pseudo => inferInstanceAs (Decidable pseudo.WellFormed)

/-- There is a type selector or a condition, and a tag has a name. -/
structure CompoundSelector.WellFormed (compound : CompoundSelector) : Prop where
  nonempty : ¬ (compound.type = none ∧ compound.subclasses = [])
  tag : compound.type ≠ some (.tag "")
  subclasses : ∀ subclass ∈ compound.subclasses, subclass.WellFormed

instance (compound : CompoundSelector) : Decidable compound.WellFormed :=
  decidable_of_iff
    (¬ (compound.type = none ∧ compound.subclasses = []) ∧ compound.type ≠ some (.tag "") ∧
      ∀ subclass ∈ compound.subclasses, subclass.WellFormed)
    ⟨fun ⟨nonempty, tag, subclasses⟩ => ⟨nonempty, tag, subclasses⟩,
      fun ⟨nonempty, tag, subclasses⟩ => ⟨nonempty, tag, subclasses⟩⟩

/-- All compounds are well-formed. -/
structure ComplexSelector.WellFormed (selector : ComplexSelector) : Prop where
  head : selector.head.WellFormed
  tail : ∀ link ∈ selector.tail, link.2.WellFormed

instance (selector : ComplexSelector) : Decidable selector.WellFormed :=
  decidable_of_iff
    (selector.head.WellFormed ∧ ∀ link ∈ selector.tail, link.2.WellFormed)
    ⟨fun ⟨head, tail⟩ => ⟨head, tail⟩, fun ⟨head, tail⟩ => ⟨head, tail⟩⟩

/-- There is a member, and all members are well-formed. -/
structure SelectorList.WellFormed (list : SelectorList) : Prop where
  nonempty : list.members ≠ []
  members : ∀ member ∈ list.members, member.WellFormed

instance (list : SelectorList) : Decidable list.WellFormed :=
  decidable_of_iff (list.members ≠ [] ∧ ∀ member ∈ list.members, member.WellFormed)
    ⟨fun ⟨nonempty, members⟩ => ⟨nonempty, members⟩,
      fun ⟨nonempty, members⟩ => ⟨nonempty, members⟩⟩

namespace SubclassSelector

/-- The argument of a pseudo selector. -/
def argument? : SubclassSelector → Option String
  | pseudoClass pseudo | pseudoElement pseudo => pseudo.argument
  | _ => none

end SubclassSelector

/-- The arguments in a compound. -/
def CompoundSelector.arguments (compound : CompoundSelector) : List String :=
  compound.subclasses.filterMap SubclassSelector.argument?

/-- The arguments in a complex selector. -/
def ComplexSelector.arguments (selector : ComplexSelector) : List String :=
  selector.head.arguments ++ selector.tail.flatMap fun link => link.2.arguments

/-- The arguments in a list. -/
def SelectorList.arguments (list : SelectorList) : List String :=
  list.members.flatMap ComplexSelector.arguments

/-! ## Names and strings -/

theorem Name.nameText_parts (name : List Char) : NameText (name.flatMap writePart) name := by
  induction name with
  | nil => exact .nil
  | cons c name ih =>
    rw [List.flatMap_cons, writePart]
    split
    · next part => exact .plain part ih
    · exact .escaped c ih

theorem Name.isPart_of_leadsPlainly {c : Char} {rest : List Char}
    (plain : leadsPlainly c rest = true) : isPart c = true := by
  unfold leadsPlainly at plain
  split at plain
  · next hyphen => simp [isPart, hyphen]
  · simp [isPart, plain]

/-- Every name can be written so that it starts like a name, hyphens and digits included. -/
theorem Name.ident_write {name : List Char} (nonempty : name ≠ []) : Ident (write name) name := by
  cases name with
  | nil => exact absurd rfl nonempty
  | cons c rest =>
    have parts := nameText_parts rest
    rw [write]
    split
    · next plain =>
      refine ⟨.plain (isPart_of_leadsPlainly plain) parts, ?_⟩
      unfold leadsPlainly at plain
      split at plain
      · next hyphen =>
        cases rest with
        | nil => cases plain
        | cons d rest =>
          have part : isPart d = true := by
            simp only [isPart, Bool.or_eq_true] at plain ⊢
            rcases plain with start | second
            · exact .inl (.inl start)
            · exact .inr second
          simp only [Bool.or_eq_true, beq_iff_eq] at plain
          simp [writePart, part, startsHere, hyphen, plain]
      · next notHyphen => simp [startsHere, notHyphen, plain]
    · exact ⟨.escaped c parts, rfl⟩

theorem Quoted.stringText_write (value : List Char) :
    StringText '"' (value.flatMap writeChar) value := by
  induction value with
  | nil => exact .nil
  | cons c value ih =>
    rw [List.flatMap_cons, writeChar]
    split
    · exact .escaped c ih
    · next plain =>
      simp only [Bool.or_eq_true, beq_iff_eq, not_or] at plain
      exact .plain plain.1 plain.2 ih

theorem toList_ne_nil {text : String} (nonempty : text ≠ "") : text.toList ≠ [] := by
  intro empty
  apply nonempty
  rw [← text.ofList_toList, empty]

theorem Name.ident_write_toList {name : String} (nonempty : name ≠ "") :
    Ident (write name.toList) name.toList :=
  ident_write (toList_ne_nil nonempty)

theorem Text.lowerChars_eq_self {text : List Char} (noCapital : text.any Char.isUpper = false) :
    lowerChars text = text := by
  have same : ∀ c ∈ text, c.toLower = id c := by
    intro c member
    have small := List.any_eq_false.mp noCapital c member
    exact dif_neg (of_decide_eq_false (eq_false_of_ne_true small))
  rw [lowerChars, List.map_congr_left same, List.map_id]

/-! ## Written conditions -/

theorem AttributeTest.valueText_write (test : AttributeTest) :
    ∃ text, test.write = test.operator.symbol.toList ++ text ∧
      ValueText text test.value.toList test.flag := by
  have body := Quoted.stringText_write test.value.toList
  obtain ⟨operator, value, flag⟩ := test
  have quoted : ∀ {ending : List Char} {flag : Option CaseFlag}, EndingText ending flag →
      ValueText (Quoted.write value.toList ++ ending) value.toList flag := by
    intro ending flag ended
    simpa [Quoted.write] using ValueText.quoted (.inl rfl) body ended
  have blank : Blanks [' '] := by simp [Blanks, Text.isBlank]
  have noBlanks : Blanks [] := by simp [Blanks]
  cases flag with
  | none => exact ⟨_, by simp [write], quoted (.bare noBlanks)⟩
  | some flag =>
    cases flag with
    | ignoreCase =>
      have ended : EndingText [' ', 'i'] (some .ignoreCase) :=
        .flagged blank (.ignoreCase (.inl rfl)) noBlanks
      exact ⟨_, by simp [write, CaseFlag.write], quoted ended⟩
    | exact =>
      have ended : EndingText [' ', 's'] (some .exact) :=
        .flagged blank (.exact (.inl rfl)) noBlanks
      exact ⟨_, by simp [write, CaseFlag.write], quoted ended⟩

theorem AttributeSelector.subclassText_write {selector : AttributeSelector}
    (nonempty : selector.name ≠ "") : SubclassText selector.write (.attribute selector) := by
  have ident := Name.ident_write_toList nonempty
  have noBlanks : Blanks [] := by simp [Blanks]
  obtain ⟨name, test⟩ := selector
  cases test with
  | none =>
    have body := AttributeText.present noBlanks ident noBlanks
    simpa [write, String.ofList_toList] using SubclassText.bracketed body
  | some test =>
    obtain ⟨text, split, reads⟩ := test.valueText_write
    have body := AttributeText.test noBlanks ident noBlanks test.operator noBlanks reads
    simpa [write, split, String.ofList_toList] using SubclassText.bracketed body

theorem Pseudo.pseudoText_write {pseudo : Pseudo} (wellFormed : pseudo.WellFormed)
    (closes : ∀ argument ∈ pseudo.argument, ClosesAtEnd argument) :
    PseudoText pseudo.write pseudo := by
  obtain ⟨nonempty, noCapital, trimmed⟩ := wellFormed
  have ident := Name.ident_write_toList nonempty
  have lower := Text.lowerChars_eq_self noCapital
  obtain ⟨name, argument⟩ := pseudo
  cases argument with
  | none => simpa [write, lower, String.ofList_toList] using PseudoText.plain ident
  | some argument =>
    have balanced := closesAtEnd_iff.mp (closes argument rfl)
    have trims := Text.trim_eq_self (trimmed argument rfl)
    simpa [write, lower, trims, String.ofList_toList] using PseudoText.functional ident balanced

theorem SubclassSelector.subclassText_write {subclass : SubclassSelector}
    (wellFormed : subclass.WellFormed)
    (closes : ∀ argument ∈ subclass.argument?, ClosesAtEnd argument) :
    SubclassText subclass.write subclass := by
  cases subclass with
  | id name =>
    have body := Name.ident_write_toList wellFormed
    simpa [write, String.ofList_toList] using SubclassText.id body.reads (toList_ne_nil wellFormed)
  | className name =>
    simpa [write, String.ofList_toList] using
      SubclassText.className (Name.ident_write_toList wellFormed)
  | «attribute» selector => exact selector.subclassText_write wellFormed
  | pseudoClass pseudo =>
    exact .pseudoClass (pseudo.pseudoText_write wellFormed.1 closes) wellFormed.2
  | pseudoElement pseudo => exact .pseudoElement (pseudo.pseudoText_write wellFormed closes)

/-! ## Written lists -/

theorem Grammar.subclassesText_flatMap {subclasses : List SubclassSelector}
    (reads : ∀ subclass ∈ subclasses, SubclassText subclass.write subclass) :
    SubclassesText (subclasses.flatMap SubclassSelector.write) subclasses := by
  induction subclasses with
  | nil => exact .nil
  | cons subclass others ih =>
    exact .cons (reads subclass List.mem_cons_self)
      (ih fun other member => reads other (List.mem_cons_of_mem _ member))

theorem CompoundSelector.compoundText_write {compound : CompoundSelector}
    (wellFormed : compound.WellFormed)
    (closes : ∀ argument ∈ compound.arguments, ClosesAtEnd argument) :
    CompoundText compound.write compound := by
  have conditions := Grammar.subclassesText_flatMap fun subclass member =>
    SubclassSelector.subclassText_write (wellFormed.subclasses subclass member)
      fun argument found => closes argument (List.mem_filterMap.mpr ⟨subclass, member, found⟩)
  obtain ⟨nonempty, tag, _⟩ := wellFormed
  obtain ⟨type, subclasses⟩ := compound
  cases type with
  | none =>
    have notEmpty : subclasses.isEmpty = false := by simpa using nonempty
    simpa [write, notEmpty] using CompoundText.mk .none conditions nonempty
  | some type =>
    cases type with
    | universal => exact .mk .universal conditions nonempty
    | tag name =>
      have named : name ≠ "" := by
        rintro rfl
        exact tag rfl
      have ident := Name.ident_write_toList named
      simpa [write, TypeSelector.write, String.ofList_toList] using
        CompoundText.mk (.tag ident) conditions (by simp)

theorem Combinator.combinatorText_write (combinator : Combinator) :
    CombinatorText combinator.write combinator := by
  have blank : Blanks [' '] := by simp [Blanks, Text.isBlank]
  cases combinator with
  | descendant => exact .descendant blank (List.cons_ne_nil _ _)
  | child | nextSibling | subsequentSibling | column => exact .symbol (by decide) blank blank

theorem ComplexSelector.complexText_write {selector : ComplexSelector}
    (wellFormed : selector.WellFormed)
    (closes : ∀ argument ∈ selector.arguments, ClosesAtEnd argument) :
    ComplexText selector.write selector := by
  obtain ⟨head, tail⟩ := selector
  obtain ⟨headFormed, tailFormed⟩ := wellFormed
  refine .mk (head.compoundText_write headFormed fun argument member =>
    closes argument (List.mem_append_left _ member)) ?_
  have tailCloses : ∀ link ∈ tail, ∀ argument ∈ link.2.arguments, ClosesAtEnd argument :=
    fun link member argument found =>
      closes argument (List.mem_append_right _ (List.mem_flatMap.mpr ⟨link, member, found⟩))
  clear closes headFormed
  induction tail with
  | nil => exact .stop (by simp [Blanks])
  | cons link tail ih =>
    have compound := link.2.compoundText_write (tailFormed link List.mem_cons_self)
      (tailCloses link List.mem_cons_self)
    exact .join link.1.combinatorText_write compound
      (ih (fun other member => tailFormed other (List.mem_cons_of_mem _ member))
        fun other member => tailCloses other (List.mem_cons_of_mem _ member))

theorem Grammar.MembersText.cons_blank {text : List Char} {members : List ComplexSelector}
    (reads : MembersText text members) : MembersText (' ' :: text) members := by
  have grows : ∀ {blanks : List Char}, Blanks blanks → Blanks (' ' :: blanks) := by
    intro blanks run c member
    rcases List.mem_cons.mp member with rfl | member
    · rfl
    · exact run c member
  cases reads with
  | last before reads => exact .last (grows before) reads
  | more before reads behind => exact .more (grows before) reads behind

theorem SelectorList.membersText_write {members : List ComplexSelector} (nonempty : members ≠ [])
    (reads : ∀ member ∈ members, ComplexText member.write member) :
    MembersText (writeMembers members) members := by
  have noBlanks : Blanks [] := by simp [Blanks]
  induction members with
  | nil => exact absurd rfl nonempty
  | cons selector others ih =>
    have first := reads selector List.mem_cons_self
    cases others with
    | nil =>
      have whole := MembersText.last noBlanks first
      exact whole
    | cons next others =>
      have behind := ih (List.cons_ne_nil _ _)
        fun member found => reads member (List.mem_cons_of_mem _ found)
      have whole := MembersText.more noBlanks first behind.cons_blank
      exact whole

/-- The written form of a well-formed list stands for that list. -/
theorem SelectorList.derives_display {list : SelectorList} (wellFormed : list.WellFormed)
    (closes : ∀ argument ∈ list.arguments, ClosesAtEnd argument) : Derives list.display list := by
  rw [Derives, display, String.toList_ofList]
  apply membersText_write wellFormed.nonempty
  intro member found
  exact member.complexText_write (wellFormed.members member found)
    fun argument inside => closes argument (List.mem_flatMap.mpr ⟨member, found, inside⟩)

/-- Reading undoes writing on every well-formed list whose arguments close where they end,
so two such lists are never written in the same way. -/
theorem SelectorList.parse_display (list : SelectorList) (wellFormed : list.WellFormed)
    (closes : ∀ argument ∈ list.arguments, ClosesAtEnd argument) :
    parse list.display = .ok list ∧
      ∀ other : SelectorList, other.WellFormed →
        (∀ argument ∈ other.arguments, ClosesAtEnd argument) →
        other.display = list.display → other = list := by
  have back := parse_of_derives (derives_display wellFormed closes)
  refine ⟨back, fun other otherFormed otherCloses same => ?_⟩
  have otherBack := parse_of_derives (derives_display otherFormed otherCloses)
  rw [same, back] at otherBack
  exact (Except.ok.inj otherBack).symm

/-- Names that begin like no name, marks in a value, and an argument that quotes and escapes
parentheses. -/
def awkward : SelectorList where
  members := [
    { head := ⟨some (.tag "-1"), [.className "a b", .attribute ⟨"]", some ⟨.equals, "\"\\\n", some .exact⟩⟩]⟩
      tail := [(.column, ⟨none, [.id "1", .pseudoClass ⟨"is", some "\")\" \\)"⟩]⟩)] },
    { head := ⟨some .universal, [.pseudoElement ⟨"before", none⟩]⟩
      tail := [(.descendant, ⟨some (.tag ">"), []⟩)] }]

theorem parse_display_awkward :
    (awkward.WellFormed ∧ ∀ argument ∈ awkward.arguments, ClosesAtEnd argument) ∧
      SelectorList.parse awkward.display = .ok awkward := by
  have wellFormed : awkward.WellFormed := by decide +kernel
  have closes : ∀ argument ∈ awkward.arguments, ClosesAtEnd argument := by decide +kernel
  exact ⟨⟨wellFormed, closes⟩, (SelectorList.parse_display awkward wellFormed closes).1⟩

end CssSelect
