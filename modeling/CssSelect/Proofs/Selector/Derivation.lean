import CssSelect.Proofs.Selector.Condition

/-!
The reader accepts exactly what the grammar derives, and returns what is derived. One
direction follows the reader: each step takes a piece of the grammar (`of_take…`). The
other follows the derivation: in front of a text that cannot go on with it a piece is
taken whole, and its pseudo selectors are announced in order (`take…_append`).

What can stand behind a compound is told from its first character, which is never the
first character of a condition or a compound; this is why reading never goes wrong
although it looks no further.
-/
namespace CssSelect

namespace CompoundSelector

/-- What reading the compound announces. -/
def announcements (compound : CompoundSelector) : List Announcement :=
  compound.subclasses.flatMap SubclassSelector.announcements

end CompoundSelector

namespace ComplexSelector

/-- What reading the compounds of a tail announces. -/
def tailAnnouncements (tail : List (Combinator × CompoundSelector)) : List Announcement :=
  tail.flatMap fun link => link.2.announcements

/-- What reading the selector announces. -/
def announcements (selector : ComplexSelector) : List Announcement :=
  selector.head.announcements ++ tailAnnouncements selector.tail

end ComplexSelector

namespace SelectorList

/-- What reading the list announces: its pseudo selectors from left to right. -/
def announcements (list : SelectorList) : List Announcement :=
  list.members.flatMap ComplexSelector.announcements

end SelectorList

namespace Reading

theorem after_nil {α : Type} (reading : Reading α) : reading.after [] id = reading := by
  obtain ⟨announced, outcome⟩ := reading
  cases outcome <;> rfl

theorem after_after {α β γ : Type} (reading : Reading α) (inner outer : List Announcement)
    (complete : α → β) (wrap : β → γ) :
    (reading.after inner complete).after outer wrap =
      reading.after (outer ++ inner) fun value => wrap (complete value) := by
  obtain ⟨announced, outcome⟩ := reading
  cases outcome <;> simp [after]

end Reading

namespace Parser

open Grammar

/-! ## Compounds -/

/-- Whether a compound is over at this character. -/
def endsCompound (c : Char) : Bool :=
  Text.isBlank c || c == ',' || c == '>' || c == '+' || c == '~' || c == '|'

/-- Whether a compound is over in front of this text. -/
def compoundEnds (text : List Char) : Bool :=
  text.head?.all endsCompound

/-- The marks that conditions begin with. -/
def IsConditionMark (c : Char) : Prop :=
  c = '#' ∨ c = '.' ∨ c = '[' ∨ c = ':'

theorem not_endsCompound_of_leads {c : Char} (first : Name.leads c = true) :
    endsCompound c = false := by
  have other : ∀ d, Name.leads d = false → (c == d) = false :=
    fun d notLeads => beq_eq_false_iff_ne.mpr (Name.ne_of_leads first notLeads)
  simp only [endsCompound, Name.not_isBlank_of_leads first, other ',' (by decide),
    other '>' (by decide), other '+' (by decide), other '~' (by decide), other '|' (by decide),
    Bool.or_false]

theorem conditionEnds_of_compoundEnds {text : List Char} (stop : compoundEnds text = true) :
    conditionEnds text = true := by
  cases text with
  | nil => rfl
  | cons c rest =>
    have ends : endsCompound c = true := by simpa [compoundEnds] using stop
    rw [conditionEnds_cons_iff]
    constructor
    · cases first : Name.leads c with
      | false => rfl
      | true =>
        rw [not_endsCompound_of_leads first] at ends
        cases ends
    · rintro rfl
      exact absurd ends (by decide)

theorem not_endsCompound_of_mark {c : Char} (isMark : IsConditionMark c) :
    endsCompound c = false := by
  rcases isMark with rfl | rfl | rfl | rfl <;> rfl

theorem takeSubclass_of_noMark {text : List Char}
    (noMark : ∀ c, text.head? = some c → ¬ IsConditionMark c) : takeSubclass text = none := by
  unfold takeSubclass
  split
  · exact absurd (.inl rfl) (noMark _ rfl)
  · exact absurd (.inr (.inl rfl)) (noMark _ rfl)
  · exact absurd (.inr (.inr (.inl rfl))) (noMark _ rfl)
  · exact absurd (.inr (.inr (.inr rfl))) (noMark _ rfl)
  · exact absurd (.inr (.inr (.inr rfl))) (noMark _ rfl)
  · rfl

theorem takeSubclass_of_compoundEnds {text : List Char} (stop : compoundEnds text = true) :
    takeSubclass text = none := by
  refine takeSubclass_of_noMark fun c first isMark => ?_
  simp [compoundEnds, first, not_endsCompound_of_mark isMark] at stop

theorem head_of_subclassText {text : List Char} {subclass : SubclassSelector}
    (reads : SubclassText text subclass) :
    ∃ c rest, text = c :: rest ∧ IsConditionMark c := by
  cases reads with
  | id _ _ => exact ⟨'#', _, rfl, .inl rfl⟩
  | className _ => exact ⟨'.', _, rfl, .inr (.inl rfl)⟩
  | bracketed _ => exact ⟨'[', _, rfl, .inr (.inr (.inl rfl))⟩
  | pseudoClass _ _ => exact ⟨':', _, rfl, .inr (.inr (.inr rfl))⟩
  | singleColonElement _ _ => exact ⟨':', _, rfl, .inr (.inr (.inr rfl))⟩
  | pseudoElement _ => exact ⟨':', _, rfl, .inr (.inr (.inr rfl))⟩

theorem conditionEnds_of_mark {c : Char} (isMark : IsConditionMark c) (rest : List Char) :
    conditionEnds (c :: rest) = true := by
  rcases isMark with rfl | rfl | rfl | rfl <;> rfl

theorem takeSubclasses_of_none {text : List Char} (missing : takeSubclass text = none) :
    takeSubclasses text = ⟨[], .ok ([], text)⟩ := by
  rw [takeSubclasses]
  split <;> simp_all

theorem takeSubclasses_of_error {text : List Char} {failure : Failure}
    (step : takeSubclass text = some (.error failure)) :
    takeSubclasses text = ⟨[], .error failure⟩ := by
  rw [takeSubclasses]
  split <;> simp_all

theorem takeSubclasses_of_some {text rest : List Char} {subclass : SubclassSelector}
    (step : takeSubclass text = some (.ok (subclass, rest))) :
    takeSubclasses text = (takeSubclasses rest).after subclass.announcements (subclass :: ·) := by
  rw [takeSubclasses]
  split <;> simp_all

/-- Whether the last of these conditions ends in front of this text. -/
def ConditionsEnd (subclasses : List SubclassSelector) (rest : List Char) : Prop :=
  ∀ last ∈ subclasses.getLast?, subclassEnds last rest = true

theorem conditionsEnd_of_conditionEnds {rest : List Char} (stop : conditionEnds rest = true)
    (subclasses : List SubclassSelector) : ConditionsEnd subclasses rest :=
  fun last _ => subclassEnds_of_conditionEnds stop last

theorem conditionsEnd_append {first second : List SubclassSelector} {rest : List Char}
    (ends : ConditionsEnd (first ++ second) rest) : ConditionsEnd second rest := by
  intro last member
  apply ends last
  rw [List.getLast?_append, Option.mem_def.mp member]
  rfl

/-- Conditions are read whatever stands behind the last of them, if only this one ends there. -/
theorem takeSubclasses_front {text rest : List Char} {subclasses : List SubclassSelector}
    (reads : SubclassesText text subclasses) (ends : ConditionsEnd subclasses rest) :
    takeSubclasses (text ++ rest) = (takeSubclasses rest).after
      (subclasses.flatMap SubclassSelector.announcements) (subclasses ++ ·) := by
  induction reads with
  | nil => exact (Reading.after_nil _).symm
  | @cons text behind subclass others first more ih =>
    have firstEnds : subclassEnds subclass (behind ++ rest) = true := by
      cases more with
      | nil => exact ends subclass rfl
      | cons next _ =>
        obtain ⟨c, left, rfl, isMark⟩ := head_of_subclassText next
        exact subclassEnds_of_conditionEnds (conditionEnds_of_mark isMark _) subclass
    have othersEnd : ConditionsEnd others rest := @conditionsEnd_append [subclass] _ _ ends
    rw [List.append_assoc, takeSubclasses_of_some (takeSubclass_append first firstEnds),
      ih othersEnd, Reading.after_after]
    rfl

theorem takeSubclasses_append {text rest : List Char} {subclasses : List SubclassSelector}
    (reads : SubclassesText text subclasses) (stop : compoundEnds rest = true) :
    takeSubclasses (text ++ rest) =
      ⟨subclasses.flatMap SubclassSelector.announcements, .ok (subclasses, rest)⟩ := by
  have ends := conditionsEnd_of_conditionEnds (conditionEnds_of_compoundEnds stop) subclasses
  rw [takeSubclasses_front reads ends,
    takeSubclasses_of_none (takeSubclass_of_compoundEnds stop), Reading.after]
  simp

theorem of_takeSubclasses {text rest : List Char} {subclasses : List SubclassSelector}
    (h : (takeSubclasses text).outcome = .ok (subclasses, rest)) :
    ∃ taken, text = taken ++ rest ∧ SubclassesText taken subclasses := by
  fun_induction takeSubclasses text generalizing subclasses with
  | case1 =>
    cases h
    exact ⟨[], rfl, .nil⟩
  | case2 => cases h
  | case3 text subclass left step _ ih =>
    obtain ⟨inner, behind, rfl⟩ := Reading.outcome_after_eq_ok h
    obtain ⟨taken, rfl, first, _⟩ := of_takeSubclass step
    obtain ⟨takenBehind, rfl, others⟩ := ih behind
    exact ⟨taken ++ takenBehind, by simp, .cons first others⟩

theorem takeType_append {text rest : List Char} {type : TypeSelector}
    (reads : TypeText text (some type)) (stop : Name.endsBefore rest = true) :
    takeType (text ++ rest) = .ok (some type, rest) := by
  cases reads with
  | universal => rfl
  | tag ident =>
    have whole := Name.take_append ident.reads stop
    obtain ⟨c, left, rfl, first⟩ := Name.cons_of_nameText ident.reads (Name.ne_nil_of_ident ident)
    have starts : Name.startsHere (c :: left ++ rest) = true := by
      rw [Name.startsHere_append (List.cons_ne_nil c left) stop]
      exact ident.starts
    unfold takeType
    split
    · next shown => exact absurd (List.cons.inj shown).1 (Name.ne_of_leads first (by decide))
    · rw [if_pos starts, whole]

theorem takeType_of_mark {c : Char} (isMark : IsConditionMark c) (rest : List Char) :
    takeType (c :: rest) = .ok (none, c :: rest) := by
  rcases isMark with rfl | rfl | rfl | rfl <;> rfl

/-- A type ends in front of the mark of a condition. -/
theorem takeType_front {typeText : List Char} {type : Option TypeSelector} {c : Char}
    (typed : TypeText typeText type) (isMark : IsConditionMark c) (rest : List Char) :
    takeType (typeText ++ c :: rest) = .ok (type, c :: rest) := by
  cases type with
  | some type =>
    exact takeType_append typed (endsBefore_of_conditionEnds (conditionEnds_of_mark isMark rest))
  | none =>
    cases typed
    exact takeType_of_mark isMark rest

theorem of_takeType {text rest : List Char} {type : Option TypeSelector}
    (h : takeType text = .ok (type, rest)) : ∃ taken, text = taken ++ rest ∧ TypeText taken type := by
  unfold takeType at h
  split at h
  · cases h
    exact ⟨['*'], rfl, .universal⟩
  · split at h
    · next starts =>
      split at h
      · cases h
      · next step =>
        cases h
        obtain ⟨taken, rfl, ident, _⟩ := Name.ident_of_take starts step
        exact ⟨taken, rfl, .tag ident⟩
    · cases h
      exact ⟨[], rfl, .none⟩

theorem takeCompound_append {text rest : List Char} {compound : CompoundSelector}
    (reads : CompoundText text compound) (stop : compoundEnds rest = true) :
    takeCompound (text ++ rest) = ⟨compound.announcements, .ok (some compound, rest)⟩ := by
  cases reads with
  | @mk typeText behind type subclasses typed conditions nonempty =>
    have whole := takeSubclasses_append conditions stop
    have typeTaken : takeType (typeText ++ (behind ++ rest)) = .ok (type, behind ++ rest) := by
      cases conditions with
      | nil =>
        cases type with
        | some type =>
          have nameStop := endsBefore_of_conditionEnds (conditionEnds_of_compoundEnds stop)
          exact takeType_append typed nameStop
        | none => exact absurd ⟨rfl, rfl⟩ nonempty
      | cons first _ =>
        obtain ⟨c, left, rfl, isMark⟩ := head_of_subclassText first
        exact takeType_front typed isMark _
    have some_of : (if type.isNone && subclasses.isEmpty then none else some ⟨type, subclasses⟩) =
        some (⟨type, subclasses⟩ : CompoundSelector) := by
      rw [if_neg]
      simpa using nonempty
    simp only [List.append_assoc, takeCompound, typeTaken, whole, Reading.after, some_of,
      List.nil_append, CompoundSelector.announcements]

/-- What is read where a compound may stand: a type and conditions, each of which may be missing. -/
theorem split_of_takeCompound {text rest : List Char} {found : Option CompoundSelector}
    (h : (takeCompound text).outcome = .ok (found, rest)) :
    ∃ typeText taken type subclasses, text = typeText ++ (taken ++ rest) ∧
      TypeText typeText type ∧ SubclassesText taken subclasses ∧
      found = if type.isNone && subclasses.isEmpty then none else some ⟨type, subclasses⟩ := by
  unfold takeCompound at h
  split at h
  · cases h
  · next type left first =>
    obtain ⟨subclasses, second, value⟩ := Reading.outcome_after_eq_ok h
    obtain ⟨typeText, rfl, typed⟩ := of_takeType first
    obtain ⟨taken, rfl, conditions⟩ := of_takeSubclasses second
    exact ⟨typeText, taken, type, subclasses, rfl, typed, conditions, value⟩

theorem of_takeCompound {text rest : List Char} {compound : CompoundSelector}
    (h : (takeCompound text).outcome = .ok (some compound, rest)) :
    ∃ taken, text = taken ++ rest ∧ CompoundText taken compound := by
  obtain ⟨typeText, taken, type, subclasses, rfl, typed, conditions, value⟩ :=
    split_of_takeCompound h
  split at value
  · cases value
  · next nonempty =>
    cases value
    refine ⟨typeText ++ taken, by simp, .mk typed conditions ?_⟩
    simpa using nonempty

/-- A compound does not begin with what can stand behind one. -/
theorem head_of_compoundText {text : List Char} {compound : CompoundSelector}
    (reads : CompoundText text compound) :
    ∃ c rest, text = c :: rest ∧ endsCompound c = false := by
  obtain ⟨typed, conditions, nonempty⟩ := reads
  cases typed with
  | none =>
    cases conditions with
    | nil => exact absurd ⟨rfl, rfl⟩ nonempty
    | cons first _ =>
      obtain ⟨c, left, rfl, isMark⟩ := head_of_subclassText first
      exact ⟨c, _, rfl, not_endsCompound_of_mark isMark⟩
  | universal => exact ⟨'*', _, rfl, rfl⟩
  | tag ident =>
    obtain ⟨c, left, rfl, first⟩ := Name.cons_of_nameText ident.reads (Name.ne_nil_of_ident ident)
    exact ⟨c, _, rfl, not_endsCompound_of_leads first⟩

/-! ## Complex selectors -/

/-- Whether a complex selector is over in front of this text. -/
def memberEnds (text : List Char) : Bool :=
  text.head?.all (· == ',')

theorem memberEnds_iff {text : List Char} :
    memberEnds text = true ↔ text = [] ∨ ∃ rest, text = ',' :: rest := by
  cases text <;> simp [memberEnds]

theorem compoundEnds_of_isBlank {c : Char} (blank : Text.isBlank c = true) (rest : List Char) :
    compoundEnds (c :: rest) = true := by
  simp [compoundEnds, endsCompound, blank]

theorem junction_stop {blanks rest : List Char} (behind : Blanks blanks)
    (stop : memberEnds rest = true) : junction (blanks ++ rest) = .stop rest := by
  rcases memberEnds_iff.mp stop with rfl | ⟨left, rfl⟩
  · rw [junction, Text.skipBlanks_append behind rfl]
  · rw [junction, Text.skipBlanks_append behind rfl]
    rfl

theorem not_isBlank_of_not_endsCompound {c : Char} (inside : endsCompound c = false) :
    Text.isBlank c = false := by
  simp only [endsCompound, Bool.or_eq_false_iff] at inside
  exact inside.1.1.1.1.1

theorem junction_symbol {before behind : List Char} {combinator : Combinator}
    (notDescendant : combinator ≠ .descendant) (blanksBefore : Blanks before)
    (blanksBehind : Blanks behind) {c : Char} (inside : endsCompound c = false) (rest : List Char) :
    junction (before ++ combinator.symbol.toList ++ behind ++ c :: rest) =
      .join combinator (c :: rest) := by
  have skipped : Text.skipBlanks (behind ++ c :: rest) = c :: rest :=
    Text.skipBlanks_append blanksBehind (by simpa using not_isBlank_of_not_endsCompound inside)
  have split : before ++ combinator.symbol.toList ++ behind ++ c :: rest =
      before ++ (combinator.symbol.toList ++ (behind ++ c :: rest)) := by simp
  have solid : (combinator.symbol.toList ++ (behind ++ c :: rest)).head?.any Text.isBlank = false := by
    cases combinator with
    | descendant => exact absurd rfl notDescendant
    | child | nextSibling | subsequentSibling | column => rfl
  rw [split, junction, Text.skipBlanks_append blanksBefore solid]
  cases combinator with
  | descendant => exact absurd rfl notDescendant
  | child | nextSibling | subsequentSibling | column => exact congrArg (Junction.join _) skipped

theorem junction_blanks {blanks : List Char} (apart : Blanks blanks) (nonempty : blanks ≠ [])
    {c : Char} (inside : endsCompound c = false) (rest : List Char) :
    junction (blanks ++ c :: rest) = .join .descendant (c :: rest) := by
  have skipped : Text.skipBlanks (blanks ++ c :: rest) = c :: rest :=
    Text.skipBlanks_append apart (by simpa using not_isBlank_of_not_endsCompound inside)
  have blank : (blanks ++ c :: rest).head?.any Text.isBlank = true := by
    cases blanks with
    | nil => exact absurd rfl nonempty
    | cons d left => simpa using apart d List.mem_cons_self
  have notEnd : ∀ d, endsCompound d = true → c ≠ d := by
    rintro d ends rfl
    rw [inside] at ends
    cases ends
  unfold junction
  rw [skipped]
  split
  · next shown => cases shown
  · next shown => exact absurd (List.cons.inj shown).1 (notEnd _ (by decide))
  · next shown => exact absurd (List.cons.inj shown).1 (notEnd _ (by decide))
  · next shown => exact absurd (List.cons.inj shown).1 (notEnd _ (by decide))
  · next shown => exact absurd (List.cons.inj shown).1 (notEnd _ (by decide))
  · next shown => exact absurd (List.cons.inj shown).1 (notEnd _ (by decide))
  · rw [if_pos blank]

theorem junction_join {text : List Char} {combinator : Combinator}
    (joined : CombinatorText text combinator) {c : Char} (inside : endsCompound c = false)
    (rest : List Char) : junction (text ++ c :: rest) = .join combinator (c :: rest) := by
  cases joined with
  | descendant apart nonempty => exact junction_blanks apart nonempty inside rest
  | symbol notDescendant blanksBefore blanksBehind =>
    exact junction_symbol notDescendant blanksBefore blanksBehind inside rest

/-- A compound behind a combinator is joined to what stands before it. -/
theorem junction_compound {text compoundText : List Char} {combinator : Combinator}
    {compound : CompoundSelector} (joined : CombinatorText text combinator)
    (reads : CompoundText compoundText compound) (rest : List Char) :
    junction (text ++ compoundText ++ rest) = .join combinator (compoundText ++ rest) := by
  obtain ⟨c, left, rfl, inside⟩ := head_of_compoundText reads
  rw [List.append_assoc]
  exact junction_join joined inside _

theorem of_junction_stop {text rest : List Char} (h : junction text = .stop rest) :
    ∃ blanks, text = blanks ++ rest ∧ Blanks blanks ∧ memberEnds rest = true := by
  obtain ⟨blanks, whole, behind, _⟩ := Text.skipBlanks_split text
  unfold junction at h
  split at h
  · next shown =>
    cases h
    exact ⟨blanks, by rw [← shown]; exact whole, behind, rfl⟩
  · next shown =>
    cases h
    exact ⟨blanks, by rw [← shown]; exact whole, behind, rfl⟩
  · cases h
  · cases h
  · cases h
  · cases h
  · split at h <;> cases h

theorem of_junction_join {text rest : List Char} {combinator : Combinator}
    (h : junction text = .join combinator rest) :
    ∃ taken, text = taken ++ rest ∧ CombinatorText taken combinator := by
  obtain ⟨before, whole, blanksBefore, solid⟩ := Text.skipBlanks_split text
  have symbol : ∀ (found : Combinator) (left : List Char), found ≠ .descendant →
      Text.skipBlanks text = found.symbol.toList ++ left → Text.skipBlanks left = rest →
      ∃ taken, text = taken ++ rest ∧ CombinatorText taken found := by
    rintro found left notDescendant shown rfl
    obtain ⟨behind, split, blanksBehind, _⟩ := Text.skipBlanks_split left
    refine ⟨before ++ found.symbol.toList ++ behind, ?_,
      .symbol notDescendant blanksBefore blanksBehind⟩
    rw [List.append_assoc, List.append_assoc, ← split, ← shown]
    exact whole
  unfold junction at h
  split at h
  · cases h
  · cases h
  · next left shown =>
    obtain ⟨rfl, skipped⟩ := Junction.join.inj h
    exact symbol .child left (by decide) shown skipped
  · next left shown =>
    obtain ⟨rfl, skipped⟩ := Junction.join.inj h
    exact symbol .nextSibling left (by decide) shown skipped
  · next left shown =>
    obtain ⟨rfl, skipped⟩ := Junction.join.inj h
    exact symbol .subsequentSibling left (by decide) shown skipped
  · next left shown =>
    obtain ⟨rfl, skipped⟩ := Junction.join.inj h
    exact symbol .column left (by decide) shown skipped
  · split at h
    · next blank =>
      obtain ⟨rfl, skipped⟩ := Junction.join.inj h
      refine ⟨before, by rw [← skipped]; exact whole, .descendant blanksBefore ?_⟩
      rintro rfl
      rw [List.nil_append] at whole
      rw [← whole, blank] at solid
      cases solid
    · cases h

theorem compoundEnds_blanks {blanks rest : List Char} (run : Blanks blanks)
    (stop : compoundEnds rest = true) : compoundEnds (blanks ++ rest) = true := by
  cases blanks with
  | nil => exact stop
  | cons c left => exact compoundEnds_of_isBlank (run c List.mem_cons_self) _

theorem compoundEnds_combinator {text : List Char} {combinator : Combinator}
    (joined : CombinatorText text combinator) (rest : List Char) :
    compoundEnds (text ++ rest) = true := by
  cases joined with
  | descendant apart nonempty =>
    cases text with
    | nil => exact absurd rfl nonempty
    | cons c left => exact compoundEnds_of_isBlank (apart c List.mem_cons_self) _
  | symbol notDescendant blanksBefore _ =>
    rw [List.append_assoc, List.append_assoc]
    apply compoundEnds_blanks blanksBefore
    cases combinator with
    | descendant => exact absurd rfl notDescendant
    | child | nextSibling | subsequentSibling | column => rfl

/-- What is behind a compound begins with a blank, a symbol or a comma. -/
theorem compoundEnds_tail {text rest : List Char} {tail : List (Combinator × CompoundSelector)}
    (reads : TailText text tail) (stop : memberEnds rest = true) :
    compoundEnds (text ++ rest) = true := by
  cases reads with
  | stop behind =>
    apply compoundEnds_blanks behind
    rcases memberEnds_iff.mp stop with rfl | ⟨left, rfl⟩ <;> rfl
  | join joined _ _ =>
    rw [List.append_assoc, List.append_assoc]
    exact compoundEnds_combinator joined _

theorem takeTail_of_stop {text rest : List Char} (stop : junction text = .stop rest) :
    takeTail text = ⟨[], .ok ([], rest)⟩ := by
  rw [takeTail]
  split <;> simp_all

theorem takeTail_of_join {text rest after : List Char} {combinator : Combinator}
    {announced : List Announcement} {compound : CompoundSelector}
    (joined : junction text = .join combinator rest)
    (read : takeCompound rest = ⟨announced, .ok (some compound, after)⟩) :
    takeTail text = (takeTail after).after announced ((combinator, compound) :: ·) := by
  rw [takeTail]
  split
  · simp_all
  · simp_all
  · next found left shown =>
    obtain ⟨rfl, rfl⟩ := Junction.join.inj (joined.symm.trans shown)
    split <;> simp_all

theorem takeTail_append {text rest : List Char} {tail : List (Combinator × CompoundSelector)}
    (reads : TailText text tail) (stop : memberEnds rest = true) :
    takeTail (text ++ rest) = ⟨ComplexSelector.tailAnnouncements tail, .ok (tail, rest)⟩ := by
  induction reads with
  | stop behind => exact takeTail_of_stop (junction_stop behind stop)
  | @join text compoundText behind combinator compound tail joined first others ih =>
    have read := takeCompound_append first (compoundEnds_tail others stop)
    have joins : junction (text ++ compoundText ++ behind ++ rest) =
        .join combinator (compoundText ++ (behind ++ rest)) := by
      rw [List.append_assoc]
      exact junction_compound joined first _
    rw [takeTail_of_join joins read, ih]
    rfl

theorem of_takeTail {text rest : List Char} {tail : List (Combinator × CompoundSelector)}
    (h : (takeTail text).outcome = .ok (tail, rest)) :
    ∃ taken, text = taken ++ rest ∧ TailText taken tail ∧ memberEnds rest = true := by
  fun_induction takeTail text generalizing tail with
  | case1 text left stop =>
    cases h
    obtain ⟨blanks, whole, behind, ends⟩ := of_junction_stop stop
    exact ⟨blanks, whole, .stop behind, ends⟩
  | case2 | case3 | case4 => cases h
  | case5 text combinator left joins announced compound after read _ ih =>
    obtain ⟨inner, behind, rfl⟩ := Reading.outcome_after_eq_ok h
    obtain ⟨text, rfl, joined⟩ := of_junction_join joins
    obtain ⟨compoundText, rfl, first⟩ := of_takeCompound (congrArg Reading.outcome read)
    obtain ⟨taken, rfl, others, ends⟩ := ih behind
    exact ⟨text ++ compoundText ++ taken, by simp, .join joined first others, ends⟩

theorem takeComplex_append {text rest : List Char} {selector : ComplexSelector}
    (reads : ComplexText text selector) (stop : memberEnds rest = true) :
    takeComplex (text ++ rest) = ⟨selector.announcements, .ok (selector, rest)⟩ := by
  cases reads with
  | @mk text behind head tail first others =>
    have read := takeCompound_append first (compoundEnds_tail others stop)
    simp only [List.append_assoc, takeComplex, read, takeTail_append others stop]
    rfl

theorem of_takeComplex {text rest : List Char} {selector : ComplexSelector}
    (h : (takeComplex text).outcome = .ok (selector, rest)) :
    ∃ taken, text = taken ++ rest ∧ ComplexText taken selector ∧ memberEnds rest = true := by
  unfold takeComplex at h
  split at h
  · cases h
  · cases h
  · next announced head behind read =>
    obtain ⟨tail, others, rfl⟩ := Reading.outcome_after_eq_ok h
    obtain ⟨text, rfl, first⟩ := of_takeCompound (congrArg Reading.outcome read)
    obtain ⟨taken, rfl, tailText, ends⟩ := of_takeTail others
    exact ⟨text ++ taken, by simp, .mk first tailText, ends⟩

/-! ## Lists -/

theorem skipBlanks_complex {blanks text : List Char} {selector : ComplexSelector}
    (before : Blanks blanks) (reads : ComplexText text selector) (rest : List Char) :
    Text.skipBlanks (blanks ++ (text ++ rest)) = text ++ rest := by
  apply Text.skipBlanks_append before
  cases reads with
  | mk first _ =>
    obtain ⟨c, left, rfl, inside⟩ := head_of_compoundText first
    simpa using not_isBlank_of_not_endsCompound inside

theorem takeMembers_of_comma {text rest : List Char} {announced : List Announcement}
    {selector : ComplexSelector}
    (read : takeComplex (Text.skipBlanks text) = ⟨announced, .ok (selector, ',' :: rest)⟩) :
    takeMembers text = (takeMembers rest).after announced (selector :: ·) := by
  rw [takeMembers]
  split <;> simp_all

theorem takeMembers_of_end {text : List Char} {announced : List Announcement}
    {selector : ComplexSelector}
    (read : takeComplex (Text.skipBlanks text) = ⟨announced, .ok (selector, [])⟩) :
    takeMembers text = ⟨announced, .ok ([selector], [])⟩ := by
  rw [takeMembers]
  split <;> simp_all

theorem takeMembers_of_text {text : List Char} {members : List ComplexSelector}
    (reads : MembersText text members) :
    takeMembers text = ⟨members.flatMap ComplexSelector.announcements, .ok (members, [])⟩ := by
  induction reads with
  | @last blanks text selector before reads =>
    have skipped := skipBlanks_complex before reads []
    have read : takeComplex (text ++ []) = ⟨selector.announcements, .ok (selector, [])⟩ :=
      takeComplex_append reads rfl
    rw [← skipped, List.append_nil] at read
    rw [takeMembers_of_end read, List.flatMap_singleton]
  | @more blanks text rest selector others before reads _ ih =>
    have read : takeComplex (text ++ ',' :: rest) =
        ⟨selector.announcements, .ok (selector, ',' :: rest)⟩ := takeComplex_append reads rfl
    rw [← skipBlanks_complex before reads, ← List.append_assoc] at read
    rw [takeMembers_of_comma read, ih]
    rfl

theorem of_takeMembers {text rest : List Char} {members : List ComplexSelector}
    (h : (takeMembers text).outcome = .ok (members, rest)) : rest = [] ∧ MembersText text members := by
  fun_induction takeMembers text generalizing members with
  | case1 => cases h
  | case2 text announced selector behind read _ ih =>
    obtain ⟨inner, others, rfl⟩ := Reading.outcome_after_eq_ok h
    obtain ⟨blanks, whole, before, _⟩ := Text.skipBlanks_split text
    obtain ⟨taken, split, first, _⟩ := of_takeComplex (congrArg Reading.outcome read)
    obtain ⟨ends, more⟩ := ih others
    rw [whole, split, ← List.append_assoc]
    exact ⟨ends, .more before first more⟩
  | case3 text announced selector behind notComma read =>
    cases h
    obtain ⟨blanks, whole, before, _⟩ := Text.skipBlanks_split text
    obtain ⟨taken, split, first, ends⟩ := of_takeComplex (congrArg Reading.outcome read)
    rcases memberEnds_iff.mp ends with rfl | ⟨left, rfl⟩
    · rw [whole, split, List.append_nil]
      exact ⟨rfl, .last before first⟩
    · exact absurd rfl (notComma left)

end Parser

namespace SelectorList

open Grammar

/-- A text that is a selector list is read to its end and announces its pseudo selectors. -/
theorem read_of_derives {text : String} {list : SelectorList} (derives : Derives text list) :
    read text = ⟨list.announcements, .ok (list, [])⟩ := by
  rw [read, Parser.takeMembers_of_text derives]
  rfl

theorem parse_of_derives {text : String} {list : SelectorList} (derives : Derives text list) :
    parse text = .ok list := by
  rw [parse, read_of_derives derives]

theorem derives_of_parse {text : String} {list : SelectorList} (h : parse text = .ok list) :
    Derives text list := by
  unfold parse at h
  split at h
  · next found rest outcome =>
    cases h
    obtain ⟨members, taken, rfl⟩ := Reading.outcome_after_eq_ok outcome
    exact (Parser.of_takeMembers taken).2
  · cases h

/-- Two lists with a comma between them are one list. -/
theorem membersText_append {text behind : List Char} {members others : List ComplexSelector}
    (reads : MembersText text members) (more : MembersText behind others) :
    MembersText (text ++ ',' :: behind) (members ++ others) := by
  induction reads with
  | last before reads => exact .more before reads more
  | more before reads _ ih =>
    rw [List.append_assoc, List.cons_append]
    exact .more before reads ih

/-- What stands on the two sides of a comma is read as if it stood alone. -/
theorem parse_append_comma {first second : String} {list other : SelectorList}
    (read : parse first = .ok list) (readOther : parse second = .ok other) :
    parse (first ++ "," ++ second) = .ok ⟨list.members ++ other.members⟩ := by
  apply parse_of_derives
  rw [Derives, String.toList_append, String.toList_append, List.append_assoc]
  exact membersText_append (derives_of_parse read) (derives_of_parse readOther)

/-- A text is accepted exactly if the grammar derives it, and what is returned is exactly
what is derived. So a text means at most one list, and nothing is left over behind it. The
depth of its parentheses is a natural number here, which a counter of 32 bits holds as long
as fewer than 2^32 of them are open at once. -/
theorem parse_eq_ok_iff_derives (text : String) (list : SelectorList) :
    parse text = .ok list ↔ Derives text list :=
  ⟨derives_of_parse, parse_of_derives⟩

end SelectorList

end CssSelect
