import CssSelect.Proofs.Selector.Argument

/-!
Single conditions are read as the grammar says. Every reader is dealt with twice. What
it takes is a piece of the grammar, and what it leaves begins where the piece ends;
and a piece in front of a text that cannot go on with it is taken whole. The second
is where the grammar's freedom has to be given up: blanks belong to the piece that
they stand in, and a name ends where no character of a name follows.
-/
namespace CssSelect.Parser

open Grammar

/-! ## Attribute selectors -/

theorem takeOperator_append (operator : AttributeOperator) (rest : List Char) :
    takeOperator (operator.symbol.toList ++ rest) = .ok (operator, rest) := by
  cases operator <;> rfl

theorem eq_of_takeOperator {text rest : List Char} {operator : AttributeOperator}
    (h : takeOperator text = .ok (operator, rest)) : text = operator.symbol.toList ++ rest := by
  unfold takeOperator at h
  split at h <;> cases h <;> rfl

/-- An operator ends the name in front of it, and is no blank and no bracket. -/
theorem symbol_cons (operator : AttributeOperator) : ∃ c rest, operator.symbol.toList = c :: rest ∧
    Name.leads c = false ∧ Text.isBlank c = false ∧ c ≠ ']' := by
  cases operator <;> exact ⟨_, _, rfl, by decide, by decide, by decide⟩

theorem takeValue_quoted {mark : Char} (isMark : IsMark mark) {text value : List Char}
    (body : StringText mark text value) (rest : List Char) :
    takeValue (mark :: text ++ mark :: rest) = .ok (value, rest) := by
  rcases isMark with rfl | rfl
  · exact Quoted.take_append (.inl rfl) body rest
  · exact Quoted.take_append (.inr rfl) body rest

theorem takeValue_name {text value rest : List Char} (body : NameText text value)
    (nonempty : value ≠ []) (stop : Name.endsBefore rest = true) :
    takeValue (text ++ rest) = .ok (value, rest) := by
  have whole := Name.take_append body stop
  obtain ⟨c, left, rfl, first⟩ := Name.cons_of_nameText body nonempty
  have notDouble : c ≠ '"' := Name.ne_of_leads first (by decide)
  have notSingle : c ≠ '\'' := Name.ne_of_leads first (by decide)
  unfold takeValue
  split
  · next shown => exact absurd (List.cons.inj shown).1 notDouble
  · next shown => exact absurd (List.cons.inj shown).1 notSingle
  · rw [whole]
    cases value with
    | nil => exact absurd rfl nonempty
    | cons d value => rfl

/-- The text of a value without its ending. -/
theorem of_takeValue {text value rest : List Char} (h : takeValue text = .ok (value, rest)) :
    (∃ mark taken, IsMark mark ∧ text = mark :: taken ++ mark :: rest ∧ StringText mark taken value) ∨
      ∃ taken, text = taken ++ rest ∧ NameText taken value ∧ value ≠ [] ∧ Name.endsBefore rest = true := by
  unfold takeValue at h
  split at h
  · obtain ⟨taken, rfl, body⟩ := Quoted.stringText_of_take h
    exact .inl ⟨'"', taken, .inl rfl, rfl, body⟩
  · obtain ⟨taken, rfl, body⟩ := Quoted.stringText_of_take h
    exact .inl ⟨'\'', taken, .inr rfl, rfl, body⟩
  · split at h
    · cases h
    · cases h
    · next nonempty step =>
      cases h
      obtain ⟨taken, rfl, body, stop⟩ := Name.nameText_of_take step
      exact .inr ⟨taken, rfl, body, nonempty, stop⟩

/-- A flag could be the end of a name. -/
theorem leads_of_flagText {letter : List Char} {flag : CaseFlag} (reads : FlagText letter flag) :
    ∃ c, letter = [c] ∧ Name.leads c = true := by
  cases reads with
  | @ignoreCase c letter => exact ⟨c, rfl, by rcases letter with rfl | rfl <;> decide⟩
  | @exact c letter => exact ⟨c, rfl, by rcases letter with rfl | rfl <;> decide⟩

theorem takeFlag_append {text letter behind : List Char} {flag : CaseFlag}
    (reads : FlagText letter flag) (blanks : Blanks behind)
    (stop : text.head?.any Text.isBlank = false) :
    takeFlag (letter ++ behind ++ text) = (some flag, text) := by
  have skipped := Text.skipBlanks_append blanks stop
  cases reads with
  | ignoreCase letter => rcases letter with rfl | rfl <;> simp [takeFlag, skipped]
  | exact letter => rcases letter with rfl | rfl <;> simp [takeFlag, skipped]

/-- Blanks, flag and blanks in front of the closing bracket. -/
theorem takeFlag_ending {ending rest : List Char} {flag : Option CaseFlag}
    (reads : EndingText ending flag) :
    takeFlag (Text.skipBlanks (ending ++ ']' :: rest)) = (flag, ']' :: rest) := by
  cases reads with
  | bare behind =>
    rw [Text.skipBlanks_append behind rfl]
    rfl
  | @flagged before letter behind flag blanksBefore reads blanksBehind =>
    have stop : (letter ++ behind ++ ']' :: rest).head?.any Text.isBlank = false := by
      obtain ⟨c, rfl, first⟩ := leads_of_flagText reads
      simpa using Name.not_isBlank_of_leads first
    rw [List.append_assoc, List.append_assoc, ← List.append_assoc letter,
      Text.skipBlanks_append blanksBefore stop]
    exact takeFlag_append reads blanksBehind rfl

theorem ending_of_takeFlag {text rest : List Char} {flag : Option CaseFlag}
    (h : takeFlag (Text.skipBlanks text) = (flag, rest)) :
    ∃ ending, text = ending ++ rest ∧ EndingText ending flag := by
  obtain ⟨before, whole, blanksBefore, _⟩ := Text.skipBlanks_split text
  have flagged : ∀ (c : Char) (left : List Char) (found : CaseFlag), Text.skipBlanks text = c :: left →
      FlagText [c] found → Text.skipBlanks left = rest →
      ∃ ending, text = ending ++ rest ∧ EndingText ending (some found) := by
    intro c left found shown reads closed
    obtain ⟨behind, split, blanksBehind, _⟩ := Text.skipBlanks_split left
    refine ⟨before ++ [c] ++ behind, ?_, .flagged blanksBefore reads blanksBehind⟩
    rw [whole, shown, split, closed]
    simp
  unfold takeFlag at h
  split at h
  · next left shown =>
    obtain ⟨rfl, closed⟩ := Prod.mk.inj h
    exact flagged _ left _ shown (.ignoreCase (.inl rfl)) closed
  · next left shown =>
    obtain ⟨rfl, closed⟩ := Prod.mk.inj h
    exact flagged _ left _ shown (.ignoreCase (.inr rfl)) closed
  · next left shown =>
    obtain ⟨rfl, closed⟩ := Prod.mk.inj h
    exact flagged _ left _ shown (.exact (.inl rfl)) closed
  · next left shown =>
    obtain ⟨rfl, closed⟩ := Prod.mk.inj h
    exact flagged _ left _ shown (.exact (.inr rfl)) closed
  · obtain ⟨rfl, closed⟩ := Prod.mk.inj h
    exact ⟨before, by rw [← closed]; exact whole, .bare blanksBefore⟩

/-- A value begins with its mark or like a name, so never with a blank. -/
theorem head_of_valueText {text value : List Char} {flag : Option CaseFlag}
    (reads : ValueText text value flag) (rest : List Char) :
    (text ++ rest).head?.any Text.isBlank = false := by
  cases reads with
  | quoted isMark body ending =>
    rcases isMark with rfl | rfl <;> rfl
  | name body nonempty ending separated =>
    obtain ⟨c, left, rfl, first⟩ := Name.cons_of_nameText body nonempty
    simpa using Name.not_isBlank_of_leads first

theorem endsBefore_of_isBlank {c : Char} (blank : Text.isBlank c = true) (rest : List Char) :
    Name.endsBefore (c :: rest) = true := by
  cases first : Name.leads c with
  | false => simp [Name.endsBefore, first]
  | true =>
    rw [Name.not_isBlank_of_leads first] at blank
    cases blank

/-- A name that ends in front of an ending is kept apart from its flag. -/
theorem separated_of_endsBefore {ending rest : List Char} {flag : Option CaseFlag}
    (reads : EndingText ending flag) (stop : Name.endsBefore (ending ++ rest) = true) :
    flag ≠ none → ending.head?.any Text.isBlank = true := by
  intro flagged
  cases reads with
  | bare behind => exact absurd rfl flagged
  | @flagged before letter behind flag blanksBefore reads blanksBehind =>
    cases before with
    | nil =>
      obtain ⟨c, rfl, first⟩ := leads_of_flagText reads
      simp [Name.endsBefore, first] at stop
    | cons c left => simpa using blanksBefore c List.mem_cons_self

theorem endsBefore_of_head {text : List Char} (blank : text.head?.any Text.isBlank = true)
    (rest : List Char) : Name.endsBefore (text ++ rest) = true := by
  cases text with
  | nil => cases blank
  | cons c left => exact endsBefore_of_isBlank (by simpa using blank) _

theorem endsBefore_ending {ending : List Char} {flag : Option CaseFlag}
    (reads : EndingText ending flag)
    (separated : flag ≠ none → ending.head?.any Text.isBlank = true) (rest : List Char) :
    Name.endsBefore (ending ++ ']' :: rest) = true := by
  cases reads with
  | bare behind =>
    cases ending with
    | nil => rfl
    | cons c left => exact endsBefore_of_isBlank (behind c List.mem_cons_self) _
  | flagged _ _ _ => exact endsBefore_of_head (separated (Option.some_ne_none _)) _

theorem takeTest_append {between text value : List Char} {flag : Option CaseFlag}
    (operator : AttributeOperator) (blanks : Blanks between) (reads : ValueText text value flag)
    (rest : List Char) :
    takeTest (operator.symbol.toList ++ (between ++ (text ++ ']' :: rest))) =
      .ok (⟨operator, String.ofList value, flag⟩, rest) := by
  have behind := Text.skipBlanks_append blanks (head_of_valueText reads (']' :: rest))
  cases reads with
  | @quoted mark body value ending flag isMark reads ended =>
    have split : mark :: body ++ mark :: ending ++ ']' :: rest =
        mark :: body ++ mark :: (ending ++ ']' :: rest) := by simp
    rw [split] at behind ⊢
    simp only [takeTest, takeOperator_append, behind, takeValue_quoted isMark reads,
      takeFlag_ending ended]
  | @name body value ending flag reads nonempty ended separated =>
    rw [List.append_assoc body] at behind ⊢
    have stop := endsBefore_ending ended separated rest
    simp only [takeTest, takeOperator_append, behind, takeValue_name reads nonempty stop,
      takeFlag_ending ended]

/-- A value that was taken with the ending behind it. -/
theorem valueText_of_takeValue {text value ending rest : List Char} {flag : Option CaseFlag}
    (h : takeValue text = .ok (value, ending ++ rest)) (ended : EndingText ending flag) :
    ∃ tested, text = tested ++ rest ∧ ValueText tested value flag := by
  rcases of_takeValue h with ⟨mark, taken, isMark, shown, body⟩ | ⟨taken, shown, body, nonempty, stop⟩
  · exact ⟨mark :: taken ++ mark :: ending, by simp [shown], .quoted isMark body ended⟩
  · have separated := separated_of_endsBefore ended stop
    exact ⟨taken ++ ending, by simp [shown], .name body nonempty ended separated⟩

theorem of_takeTest {text rest : List Char} {test : AttributeTest}
    (h : takeTest text = .ok (test, rest)) :
    ∃ operator between valueText value flag, Blanks between ∧ ValueText valueText value flag ∧
      text = operator.symbol.toList ++ (between ++ (valueText ++ ']' :: rest)) ∧
        test = ⟨operator, String.ofList value, flag⟩ := by
  unfold takeTest at h
  split at h
  · cases h
  · next operator afterOperator first =>
    obtain rfl := eq_of_takeOperator first
    obtain ⟨between, split, blanks, _⟩ := Text.skipBlanks_split afterOperator
    split at h
    · cases h
    · next value afterValue second =>
      split at h
      · next flag afterFlag third =>
        cases h
        obtain ⟨ending, rfl, ended⟩ := ending_of_takeFlag third
        obtain ⟨tested, shown, reads⟩ := valueText_of_takeValue second ended
        exact ⟨operator, between, tested, value, flag, blanks, reads, by rw [split, shown], rfl⟩
      · cases h

/-- A name behind blanks, with more blanks behind it, up to a character that ends a name. -/
theorem takeName_append {before text name behind rest : List Char} (place : NamePlace)
    (blanksBefore : Blanks before) (ident : Ident text name) (blanksBehind : Blanks behind)
    (stop : Name.endsBefore rest = true) :
    Name.takeAt place (Text.skipBlanks (before ++ (text ++ (behind ++ rest)))) =
      .ok (name, behind ++ rest) := by
  have stopBehind : Name.endsBefore (behind ++ rest) = true := by
    cases behind with
    | nil => exact stop
    | cons c left => exact endsBefore_of_isBlank (blanksBehind c List.mem_cons_self) _
  have solid : (text ++ (behind ++ rest)).head?.any Text.isBlank = false := by
    obtain ⟨c, left, rfl, first⟩ := Name.cons_of_nameText ident.reads (Name.ne_nil_of_ident ident)
    simpa using Name.not_isBlank_of_leads first
  rw [Text.skipBlanks_append blanksBefore solid, Name.takeAt_append ident stopBehind]

theorem takeAttribute_append {text : List Char} {selector : AttributeSelector}
    (reads : AttributeText text selector) (rest : List Char) :
    takeAttribute (text ++ ']' :: rest) = .ok (selector, rest) := by
  cases reads with
  | @present before text name behind blanksBefore ident blanksBehind =>
    have split : before ++ text ++ behind ++ ']' :: rest =
        before ++ (text ++ (behind ++ ']' :: rest)) := by simp
    have closing : Text.skipBlanks (behind ++ ']' :: rest) = ']' :: rest :=
      Text.skipBlanks_append blanksBehind rfl
    rw [split, takeAttribute, takeName_append .attribute blanksBefore ident blanksBehind (by rfl)]
    simp only [closing]
  | @test before text name behind between tested value flag blanksBefore ident blanksBehind operator
      blanksBetween reads =>
    have split : before ++ text ++ behind ++ operator.symbol.toList ++ between ++ tested ++ ']' :: rest =
        before ++ (text ++ (behind ++ (operator.symbol.toList ++ (between ++ (tested ++ ']' :: rest))))) := by
      simp
    have whole := takeTest_append operator blanksBetween reads rest
    obtain ⟨c, left, symbol, notLeads, notBlank, notBracket⟩ := symbol_cons operator
    rw [symbol] at split whole
    have stop : Name.endsBefore (c :: left ++ (between ++ (tested ++ ']' :: rest))) = true := by
      simp [Name.endsBefore, notLeads]
    have solid : (c :: left ++ (between ++ (tested ++ ']' :: rest))).head?.any Text.isBlank = false := by
      simpa using notBlank
    rw [symbol, split, takeAttribute, takeName_append .attribute blanksBefore ident blanksBehind stop]
    simp only [Text.skipBlanks_append blanksBehind solid]
    split
    · next shown => exact absurd (List.cons.inj shown).1 notBracket
    · simp only [whole]

theorem of_takeAttribute {text rest : List Char} {selector : AttributeSelector}
    (h : takeAttribute text = .ok (selector, rest)) :
    ∃ taken, text = taken ++ ']' :: rest ∧ AttributeText taken selector := by
  obtain ⟨before, whole, blanksBefore, _⟩ := Text.skipBlanks_split text
  unfold takeAttribute at h
  split at h
  · cases h
  · next name afterName first =>
    obtain ⟨taken, shown, ident, _⟩ := Name.ident_of_takeAt first
    obtain ⟨behind, split, blanksBehind, _⟩ := Text.skipBlanks_split afterName
    split at h
    · next left closed =>
      cases h
      refine ⟨before ++ taken ++ behind, ?_, .present blanksBefore ident blanksBehind⟩
      rw [whole, shown, split, closed]
      simp
    · split at h
      · cases h
      · next test afterTest second =>
        cases h
        obtain ⟨operator, between, tested, value, flag, blanksBetween, reads, remains, rfl⟩ :=
          of_takeTest second
        refine ⟨before ++ taken ++ behind ++ operator.symbol.toList ++ between ++ tested, ?_,
          .test blanksBefore ident blanksBehind operator blanksBetween reads⟩
        rw [whole, shown, split, remains]
        simp

/-! ## Pseudo selectors -/

/-- Whether a condition ends in front of this text: it could go on with a name or an argument. -/
def conditionEnds (text : List Char) : Bool :=
  !text.head?.any fun c => Name.leads c || c == '('

theorem conditionEnds_cons_iff {c : Char} {rest : List Char} :
    conditionEnds (c :: rest) = true ↔ Name.leads c = false ∧ c ≠ '(' := by
  simp [conditionEnds]

theorem endsBefore_of_conditionEnds {text : List Char} (stop : conditionEnds text = true) :
    Name.endsBefore text = true := by
  cases text with
  | nil => rfl
  | cons c rest => simp [Name.endsBefore, (conditionEnds_cons_iff.mp stop).1]

theorem conditionEnds_of_endsBefore {text : List Char} (stop : Name.endsBefore text = true)
    (notOpen : ∀ rest, text ≠ '(' :: rest) : conditionEnds text = true := by
  cases text with
  | nil => rfl
  | cons c rest =>
    refine conditionEnds_cons_iff.mpr ⟨by simpa [Name.endsBefore] using stop, ?_⟩
    rintro rfl
    exact notOpen rest rfl

/-- Whether a pseudo selector ends in front of this text. With an argument it is closed. -/
def pseudoEnds (pseudo : Pseudo) (rest : List Char) : Bool :=
  pseudo.argument.isSome || conditionEnds rest

/-- Whether this condition ends in front of this text: a name could go on, a bracket is closed. -/
def subclassEnds : SubclassSelector → List Char → Bool
  | .id _, rest | .className _, rest => Name.endsBefore rest
  | .attribute _, _ => true
  | .pseudoClass pseudo, rest | .pseudoElement pseudo, rest => pseudoEnds pseudo rest

theorem subclassEnds_of_conditionEnds {rest : List Char} (stop : conditionEnds rest = true)
    (subclass : SubclassSelector) : subclassEnds subclass rest = true := by
  match subclass with
  | .id _ | .className _ => exact endsBefore_of_conditionEnds stop
  | .attribute _ => rfl
  | .pseudoClass _ | .pseudoElement _ => simp [subclassEnds, pseudoEnds, stop]

theorem takePseudo_append {text rest : List Char} {pseudo : Pseudo} (place : NamePlace)
    (reads : PseudoText text pseudo) (stop : pseudoEnds pseudo rest = true) :
    takePseudo place (text ++ rest) = .ok (pseudo, rest) := by
  cases reads with
  | plain ident =>
    rw [pseudoEnds, Option.isSome_none, Bool.false_or] at stop
    have noArgument : takeArgument? rest = .ok (none, rest) := by
      unfold takeArgument?
      split
      · exact absurd rfl (conditionEnds_cons_iff.mp stop).2
      · rfl
    simp only [takePseudo, Name.takeAt_append ident (endsBefore_of_conditionEnds stop), noArgument]
  | @functional text name argument ident balanced =>
    have split : text ++ '(' :: argument ++ [')'] ++ rest =
        text ++ '(' :: (argument ++ ')' :: rest) := by simp
    have whole : takeArgument 0 none (argument ++ ')' :: rest) = .ok (argument, rest) :=
      takeArgument_eq_ok_iff.mpr ⟨rfl, balanced⟩
    rw [split, takePseudo, Name.takeAt_append ident (by rfl)]
    simp only [takeArgument?, whole]

theorem of_takePseudo {place : NamePlace} {text rest : List Char} {pseudo : Pseudo}
    (h : takePseudo place text = .ok (pseudo, rest)) :
    ∃ taken, text = taken ++ rest ∧ PseudoText taken pseudo ∧ pseudoEnds pseudo rest = true := by
  unfold takePseudo at h
  split at h
  · cases h
  · next name afterName first =>
    obtain ⟨taken, rfl, ident, stop⟩ := Name.ident_of_takeAt first
    split at h
    · cases h
    · next argument afterArgument second =>
      cases h
      unfold takeArgument? at second
      split at second
      · split at second
        · cases second
        · next third =>
          cases second
          obtain ⟨rfl, balanced⟩ := takeArgument_eq_ok_iff.mp third
          exact ⟨taken ++ '(' :: _ ++ [')'], by simp, .functional ident balanced, rfl⟩
      · next notOpen =>
        cases second
        exact ⟨taken, rfl, .plain ident, conditionEnds_of_endsBefore stop notOpen⟩

/-! ## One condition -/

/-- The name of a pseudo selector comes right behind its colons. -/
theorem head_of_pseudoText {text : List Char} {pseudo : Pseudo} (reads : PseudoText text pseudo) :
    ∃ c rest, text = c :: rest ∧ Name.leads c = true := by
  cases reads with
  | plain ident => exact Name.cons_of_nameText ident.reads (Name.ne_nil_of_ident ident)
  | functional ident _ =>
    obtain ⟨c, left, rfl, first⟩ := Name.cons_of_nameText ident.reads (Name.ne_nil_of_ident ident)
    exact ⟨c, _, rfl, first⟩

theorem takeSubclass_singleColon {text rest : List Char} {pseudo : Pseudo}
    (reads : PseudoText text pseudo) (stop : pseudoEnds pseudo rest = true) :
    takeSubclass (':' :: text ++ rest) = some (.ok
      (if singleColonElements.contains pseudo.name then .pseudoElement pseudo else .pseudoClass pseudo,
        rest)) := by
  have whole := takePseudo_append .pseudoClass reads stop
  obtain ⟨c, left, rfl, first⟩ := head_of_pseudoText reads
  rw [List.cons_append]
  unfold takeSubclass
  split
  · next shown => cases shown
  · next shown => cases shown
  · next shown => cases shown
  · next shown =>
    cases shown
    exact absurd first (by decide)
  · next shown =>
    obtain ⟨_, rfl⟩ := List.cons.inj shown
    rw [whole]
    simp only
    split <;> rfl
  · next other => exact absurd rfl (other _)

theorem takeSubclass_append {text rest : List Char} {subclass : SubclassSelector}
    (reads : SubclassText text subclass) (stop : subclassEnds subclass rest = true) :
    takeSubclass (text ++ rest) = some (.ok (subclass, rest)) := by
  cases reads with
  | @id text name body nonempty =>
    have whole := Name.take_append body stop
    cases name with
    | nil => exact absurd rfl nonempty
    | cons c name => simp only [takeSubclass, List.cons_append, whole]
  | className ident =>
    simp only [takeSubclass, List.cons_append, Name.takeAt_append ident stop]
  | @bracketed text selector body =>
    have split : '[' :: text ++ [']'] ++ rest = '[' :: (text ++ ']' :: rest) := by simp
    rw [split]
    simp only [takeSubclass, takeAttribute_append body rest]
  | @pseudoClass text pseudo body evaluated =>
    rw [takeSubclass_singleColon body stop, if_neg (by simpa using evaluated)]
  | @singleColonElement text pseudo body listed =>
    rw [takeSubclass_singleColon body stop, if_pos (by simpa using listed)]
  | pseudoElement body =>
    simp only [takeSubclass, List.cons_append, takePseudo_append .pseudoElement body stop]

theorem of_takeSubclass {text rest : List Char} {subclass : SubclassSelector}
    (h : takeSubclass text = some (.ok (subclass, rest))) :
    ∃ taken, text = taken ++ rest ∧ SubclassText taken subclass ∧
      subclassEnds subclass rest = true := by
  rcases takeSubclass_eq_ok h with ⟨left, name, rfl, step, nonempty, rfl⟩ | ⟨left, name, rfl, step, rfl⟩ |
    ⟨left, selector, rfl, step, rfl⟩ | ⟨left, pseudo, rfl, step, rfl⟩ | ⟨left, pseudo, rfl, step, rfl⟩
  · obtain ⟨taken, rfl, body, stop⟩ := Name.nameText_of_take step
    exact ⟨'#' :: taken, rfl, .id body nonempty, stop⟩
  · obtain ⟨taken, rfl, ident, stop⟩ := Name.ident_of_takeAt step
    exact ⟨'.' :: taken, rfl, .className ident, stop⟩
  · obtain ⟨taken, rfl, body⟩ := of_takeAttribute step
    exact ⟨'[' :: taken ++ [']'], by simp, .bracketed body, rfl⟩
  · obtain ⟨taken, rfl, body, stop⟩ := of_takePseudo step
    exact ⟨':' :: ':' :: taken, rfl, .pseudoElement body, stop⟩
  · obtain ⟨taken, rfl, body, stop⟩ := of_takePseudo step
    refine ⟨':' :: taken, rfl, ?_⟩
    split
    · next listed => exact ⟨.singleColonElement body (by simpa using listed), stop⟩
    · next evaluated => exact ⟨.pseudoClass body (by simpa using evaluated), stop⟩

end CssSelect.Parser
