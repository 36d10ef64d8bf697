import CssSelect.Proofs.Selector.Lookahead

/-!
Syntax errors are local. The readers of compounds, selectors and lists are made of the readers of
conditions and look no further than these: also where a combinator, a comma or the next condition
may follow, two characters tell. So the error of a text is the error of every text that is the same
up to the error's place and two characters behind it.
-/
namespace CssSelect

open Grammar

namespace Parser

/-! ## Compounds -/

/-- A condition and the ones behind it. -/
def conditionsBehind : Option SubclassSelector → List Char → Step (List SubclassSelector)
  | none => done []
  | some subclass => fun text => complete (subclass :: ·) (takeSubclasses text).outcome

theorem outcome_after {α β : Type} (reading : Reading α) (announced : List Announcement)
    (finish : α → β) : (reading.after announced finish).outcome = complete finish reading.outcome := by
  obtain ⟨_, outcome⟩ := reading
  cases outcome <;> rfl

theorem takeSubclasses_eq_andThen (text : List Char) :
    (takeSubclasses text).outcome = andThen condition conditionsBehind text := by
  unfold andThen condition
  cases step : takeSubclass text with
  | none =>
    rw [takeSubclasses_of_none step]
    rfl
  | some outcome =>
    cases outcome with
    | error failure =>
      rw [takeSubclasses_of_error step]
    | ok found =>
      rw [takeSubclasses_of_some step]
      exact outcome_after _ _ _

theorem shorter_of_condition {text rest : List Char} {subclass : SubclassSelector}
    (read : condition text = .ok (some subclass, rest)) : rest.length < text.length := by
  unfold condition at read
  split at read
  · cases read
  · next step =>
    cases read
    exact length_lt_of_takeSubclass step
  · cases read

theorem settled_takeSubclasses (text : List Char) :
    Settled (fun text => (takeSubclasses text).outcome) text := by
  refine .congr takeSubclasses_eq_andThen (.andThen (settled_condition text) fun found rest read => ?_)
  cases found with
  | none => exact .done [] rest
  | some subclass =>
    have : rest.length < text.length := shorter_of_condition read
    exact .completed _ (settled_takeSubclasses rest)
termination_by text.length

/-- A name as a type. -/
def tagOf (name : List Char) : Option TypeSelector :=
  some (.tag (String.ofList name))

/-- Without a star a type is a name, if one starts here. -/
def tag (text : List Char) : Step (Option TypeSelector) :=
  if Name.startsHere text then complete tagOf (Name.take text) else done none text

theorem settled_tag (text : List Char) : Settled tag text := by
  by_cases starts : Name.startsHere text = true
  · refine .of_sameAhead (fun other same => ?_) (.completed tagOf (settled_name text))
    rw [tag, startsHere_of_sameAhead same, if_pos starts]
  · refine .of_sameAhead (fun other same => ?_) (.done none text)
    rw [tag, startsHere_of_sameAhead same, if_neg starts]

theorem settled_takeType (text : List Char) : Settled takeType text := by
  refine .of_head (· = '*') ?_ (fun other noStar => ?_) (settled_tag text)
  · rintro _ rest rfl rfl
    exact .behind ['*'] id (fun _ _ => rfl) (.done (some .universal) rest)
  · unfold takeType tag
    split
    · exact absurd rfl (noStar _ rfl)
    · cases Name.take other <;> rfl

/-- A compound, if one stands here, from its type and its conditions. -/
def compoundOf (type : Option TypeSelector) (subclasses : List SubclassSelector) :
    Option CompoundSelector :=
  if type.isNone && subclasses.isEmpty then none else some ⟨type, subclasses⟩

theorem takeCompound_eq_andThen (text : List Char) : (takeCompound text).outcome =
    andThen takeType (fun type text =>
      complete (compoundOf type) (takeSubclasses text).outcome) text := by
  unfold takeCompound andThen
  cases takeType text with
  | error failure => rfl
  | ok found => exact outcome_after _ _ _

theorem settled_takeCompound (text : List Char) :
    Settled (fun text => (takeCompound text).outcome) text :=
  .congr takeCompound_eq_andThen <|
    .andThen (settled_takeType text) fun _ rest _ => .completed _ (settled_takeSubclasses rest)

/-- Where no compound stands, nothing is read. -/
theorem rest_of_takeCompound_none {text rest : List Char}
    (h : (takeCompound text).outcome = .ok (none, rest)) : rest = text := by
  obtain ⟨typeText, taken, type, subclasses, rfl, typed, conditions, value⟩ :=
    split_of_takeCompound h
  split at value
  · next missing =>
    obtain ⟨rfl, rfl⟩ : type = none ∧ subclasses = [] := by simpa using missing
    cases typed
    cases conditions
    rfl
  · cases value

/-- A value that has to be there. -/
def expect {α : Type} (problem : List Char → Failure) : Option α → List Char → Step α
  | none => fail problem
  | some value => done value

/-- A compound where one has to stand. -/
def compound (problem : List Char → Failure) : List Char → Step CompoundSelector :=
  andThen (fun text => (takeCompound text).outcome) (expect problem)

theorem shorter_of_compound {problem : List Char → Failure} {text rest : List Char}
    {found : CompoundSelector} (read : compound problem text = .ok (found, rest)) :
    rest.length < text.length := by
  unfold compound andThen at read
  split at read
  · next value left first =>
    cases value with
    | none => cases read
    | some value =>
      cases read
      exact length_lt_of_takeCompound (congrArg (Reading.mk _) first)
  · cases read

theorem settled_compound {problem : List Char → Failure} {text : List Char}
    (here : ∀ other, SameAhead other text → problem other = ⟨(problem text).cause, other⟩) :
    Settled (compound problem) text := by
  refine .andThen (settled_takeCompound text) fun found rest read => ?_
  cases found with
  | none =>
    obtain rfl := rest_of_takeCompound_none read
    exact .fail problem here
  | some compound => exact .done compound rest

/-! ## Complex selectors -/

/-- What joins a compound to the next one, if one has to follow. -/
def joint (text : List Char) : Step (Option Combinator) :=
  match junction text with
  | .stop rest => .ok (none, rest)
  | .join combinator rest => .ok (some combinator, rest)
  | .refuse failure => .error failure

/-- Without a symbol, blanks in front are a combinator. -/
def blankJoint (apart : Bool) : List Char → Step (Option Combinator) :=
  if apart then done (some .descendant) else fail Failure.unexpected

/-- The symbol of a combinator, or the end of the complex selector, behind blanks or without them. -/
def jointBehind (apart : Bool) : List Char → Step (Option Combinator)
  | [] => .ok (none, [])
  | ',' :: rest => .ok (none, ',' :: rest)
  | '>' :: rest => .ok (some .child, Text.skipBlanks rest)
  | '+' :: rest => .ok (some .nextSibling, Text.skipBlanks rest)
  | '~' :: rest => .ok (some .subsequentSibling, Text.skipBlanks rest)
  | '|' :: '|' :: rest => .ok (some .column, Text.skipBlanks rest)
  | text => blankJoint apart text

theorem joint_append {blanks rest : List Char} (run : Blanks blanks)
    (solid : rest.head?.any Text.isBlank = false) :
    joint (blanks ++ rest) = jointBehind (!blanks.isEmpty) rest := by
  have apart : (blanks ++ rest).head?.any Text.isBlank = !blanks.isEmpty := by
    cases blanks with
    | nil => exact solid
    | cons c left => simpa using run c List.mem_cons_self
  unfold joint junction
  rw [Text.skipBlanks_append run solid, apart]
  fun_cases jointBehind (!blanks.isEmpty) rest with
  | case1 | case2 | case3 | case4 | case5 | case6 => rfl
  | case7 =>
    simp only [blankJoint]
    cases blanks <;> rfl

theorem settled_blankJoint (apart : Bool) (text : List Char) : Settled (blankJoint apart) text := by
  cases apart with
  | false => exact settled_unexpected text
  | true => exact .done (some Combinator.descendant) text

/-- Only the column combinator takes a second character to tell. -/
theorem settled_jointBehind (apart : Bool) (text : List Char) :
    Settled (jointBehind apart) text := by
  have symbol : ∀ (front rest : List Char) (combinator : Combinator),
      (∀ other, jointBehind apart (front ++ other) = .ok (some combinator, Text.skipBlanks other)) →
        Settled (jointBehind apart) (front ++ rest) := by
    intro front rest combinator reads
    refine .behind front (fun _ => some combinator) (fun other _ => ?_) (settled_skip rest)
    exact reads other
  fun_cases jointBehind apart text with
  | case1 => exact .atEnd (.ok none) rfl
  | case2 rest =>
    refine .of_sameAhead (fun other same => ?_) (.done none _)
    obtain ⟨left, rfl⟩ := same.exists_cons
    rfl
  | case3 rest => exact symbol ['>'] rest .child fun _ => rfl
  | case4 rest => exact symbol ['+'] rest .nextSibling fun _ => rfl
  | case5 rest => exact symbol ['~'] rest .subsequentSibling fun _ => rfl
  | case6 rest => exact symbol ['|', '|'] rest .column fun _ => rfl
  | case7 _ notEnd notComma notChild notNext notSubsequent notColumn =>
    refine .of_sameAhead (fun other same => ?_) (settled_blankJoint apart text)
    unfold jointBehind
    split
    · exact absurd same.symm.eq_nil notEnd
    · exact absurd same.symm.exists_cons (not_exists.mpr notComma)
    · exact absurd same.symm.exists_cons (not_exists.mpr notChild)
    · exact absurd same.symm.exists_cons (not_exists.mpr notNext)
    · exact absurd same.symm.exists_cons (not_exists.mpr notSubsequent)
    · rcases same.eq_or_exists with rfl | ⟨_, _, _, left, shown, rfl⟩
      · exact absurd rfl (notColumn _)
      · cases shown
        exact absurd rfl (notColumn left)
    · rfl

theorem settled_joint (text : List Char) : Settled joint text := by
  obtain ⟨blanks, whole, run, solid⟩ := Text.skipBlanks_split text
  rw [whole]
  refine .behind blanks id (fun other same => ?_) (settled_jointBehind (!blanks.isEmpty) _)
  rw [complete_id, joint_append run (by rw [same.head?_eq]; exact solid)]

theorem length_le_of_joint {text rest : List Char} {combinator : Combinator}
    (read : joint text = .ok (some combinator, rest)) : rest.length ≤ text.length := by
  unfold joint at read
  split at read
  · cases read
  · next joins =>
    cases read
    exact length_le_of_junction joins
  · cases read

theorem missingCompound_of_sameAhead (combinator : Combinator) {text other : List Char}
    (same : SameAhead other text) : missingCompound combinator other =
      ⟨(missingCompound combinator text).cause, other⟩ := by
  cases combinator with
  | descendant => exact unexpected_of_sameAhead same
  | child | nextSibling | subsequentSibling | column => rfl

theorem missingSelector_of_sameAhead {text other : List Char} (same : SameAhead other text) :
    missingSelector other = ⟨(missingSelector text).cause, other⟩ := by
  rcases same.eq_or_exists with rfl | ⟨c, _, _, _, rfl, rfl⟩
  · exact congrArg (Failure.mk _) (rest_missingSelector other)
  · by_cases comma : c = ','
    · subst comma
      rfl
    · simp [missingSelector, Failure.unexpected, comma]

/-- A combinator with its compound and what is behind them. -/
def linksBehind : Option Combinator → List Char → Step (List (Combinator × CompoundSelector))
  | none => done []
  | some combinator => andThen (compound (missingCompound combinator)) fun found text =>
    complete ((combinator, found) :: ·) (takeTail text).outcome

theorem takeTail_eq_andThen (text : List Char) :
    (takeTail text).outcome = andThen joint linksBehind text := by
  unfold andThen joint
  fun_cases takeTail text with
  | case1 rest stops => simp only [stops]; rfl
  | case2 failure refused => simp only [refused]
  | case3 combinator rest joins announced failure read =>
    simp only [joins, linksBehind, compound, andThen, read]
  | case4 combinator rest joins announced left read =>
    obtain rfl := rest_of_takeCompound_none (congrArg Reading.outcome read)
    simp only [joins, linksBehind, compound, andThen, read]
    rfl
  | case5 combinator rest joins announced found left read shorter =>
    simp only [joins, linksBehind, compound, andThen, read]
    exact outcome_after _ _ _

theorem settled_takeTail (text : List Char) : Settled (fun text => (takeTail text).outcome) text := by
  refine .congr takeTail_eq_andThen (.andThen (settled_joint text) fun found rest read => ?_)
  cases found with
  | none => exact .done [] rest
  | some combinator =>
    refine .andThen (settled_compound fun _ same => missingCompound_of_sameAhead combinator same)
      fun compound left first => ?_
    have : left.length < text.length :=
      Nat.lt_of_lt_of_le (shorter_of_compound first) (length_le_of_joint read)
    exact .completed _ (settled_takeTail left)
termination_by text.length

theorem takeComplex_eq_andThen (text : List Char) : (takeComplex text).outcome =
    andThen (compound missingSelector) (fun head text =>
      complete (fun tail => ⟨head, tail⟩) (takeTail text).outcome) text := by
  unfold andThen compound
  fun_cases takeComplex text with
  | case1 announced failure read => simp only [andThen, read]
  | case2 announced left read =>
    obtain rfl := rest_of_takeCompound_none (congrArg Reading.outcome read)
    simp only [andThen, read]
    rfl
  | case3 announced head rest read =>
    simp only [andThen, read]
    exact outcome_after _ _ _

theorem settled_takeComplex (text : List Char) :
    Settled (fun text => (takeComplex text).outcome) text :=
  .congr takeComplex_eq_andThen <|
    .andThen (settled_compound fun _ same => missingSelector_of_sameAhead same)
      fun _ rest _ => .completed _ (settled_takeTail rest)

/-- A comma, if one stands here. -/
def comma : List Char → Step (Option Unit)
  | ',' :: rest => .ok (some (), rest)
  | text => .ok (none, text)

theorem length_le_of_comma {text rest : List Char} {found : Option Unit}
    (read : comma text = .ok (found, rest)) : rest.length ≤ text.length := by
  unfold comma at read
  split at read <;> cases read
  · exact Nat.le_succ _
  · exact Nat.le_refl _

theorem settled_comma (text : List Char) : Settled comma text := by
  refine .of_head (· = ',') ?_ (fun other noComma => ?_) (.done none text)
  · rintro _ rest rfl rfl
    exact .behind [','] id (fun _ _ => rfl) (.done (some ()) rest)
  · unfold comma
    split
    · exact absurd rfl (noComma _ rfl)
    · rfl

/-- A member and the ones behind its comma. -/
def membersBehind (selector : ComplexSelector) : Option Unit → List Char → Step (List ComplexSelector)
  | none => done [selector]
  | some () => fun text => complete (selector :: ·) (takeMembers text).outcome

theorem takeMembers_eq_andThen (text : List Char) : (takeMembers text).outcome =
    andThen skip (fun _ => andThen (fun text => (takeComplex text).outcome) fun selector =>
      andThen comma (membersBehind selector)) text := by
  simp only [andThen, skip]
  fun_cases takeMembers text with
  | case1 announced failure read => simp only [read]
  | case2 announced selector rest read shorter =>
    simp only [read, comma]
    exact outcome_after _ _ _
  | case3 announced selector rest noComma read =>
    simp only [read, comma]
    rfl

theorem settled_takeMembers (text : List Char) :
    Settled (fun text => (takeMembers text).outcome) text := by
  refine .congr takeMembers_eq_andThen <|
    .andThen (settled_skip text) fun _ solid skipped =>
      .andThen (settled_takeComplex solid) fun selector rest first =>
        .andThen (settled_comma rest) fun found left separated => ?_
  cases found with
  | none => exact .done [selector] left
  | some _ =>
    have : left.length < text.length := by
      cases skipped
      calc left.length
        _ ≤ rest.length := length_le_of_comma separated
        _ < (Text.skipBlanks text).length :=
          length_lt_of_takeComplex (congrArg (Reading.mk _) first)
        _ ≤ text.length := Text.length_skipBlanks_le text
    exact .completed _ (settled_takeMembers left)
termination_by text.length

/-- A failure is met in every text that is the same up to two characters behind its place. -/
theorem stops_of_takeMembers {text : List Char} {failure : Failure}
    (stopped : (takeMembers text).outcome = .error failure) :
    ∃ taken rest cause, text = taken ++ rest ∧ failure = ⟨cause, rest⟩ ∧ ∀ other,
      SameAhead other rest → (takeMembers (taken ++ other)).outcome = .error ⟨cause, other⟩ := by
  obtain ⟨taken, rest, verdict, rfl, stops⟩ := settled_takeMembers text
  have here := (stops rest rfl).symm.trans stopped
  cases verdict with
  | ok value => cases here
  | error cause =>
    cases here
    exact ⟨taken, rest, cause, rfl, rfl, stops⟩

end Parser

/-! ## Whole texts -/

namespace Text

/-- What comes behind the first `count` bytes of a text. -/
def behindBytes (count : Nat) : List Char → List Char
  | [] => []
  | c :: rest => if count = 0 then c :: rest else behindBytes (count - c.utf8Size) rest

theorem behindBytes_append (front rest : List Char) :
    behindBytes (utf8Size front) (front ++ rest) = rest := by
  induction front with
  | nil => cases rest <;> rfl
  | cons c front ih =>
    have positive : c.utf8Size + utf8Size front ≠ 0 := by
      have := c.utf8Size_pos
      omega
    rw [List.cons_append, utf8Size, behindBytes, if_neg positive, Nat.add_sub_cancel_left, ih]

/-- Texts that begin with the same bytes begin with the same characters. -/
theorem exists_append_of_sameBytes {text other : String} {front rest : List Char}
    (split : text.toList = front ++ rest)
    (sameBytes : other.toUTF8.extract 0 (utf8Size front) = text.toUTF8.extract 0 (utf8Size front)) :
    ∃ left, other.toList = front ++ left := by
  have size : utf8Size front = front.utf8Encode.size := by
    rw [utf8Size_eq_utf8ByteSize, ← String.size_toByteArray, String.toByteArray_ofList]
  have shown : text.toUTF8.extract 0 (utf8Size front) = front.utf8Encode := by
    rw [String.toUTF8, ← String.utf8Encode_toList, split, List.utf8Encode_append,
      ByteArray.extract_append_eq_left size]
  have inside : utf8Size front ≤ other.toUTF8.size := by
    have sizes := congrArg ByteArray.size (sameBytes.trans shown)
    rw [ByteArray.size_extract, ← size] at sizes
    omega
  have whole : front.utf8Encode ++ other.toUTF8.extract (utf8Size front) other.toUTF8.size =
      other.toList.utf8Encode := by
    rw [← shown, ← sameBytes, ByteArray.extract_append_extract, Nat.zero_min,
      Nat.max_eq_right inside, ByteArray.extract_zero_size, String.utf8Encode_toList, String.toUTF8]
  obtain ⟨left, shown⟩ := List.isPrefix_of_utf8Encode_append_eq_utf8Encode _ whole
  exact ⟨left, shown.symm⟩

end Text

namespace SelectorList

/-- A syntax error is decided where it is found: a text that is the same up to the error's place,
and whose next two characters are the same or whose end is, has the same error at the same place. -/
theorem parse_error_of_sameAhead {text other : String} {error : SyntaxError}
    (failed : parse text = .error error)
    (sameBytes : other.toUTF8.extract 0 error.position = text.toUTF8.extract 0 error.position)
    (sameNext : SameAhead (Text.behindBytes error.position other.toList)
      (Text.behindBytes error.position text.toList)) : parse other = .error error := by
  obtain ⟨failure, stopped, rfl⟩ := exists_failure_of_parse failed
  obtain ⟨taken, rest, cause, split, rfl, stops⟩ := Parser.stops_of_takeMembers stopped
  have place : (SyntaxError.ofFailure text.toList ⟨cause, rest⟩).position = Text.utf8Size taken := by
    simp only [SyntaxError.ofFailure, split, Text.utf8Size_append, Nat.add_sub_cancel]
  rw [place] at sameBytes sameNext
  obtain ⟨left, splitOther⟩ := Text.exists_append_of_sameBytes split sameBytes
  rw [split, splitOther, Text.behindBytes_append, Text.behindBytes_append] at sameNext
  have stoppedOther : (Parser.takeMembers other.toList).outcome = .error ⟨cause, left⟩ := by
    rw [splitOther]
    exact stops left sameNext
  rw [parse_of_failure stoppedOther]
  simp only [SyntaxError.ofFailure, split, splitOther, Text.utf8Size_append, Nat.add_sub_cancel]

/-- Behind an error at a percent sign one bracket is still seen, and what follows it is not. -/
theorem parse_error_of_sameAhead_behindFlag :
    parse "é[x=\"]\" i%]" = .error ⟨.unexpectedCharacter '%', 10⟩ ∧
      parse "é[x=\"]\" i%], :hover" = .error ⟨.unexpectedCharacter '%', 10⟩ := by
  have failed : parse "é[x=\"]\" i%]" = .error ⟨.unexpectedCharacter '%', 10⟩ := by
    decide +kernel
  exact ⟨failed, parse_error_of_sameAhead failed (by decide +kernel) rfl⟩

end SelectorList

end CssSelect
