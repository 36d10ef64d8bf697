import CssSelect.Proofs.Selector.Completion

/-!
What reading a text announces, also where the text turns out to be no selector. A beginning of a text
that is a selector list by itself, and whose last condition does not go on behind it, has been read
when the reader comes there: its pseudo selectors have been announced, whatever follows. And nothing
else is announced: the announcements of a text that is refused are those of such a beginning, which
ends before the error's place. So they are the announcements of the longest one.
-/
namespace CssSelect

open Grammar

/-- The conditions of the compounds of a tail, from left to right. -/
def ComplexSelector.tailConditions (tail : List (Combinator × CompoundSelector)) :
    List SubclassSelector :=
  tail.flatMap fun link => link.2.subclasses

/-- The conditions of a selector, from left to right. -/
def ComplexSelector.conditions (selector : ComplexSelector) : List SubclassSelector :=
  selector.head.subclasses ++ tailConditions selector.tail

/-- The conditions of a list, from left to right. -/
def SelectorList.conditions (list : SelectorList) : List SubclassSelector :=
  list.members.flatMap ComplexSelector.conditions

theorem ComplexSelector.tailAnnouncements_eq (tail : List (Combinator × CompoundSelector)) :
    tailAnnouncements tail = (tailConditions tail).flatMap SubclassSelector.announcements := by
  rw [tailConditions, List.flatMap_assoc]
  rfl

theorem ComplexSelector.announcements_eq (selector : ComplexSelector) :
    selector.announcements = selector.conditions.flatMap SubclassSelector.announcements := by
  rw [announcements, conditions, List.flatMap_append, tailAnnouncements_eq]
  rfl

theorem SelectorList.announcements_eq (members : List ComplexSelector) :
    members.flatMap ComplexSelector.announcements =
      (members.flatMap ComplexSelector.conditions).flatMap SubclassSelector.announcements := by
  rw [List.flatMap_assoc]
  exact congrArg (List.flatMap · members) (funext ComplexSelector.announcements_eq)

namespace Parser

/-! ## What stands at the beginning is announced -/

theorem prefix_takeCompound {text rest : List Char} {compound : CompoundSelector}
    (reads : CompoundText text compound) (ends : ConditionsEnd compound.subclasses rest) :
    compound.announcements <+: (takeCompound (text ++ rest)).announced := by
  cases reads with
  | @mk typeText behind type subclasses typed conditions _ =>
    have whole := takeSubclasses_front conditions ends
    cases conditions with
    | nil => exact List.nil_prefix
    | @cons condition others _ _ first more =>
      obtain ⟨c, left, rfl, isMark⟩ := head_of_subclassText first
      have typeTaken := takeType_front typed isMark (left ++ others ++ rest)
      simp only [List.append_assoc, List.cons_append] at typeTaken whole ⊢
      simp only [takeCompound, typeTaken, whole]
      exact List.prefix_append _ _

/-- What joins a compound announces nothing, and the compound is read next. -/
theorem prefix_of_junction_join {text rest : List Char} {combinator : Combinator}
    (joins : junction text = .join combinator rest) :
    (takeCompound rest).announced <+: (takeTail text).announced := by
  fun_cases takeTail text with
  | case1 left stops => cases joins.symm.trans stops
  | case2 failure refused => cases joins.symm.trans refused
  | case3 found left shown announced failure read =>
    cases joins.symm.trans shown
    exact congrArg Reading.announced read ▸ List.prefix_rfl
  | case4 found left shown announced behind read =>
    cases joins.symm.trans shown
    exact congrArg Reading.announced read ▸ List.prefix_rfl
  | case5 found left shown announced compound behind read =>
    cases joins.symm.trans shown
    rw [read]
    exact List.prefix_append _ _

/-- A reading that begins with a compound, and goes on with the tail if the compound is over, announces
both. Behind the compound the tail begins with a blank or a symbol, or it is empty. -/
theorem prefix_compound_tail {α : Type} {reading : Reading α} {text behind rest : List Char}
    {compound : CompoundSelector} {tail : List (Combinator × CompoundSelector)}
    (reads : CompoundText text compound) (others : TailText behind tail)
    (ends : ConditionsEnd (compound.subclasses ++ ComplexSelector.tailConditions tail) rest)
    (begins : (takeCompound (text ++ (behind ++ rest))).announced <+: reading.announced)
    (goesOn : takeCompound (text ++ (behind ++ rest)) =
        ⟨compound.announcements, .ok (some compound, behind ++ rest)⟩ →
      reading.announced = compound.announcements ++ (takeTail (behind ++ rest)).announced)
    (tailFirst : ConditionsEnd (ComplexSelector.tailConditions tail) rest →
      ComplexSelector.tailAnnouncements tail <+: (takeTail (behind ++ rest)).announced) :
    compound.announcements ++ ComplexSelector.tailAnnouncements tail <+: reading.announced := by
  cases others with
  | stop blanks =>
    have compoundEnds : ConditionsEnd compound.subclasses (behind ++ rest) := by
      cases behind with
      | nil => simpa [ComplexSelector.tailConditions] using ends
      | cons c left =>
        have blank := compoundEnds_of_isBlank (blanks c List.mem_cons_self) (left ++ rest)
        exact conditionsEnd_of_conditionEnds (conditionEnds_of_compoundEnds blank) _
    have first := (prefix_takeCompound reads compoundEnds).trans begins
    simpa [ComplexSelector.tailAnnouncements] using first
  | @join text compoundText behind _ _ _ joined =>
    have stop : compoundEnds (text ++ compoundText ++ behind ++ rest) = true := by
      rw [List.append_assoc, List.append_assoc]
      exact compoundEnds_combinator joined _
    rw [goesOn (takeCompound_append reads stop)]
    exact (List.prefix_append_right_inj _).mpr (tailFirst (conditionsEnd_append ends))

theorem prefix_takeTail {text rest : List Char} {tail : List (Combinator × CompoundSelector)}
    (reads : TailText text tail) (ends : ConditionsEnd (ComplexSelector.tailConditions tail) rest) :
    ComplexSelector.tailAnnouncements tail <+: (takeTail (text ++ rest)).announced := by
  induction reads with
  | stop => exact List.nil_prefix
  | @join text compoundText behind combinator compound tail joined first others ih =>
    have joins : junction (text ++ compoundText ++ behind ++ rest) =
        .join combinator (compoundText ++ (behind ++ rest)) := by
      rw [List.append_assoc]
      exact junction_compound joined first _
    refine prefix_compound_tail first others ends (prefix_of_junction_join joins) (fun read => ?_) ih
    rw [takeTail_of_join joins read]
    rfl

theorem prefix_of_takeComplex (text : List Char) :
    (takeCompound text).announced <+: (takeComplex text).announced := by
  fun_cases takeComplex text with
  | case1 announced failure read | case2 announced behind read =>
    exact congrArg Reading.announced read ▸ List.prefix_rfl
  | case3 announced head behind read =>
    rw [read]
    exact List.prefix_append _ _

theorem prefix_takeComplex {text rest : List Char} {selector : ComplexSelector}
    (reads : ComplexText text selector) (ends : ConditionsEnd selector.conditions rest) :
    selector.announcements <+: (takeComplex (text ++ rest)).announced := by
  cases reads with
  | @mk text behind head tail first others =>
    rw [List.append_assoc]
    refine prefix_compound_tail first others ends ?_ (fun read => ?_) (prefix_takeTail others)
    · exact prefix_of_takeComplex _
    · rw [takeComplex, read]
      rfl

theorem prefix_of_takeMembers (text : List Char) :
    (takeComplex (Text.skipBlanks text)).announced <+: (takeMembers text).announced := by
  fun_cases takeMembers text with
  | case1 announced failure read | case3 announced selector rest _ read =>
    exact congrArg Reading.announced read ▸ List.prefix_rfl
  | case2 announced selector rest read =>
    rw [read]
    exact List.prefix_append _ _

theorem prefix_takeMembers {text rest : List Char} {members : List ComplexSelector}
    (reads : MembersText text members)
    (ends : ConditionsEnd (members.flatMap ComplexSelector.conditions) rest) :
    members.flatMap ComplexSelector.announcements <+: (takeMembers (text ++ rest)).announced := by
  induction reads with
  | @last blanks text selector before reads =>
    rw [List.flatMap_singleton] at ends ⊢
    have first := prefix_of_takeMembers (blanks ++ (text ++ rest))
    rw [skipBlanks_complex before reads, ← List.append_assoc] at first
    exact (prefix_takeComplex reads ends).trans first
  | @more blanks text behind selector others before reads more ih =>
    have read : takeComplex (text ++ ',' :: (behind ++ rest)) =
        ⟨selector.announcements, .ok (selector, ',' :: (behind ++ rest))⟩ :=
      takeComplex_append reads rfl
    rw [← skipBlanks_complex before reads, ← List.append_assoc] at read
    rw [List.append_assoc, List.cons_append, takeMembers_of_comma read, List.flatMap_cons]
    exact (List.prefix_append_right_inj _).mpr (ih (conditionsEnd_append ends))

/-! ## Nothing else is announced -/

theorem conditionsEnd_nil (rest : List Char) : ConditionsEnd [] rest := by
  rintro last ⟨⟩

theorem conditionsEnd_of_append {first second : List SubclassSelector} {rest : List Char}
    (nonempty : second ≠ []) (ends : ConditionsEnd second rest) :
    ConditionsEnd (first ++ second) rest := by
  intro last member
  rw [List.getLast?_append, List.getLast?_eq_some_getLast nonempty, Option.some_or] at member
  rw [← List.getLast?_eq_some_getLast nonempty] at member
  exact ends last member

/-- Reading ended here with this value, or failed somewhere behind. -/
def EndsAt {α : Type} (outcome : Step α) (value : α) (rest : List Char) : Prop :=
  match outcome with
  | .ok found => found = (value, rest)
  | .error failure => ∃ broken, rest = broken ++ failure.rest

theorem EndsAt.after {α β : Type} {reading : Reading α} {value : α} {rest : List Char}
    (ends : EndsAt reading.outcome value rest) (earlier : List Announcement) (complete : α → β) :
    EndsAt (reading.after earlier complete).outcome (complete value) rest := by
  obtain ⟨announced, outcome⟩ := reading
  cases outcome with
  | error failure => exact ends
  | ok found =>
    cases (ends : found = (value, rest))
    rfl

/-- Conditions are read up to the end of one of them, and announce what is announced. -/
theorem takeSubclasses_split (text : List Char) :
    ∃ taken rest subclasses, text = taken ++ rest ∧ SubclassesText taken subclasses ∧
      ConditionsEnd subclasses rest ∧
      (takeSubclasses text).announced = subclasses.flatMap SubclassSelector.announcements ∧
      EndsAt (takeSubclasses text).outcome subclasses rest := by
  fun_induction takeSubclasses text with
  | case1 text => exact ⟨[], text, [], rfl, .nil, conditionsEnd_nil text, rfl, rfl⟩
  | case2 text failure step =>
    obtain ⟨taken, _, split, _⟩ := failsInside_of_takeSubclass step
    exact ⟨[], text, [], rfl, .nil, conditionsEnd_nil text, rfl, taken, split⟩
  | case3 text subclass left step _ ih =>
    obtain ⟨taken, rfl, first, stop⟩ := of_takeSubclass step
    obtain ⟨more, rest, others, rfl, reads, ends, announced, endsAt⟩ := ih
    refine ⟨taken ++ more, rest, subclass :: others, by simp, .cons first reads, ?_,
      congrArg (subclass.announcements ++ ·) announced, endsAt.after _ _⟩
    cases reads with
    | nil =>
      intro last member
      obtain rfl : subclass = last := by simpa using member
      exact stop
    | cons _ _ => exact @conditionsEnd_of_append [subclass] _ _ (List.cons_ne_nil _ _) ends

/-- A compound is read up to the end of one of its conditions, or nothing is announced. -/
theorem takeCompound_split (text : List Char) :
    ((takeCompound text).announced = [] ∧
        ∀ found, (takeCompound text).outcome = .ok found → found.1 = none) ∨
      ∃ taken rest compound, text = taken ++ rest ∧ CompoundText taken compound ∧
        ConditionsEnd compound.subclasses rest ∧
        (takeCompound text).announced = compound.announcements ∧
        EndsAt (takeCompound text).outcome (some compound) rest := by
  unfold takeCompound
  split
  · refine .inl ⟨rfl, fun found read => ?_⟩
    cases read
  · next type left step =>
    obtain ⟨typeText, rfl, typed⟩ := of_takeType step
    obtain ⟨taken, rest, subclasses, rfl, reads, ends, announced, endsAt⟩ := takeSubclasses_split left
    have completed := endsAt.after [] fun subclasses =>
      if type.isNone && subclasses.isEmpty then none
      else some (⟨type, subclasses⟩ : CompoundSelector)
    by_cases missing : type = none ∧ subclasses = []
    · obtain ⟨rfl, rfl⟩ := missing
      refine .inl ⟨announced, fun found read => ?_⟩
      rw [read] at completed
      exact congrArg Prod.fst completed
    · refine .inr ⟨typeText ++ taken, rest, ⟨type, subclasses⟩, by simp, .mk typed reads missing,
        ends, announced, ?_⟩
      simpa [missing] using completed

/-- The announcements are those of a piece at the beginning of a text, whose last condition ends
there and which is over before `left`; or there are none. -/
def AnnouncedIn (piece : List Char → List SubclassSelector → Prop) (text : List Char)
    (announced : List Announcement) (left : List Char) : Prop :=
  announced = [] ∨ ∃ taken broken conditions, text = taken ++ (broken ++ left) ∧
    piece taken conditions ∧ ConditionsEnd conditions (broken ++ left) ∧
    announced = conditions.flatMap SubclassSelector.announcements

namespace AnnouncedIn

variable {inner outer : List Char → List SubclassSelector → Prop} {text left : List Char}
  {announced : List Announcement}

theorem within (front : List Char) (reads : AnnouncedIn inner text announced left)
    (extend : ∀ body conditions, inner body conditions → outer (front ++ body) conditions) :
    AnnouncedIn outer (front ++ text) announced left := by
  rcases reads with silent | ⟨taken, broken, conditions, rfl, piece, ends, shown⟩
  · exact .inl silent
  · exact .inr ⟨front ++ taken, broken, conditions, by simp, extend _ _ piece, ends, shown⟩

/-- What is announced behind a piece belongs to a longer piece; if it is nothing, the piece in front
is the longest one. -/
theorem behind (front between : List Char) {earlier : List SubclassSelector}
    (first : outer front earlier) (ends : ConditionsEnd earlier (between ++ text))
    (suffix : ∃ broken, text = broken ++ left) (reads : AnnouncedIn inner text announced left)
    (extend : ∀ body conditions, inner body conditions →
      outer (front ++ (between ++ body)) (earlier ++ conditions)) :
    AnnouncedIn outer (front ++ (between ++ text))
      (earlier.flatMap SubclassSelector.announcements ++ announced) left := by
  by_cases silent : announced = []
  · obtain ⟨broken, rfl⟩ := suffix
    rw [← List.append_assoc between] at ends
    exact .inr ⟨front, between ++ broken, earlier, by simp, first, ends, by simp [silent]⟩
  · obtain ⟨taken, broken, conditions, rfl, piece, endsBehind, rfl⟩ := reads.resolve_left silent
    have nonempty : conditions ≠ [] := by
      rintro rfl
      exact silent rfl
    exact .inr ⟨front ++ (between ++ taken), broken, earlier ++ conditions, by simp,
      extend _ _ piece, conditionsEnd_of_append nonempty endsBehind, by simp⟩

end AnnouncedIn

/-- A compound with these conditions. -/
def CompoundPiece (text : List Char) (conditions : List SubclassSelector) : Prop :=
  ∃ compound, CompoundText text compound ∧ compound.subclasses = conditions

/-- A tail with these conditions. -/
def TailPiece (text : List Char) (conditions : List SubclassSelector) : Prop :=
  ∃ tail, TailText text tail ∧ ComplexSelector.tailConditions tail = conditions

/-- A selector with these conditions. -/
def ComplexPiece (text : List Char) (conditions : List SubclassSelector) : Prop :=
  ∃ selector, ComplexText text selector ∧ selector.conditions = conditions

/-- A list with these conditions. -/
def MembersPiece (text : List Char) (conditions : List SubclassSelector) : Prop :=
  ∃ members, MembersText text members ∧ members.flatMap ComplexSelector.conditions = conditions

theorem announcedIn_takeCompound {text : List Char} {announced : List Announcement}
    {failure : Failure} (read : takeCompound text = ⟨announced, .error failure⟩) :
    AnnouncedIn CompoundPiece text announced failure.rest := by
  have split := takeCompound_split text
  rw [read] at split
  rcases split with ⟨silent, _⟩ | ⟨taken, _, compound, rfl, reads, ends, shown, broken, rfl⟩
  · exact .inl silent
  · exact .inr ⟨taken, broken, _, rfl, ⟨compound, reads, rfl⟩, ends, shown⟩

theorem announced_takeCompound_none {text rest : List Char} {announced : List Announcement}
    (read : takeCompound text = ⟨announced, .ok (none, rest)⟩) : announced = [] := by
  have split := takeCompound_split text
  rw [read] at split
  rcases split with ⟨silent, _⟩ | ⟨_, _, _, _, _, _, _, endsAt⟩
  · exact silent
  · cases endsAt

theorem of_takeCompound_some {text rest : List Char} {announced : List Announcement}
    {compound : CompoundSelector}
    (read : takeCompound text = ⟨announced, .ok (some compound, rest)⟩) :
    ∃ taken, text = taken ++ rest ∧ CompoundText taken compound ∧
      ConditionsEnd compound.subclasses rest ∧ announced = compound.announcements := by
  have split := takeCompound_split text
  rw [read] at split
  rcases split with ⟨_, missing⟩ | ⟨taken, _, _, whole, reads, ends, shown, endsAt⟩
  · cases missing _ rfl
  · cases endsAt
    exact ⟨taken, whole, reads, ends, shown⟩

theorem announcedIn_takeTail {text : List Char} {failure : Failure}
    (failed : (takeTail text).outcome = .error failure) :
    AnnouncedIn TailPiece text (takeTail text).announced failure.rest := by
  fun_induction takeTail text with
  | case1 => cases failed
  | case2 => exact .inl rfl
  | case3 text combinator rest joins announced other read =>
    cases failed
    obtain ⟨joint, rfl, joined⟩ := of_junction_join joins
    refine (announcedIn_takeCompound read).within joint ?_
    rintro body _ ⟨compound, reads, rfl⟩
    rw [← List.append_nil (joint ++ body)]
    exact ⟨_, .join joined reads (.stop blanks_nil), by simp [ComplexSelector.tailConditions]⟩
  | case4 text combinator rest joins announced left read => exact .inl (announced_takeCompound_none read)
  | case5 text combinator rest joins announced compound after read _ ih =>
    have failedBehind := Reading.outcome_after_eq_error failed
    obtain ⟨joint, rfl, joined⟩ := of_junction_join joins
    obtain ⟨taken, rfl, first, ends, rfl⟩ := of_takeCompound_some read
    obtain ⟨broken, _, suffix, _⟩ := failsInside_of_takeTail failedBehind
    have alone : TailPiece (joint ++ taken) compound.subclasses := by
      rw [← List.append_nil (joint ++ taken)]
      exact ⟨_, .join joined first (.stop blanks_nil), by simp [ComplexSelector.tailConditions]⟩
    rw [← List.append_assoc]
    refine AnnouncedIn.behind (joint ++ taken) [] alone ends ⟨broken, suffix⟩ (ih failedBehind) ?_
    rintro body _ ⟨tail, reads, rfl⟩
    exact ⟨_, .join joined first reads, rfl⟩

theorem announcedIn_takeComplex {text : List Char} {failure : Failure}
    (failed : (takeComplex text).outcome = .error failure) :
    AnnouncedIn ComplexPiece text (takeComplex text).announced failure.rest := by
  have alone : ∀ body compound, CompoundText body compound →
      ComplexPiece body compound.subclasses := by
    intro body compound reads
    rw [← List.append_nil body]
    exact ⟨_, .mk reads (.stop blanks_nil), by simp [ComplexSelector.conditions,
      ComplexSelector.tailConditions]⟩
  revert failed
  fun_cases takeComplex text with
  | case1 announced other read =>
    rintro ⟨⟩
    refine (announcedIn_takeCompound read).within [] ?_
    rintro body _ ⟨compound, reads, rfl⟩
    exact alone body compound reads
  | case2 announced left read =>
    rintro ⟨⟩
    exact .inl (announced_takeCompound_none read)
  | case3 announced head rest read =>
    intro failed
    have failedBehind := Reading.outcome_after_eq_error failed
    obtain ⟨taken, rfl, first, ends, rfl⟩ := of_takeCompound_some read
    obtain ⟨broken, _, suffix, _⟩ := failsInside_of_takeTail failedBehind
    refine AnnouncedIn.behind taken [] (alone taken head first) ends ⟨broken, suffix⟩
      (announcedIn_takeTail failedBehind) ?_
    rintro body _ ⟨tail, reads, rfl⟩
    exact ⟨_, .mk first reads, rfl⟩

theorem announcedIn_takeMembers {text : List Char} {failure : Failure}
    (failed : (takeMembers text).outcome = .error failure) :
    AnnouncedIn MembersPiece text (takeMembers text).announced failure.rest := by
  fun_induction takeMembers text with
  | case1 text announced other read =>
    cases failed
    obtain ⟨blanks, whole, before, _⟩ := Text.skipBlanks_split text
    have inside := announcedIn_takeComplex (congrArg Reading.outcome read)
    rw [read] at inside
    rw [whole]
    refine inside.within blanks ?_
    rintro body _ ⟨selector, reads, rfl⟩
    exact ⟨_, .last before reads, List.flatMap_singleton _ _⟩
  | case2 text announced selector rest read _ ih =>
    have failedBehind := Reading.outcome_after_eq_error failed
    obtain ⟨blanks, whole, before, _⟩ := Text.skipBlanks_split text
    obtain ⟨taken, split, first, stop⟩ := of_takeComplex (congrArg Reading.outcome read)
    obtain ⟨broken, _, suffix, _⟩ := failsInside_of_takeMembers failedBehind
    rw [split, takeComplex_append first stop] at read
    cases read
    rw [whole, split, ← List.append_assoc]
    have comma : conditionEnds (',' :: rest) = true := rfl
    have ends := conditionsEnd_of_conditionEnds comma selector.conditions
    rw [selector.announcements_eq]
    refine AnnouncedIn.behind (blanks ++ taken) [','] ⟨_, .last before first, List.flatMap_singleton _ _⟩
      ends ⟨broken, suffix⟩ (ih failedBehind) ?_
    rintro body _ ⟨members, reads, rfl⟩
    exact ⟨_, .more before first reads, rfl⟩
  | case3 => cases failed

end Parser

namespace SelectorList

/-- `whole` is this list by itself, and the last condition of the list does not go on in `rest`. -/
structure Opens (list : SelectorList) (whole rest : String) : Prop where
  parsed : parse whole = .ok list
  ends : Parser.ConditionsEnd list.conditions rest.toList

/-- The pseudo selectors of a list are announced wherever the list stands at the beginning of a text,
whatever becomes of the text. -/
theorem prefix_announced {list : SelectorList} {whole rest : String} (opens : list.Opens whole rest) :
    list.announcements <+: announced (whole ++ rest) := by
  have shown := Parser.prefix_takeMembers (derives_of_parse opens.parsed) opens.ends
  rw [← String.toList_append] at shown
  exact shown

/-- What a text announces that is refused stands in front of the error's place. -/
theorem announced_of_parse_error {text : String} {error : SyntaxError}
    (failed : parse text = .error error) :
    announced text = [] ∨ ∃ (whole rest : String) (list : SelectorList), text = whole ++ rest ∧
      list.Opens whole rest ∧ whole.utf8ByteSize ≤ error.position ∧
      announced text = list.announcements := by
  obtain ⟨failure, stopped, rfl⟩ := exists_failure_of_parse failed
  rcases Parser.announcedIn_takeMembers stopped with
    silent | ⟨taken, broken, _, split, ⟨members, reads, rfl⟩, ends, shown⟩
  · exact .inl silent
  · refine .inr ⟨String.ofList taken, String.ofList (broken ++ failure.rest), ⟨members⟩, ?_, ?_, ?_, ?_⟩
    · rw [← String.ofList_append, ← split, String.ofList_toList]
    · refine ⟨parse_of_derives ?_, ?_⟩
      · rwa [Derives, String.toList_ofList]
      · rwa [String.toList_ofList]
    · rw [← Text.utf8Size_eq_utf8ByteSize, SyntaxError.ofFailure, split]
      simp only [Text.utf8Size_append]
      omega
    · rw [announcements, announcements_eq]
      exact shown

theorem announced_of_parse {text : String} {list : SelectorList} (read : parse text = .ok list) :
    announced text = list.announcements := by
  rw [announced, read_of_derives (derives_of_parse read)]

end SelectorList

end CssSelect
