import CssSelect.Proofs.Selector.Balance
import CssSelect.Proofs.Selector.RoundTrip

/-!
When the written form of what was read can be read again. Everything that reading
returns is well-formed, so the only question is whether its arguments still close
where they end. A backslash that trimming left at an argument's end hides the closing
parenthesis.

The converse counts parentheses: a text that is a selector list is balanced as a
whole, while each argument with a backslash at its end leaves one parenthesis open.
-/
namespace CssSelect

open Grammar

/-! ## What a text stands for is well-formed -/

theorem ofList_ne_empty {name : List Char} (nonempty : name ≠ []) : String.ofList name ≠ "" :=
  fun empty => nonempty (String.ofList_injective empty)

theorem Grammar.Ident.ofList_ne_empty {text name : List Char} (ident : Ident text name) :
    String.ofList name ≠ "" :=
  CssSelect.ofList_ne_empty (Name.ne_nil_of_ident ident)

theorem Grammar.Ident.lower_ne_empty {text name : List Char} (ident : Ident text name) :
    String.ofList (Text.lowerChars name) ≠ "" := by
  apply CssSelect.ofList_ne_empty
  rw [Text.lowerChars, ne_eq, List.map_eq_nil_iff]
  exact Name.ne_nil_of_ident ident

theorem Text.isUpper_toLower (c : Char) : c.toLower.isUpper = false := by
  apply decide_eq_false
  by_cases capital : c.val ≥ 'A'.val ∧ c.val ≤ 'Z'.val
  · have lowered : c.toLower.val = c.val + 32 := congrArg Char.val (dif_pos capital)
    rw [lowered]
    simp only [ge_iff_le, UInt32.le_iff_toNat_le, UInt32.toNat_add] at capital ⊢
    grind
  · have same : c.toLower = c := dif_neg capital
    rwa [same]

theorem Text.noCapital_lowerChars (text : List Char) :
    (String.ofList (lowerChars text)).toList.any Char.isUpper = false := by
  rw [String.toList_ofList, List.any_eq_false]
  intro c member
  obtain ⟨d, _, rfl⟩ := List.mem_map.mp member
  rw [isUpper_toLower d]
  exact Bool.false_ne_true

theorem Grammar.PseudoText.wellFormed {text : List Char} {pseudo : Pseudo}
    (reads : PseudoText text pseudo) : pseudo.WellFormed := by
  cases reads with
  | @plain _ name ident => exact ⟨ident.lower_ne_empty, Text.noCapital_lowerChars name, by simp⟩
  | @functional _ name argument ident _ =>
    refine ⟨ident.lower_ne_empty, Text.noCapital_lowerChars name, ?_⟩
    rintro _ ⟨⟩
    rw [String.toList_ofList]
    exact Text.isTrimmed_trim argument

theorem Grammar.PseudoText.nearlyBalanced {text : List Char} {pseudo : Pseudo}
    (reads : PseudoText text pseudo) :
    ∀ argument ∈ pseudo.argument, NearlyBalanced argument.toList := by
  cases reads with
  | plain _ => simp
  | functional _ balanced =>
    rintro _ ⟨⟩
    rw [String.toList_ofList]
    exact nearlyBalanced_trim balanced

theorem Grammar.AttributeText.name_ne_empty {text : List Char} {selector : AttributeSelector}
    (reads : AttributeText text selector) : selector.name ≠ "" := by
  cases reads with
  | present _ ident _ => exact ident.ofList_ne_empty
  | test _ ident _ _ _ _ => exact ident.ofList_ne_empty

theorem Grammar.SubclassText.wellFormed {text : List Char} {subclass : SubclassSelector}
    (reads : SubclassText text subclass) : subclass.WellFormed := by
  cases reads with
  | id _ nonempty => exact ofList_ne_empty nonempty
  | className ident => exact ident.ofList_ne_empty
  | bracketed body => exact body.name_ne_empty
  | pseudoClass body evaluated => exact ⟨body.wellFormed, evaluated⟩
  | singleColonElement body _ => exact body.wellFormed
  | pseudoElement body => exact body.wellFormed

theorem Grammar.SubclassText.nearlyBalanced {text : List Char} {subclass : SubclassSelector}
    (reads : SubclassText text subclass) :
    ∀ argument ∈ subclass.argument?, NearlyBalanced argument.toList := by
  cases reads with
  | id _ _ | className _ | bracketed _ => rintro _ ⟨⟩
  | pseudoClass body _ | singleColonElement body _ | pseudoElement body => exact body.nearlyBalanced

theorem Grammar.SubclassesText.exists_of_mem {text : List Char} {subclasses : List SubclassSelector}
    (reads : SubclassesText text subclasses) :
    ∀ subclass ∈ subclasses, ∃ piece, SubclassText piece subclass := by
  induction reads with
  | nil => simp
  | cons first _ ih => exact List.forall_mem_cons.mpr ⟨⟨_, first⟩, ih⟩

theorem Grammar.CompoundText.wellFormed {text : List Char} {compound : CompoundSelector}
    (reads : CompoundText text compound) : compound.WellFormed := by
  obtain ⟨typed, conditions, nonempty⟩ := reads
  refine ⟨nonempty, ?_, fun subclass member => ?_⟩
  · cases typed with
    | none | universal => simp
    | tag ident => simpa using ident.ofList_ne_empty
  · obtain ⟨_, first⟩ := conditions.exists_of_mem subclass member
    exact first.wellFormed

theorem Grammar.CompoundText.nearlyBalanced {text : List Char} {compound : CompoundSelector}
    (reads : CompoundText text compound) :
    ∀ argument ∈ compound.arguments, NearlyBalanced argument.toList := by
  obtain ⟨_, conditions, _⟩ := reads
  intro argument found
  obtain ⟨subclass, member, inside⟩ := List.mem_filterMap.mp found
  obtain ⟨_, first⟩ := conditions.exists_of_mem subclass member
  exact first.nearlyBalanced argument inside

theorem Grammar.TailText.exists_of_mem {text : List Char}
    {tail : List (Combinator × CompoundSelector)} (reads : TailText text tail) :
    ∀ link ∈ tail, ∃ piece, CompoundText piece link.2 := by
  induction reads with
  | stop _ => simp
  | join _ first _ ih => exact List.forall_mem_cons.mpr ⟨⟨_, first⟩, ih⟩

theorem Grammar.ComplexText.wellFormed {text : List Char} {selector : ComplexSelector}
    (reads : ComplexText text selector) : selector.WellFormed := by
  obtain ⟨first, behind⟩ := reads
  refine ⟨first.wellFormed, fun link member => ?_⟩
  obtain ⟨_, joined⟩ := behind.exists_of_mem link member
  exact joined.wellFormed

theorem Grammar.ComplexText.nearlyBalanced {text : List Char} {selector : ComplexSelector}
    (reads : ComplexText text selector) :
    ∀ argument ∈ selector.arguments, NearlyBalanced argument.toList := by
  obtain ⟨first, behind⟩ := reads
  intro argument found
  rcases List.mem_append.mp found with inHead | inTail
  · exact first.nearlyBalanced argument inHead
  · obtain ⟨link, member, inside⟩ := List.mem_flatMap.mp inTail
    obtain ⟨_, joined⟩ := behind.exists_of_mem link member
    exact joined.nearlyBalanced argument inside

theorem Grammar.MembersText.exists_of_mem {text : List Char} {members : List ComplexSelector}
    (reads : MembersText text members) :
    ∀ member ∈ members, ∃ piece, ComplexText piece member := by
  induction reads with
  | last _ reads => simpa using ⟨_, reads⟩
  | more _ reads _ ih => exact List.forall_mem_cons.mpr ⟨⟨_, reads⟩, ih⟩

theorem Grammar.MembersText.ne_nil {text : List Char} {members : List ComplexSelector}
    (reads : MembersText text members) : members ≠ [] := by
  cases reads with
  | last _ _ | more _ _ _ => exact List.cons_ne_nil _ _

theorem SelectorList.wellFormed_of_derives {text : String} {list : SelectorList}
    (derives : Derives text list) : list.WellFormed := by
  refine ⟨derives.ne_nil, fun member found => ?_⟩
  obtain ⟨_, reads⟩ := derives.exists_of_mem member found
  exact reads.wellFormed

theorem SelectorList.nearlyBalanced_of_derives {text : String} {list : SelectorList}
    (derives : Derives text list) :
    ∀ argument ∈ list.arguments, NearlyBalanced argument.toList := by
  intro argument found
  obtain ⟨member, inList, inside⟩ := List.mem_flatMap.mp found
  obtain ⟨_, reads⟩ := derives.exists_of_mem member inList
  exact reads.nearlyBalanced argument inside

/-! ## Parentheses that stay open -/

theorem closesAtEnd_iff_not_escapeDangles {argument : String}
    (nearly : NearlyBalanced argument.toList) :
    ClosesAtEnd argument ↔ escapeDangles argument.toList = false := by
  rw [closesAtEnd_iff]
  constructor
  · intro balanced
    simpa [escapeDangles] using balanced.escapeDangles_append []
  · intro complete
    rcases nearly with balanced | ⟨front, shown, balanced⟩
    · exact balanced
    · rw [shown, balanced.escapeDangles_append] at complete
      cases complete

/-- The reader takes the whole text, and some parenthesis stays open unless `closed` holds. -/
def OpensUnless (closed : Prop) (text : List Char) : Prop :=
  ∃ count, Parser.Opens count text ∧ (count = 0 → closed)

theorem OpensUnless.mono {closed weaker : Prop} {text : List Char}
    (opens : OpensUnless closed text) (weaken : closed → weaker) : OpensUnless weaker text := by
  obtain ⟨count, opens, settled⟩ := opens
  exact ⟨count, opens, fun none => weaken (settled none)⟩

theorem OpensUnless.append {left right : Prop} {first second : List Char}
    (before : OpensUnless left first) (behind : OpensUnless right second) :
    OpensUnless (left ∧ right) (first ++ second) := by
  obtain ⟨_, opens, settled⟩ := before
  obtain ⟨_, opensBehind, settledBehind⟩ := behind
  refine ⟨_, opens.append opensBehind, fun none => ?_⟩
  obtain ⟨rfl, rfl⟩ := Nat.add_eq_zero_iff.mp none
  exact ⟨settled rfl, settledBehind rfl⟩

theorem opensUnless_of_balanced {closed : Prop} {text : List Char} (balanced : Balanced text)
    (holds : closed) : OpensUnless closed text :=
  ⟨0, Parser.opens_of_balanced balanced, fun _ => holds⟩

theorem OpensUnless.behind {closed : Prop} {front text : List Char} (balanced : Balanced front)
    (opens : OpensUnless closed text) : OpensUnless closed (front ++ text) :=
  ((opensUnless_of_balanced balanced trivial).append opens).mono And.right

theorem OpensUnless.flatMap {α : Type} {write : α → List Char} {closed : α → Prop} {items : List α}
    (each : ∀ item ∈ items, OpensUnless (closed item) (write item)) :
    OpensUnless (∀ item ∈ items, closed item) (items.flatMap write) := by
  induction items with
  | nil => exact opensUnless_of_balanced .nil (by simp)
  | cons item items ih =>
    have first := each item List.mem_cons_self
    have others := ih fun other member => each other (List.mem_cons_of_mem _ member)
    exact (first.append others).mono List.forall_mem_cons.mpr

/-- A last backslash hides the parenthesis that was to close the argument. -/
theorem opens_of_dangling {front : List Char} (balanced : Balanced front) :
    Parser.Opens 1 ('(' :: (front ++ ['\\']) ++ [')']) := by
  intro depth rest
  have split : '(' :: (front ++ ['\\']) ++ [')'] ++ rest = '(' :: (front ++ '\\' :: ')' :: rest) := by
    simp
  rw [split, Parser.takeArgument_open, Parser.opens_of_balanced balanced,
    Parser.takeArgument_escape]
  simp [Parser.prependAll]

theorem opensUnless_closesAtEnd {argument : String} (nearly : NearlyBalanced argument.toList) :
    OpensUnless (ClosesAtEnd argument) ('(' :: argument.toList ++ [')']) := by
  rcases nearly with balanced | ⟨front, shown, balanced⟩
  · exact opensUnless_of_balanced (.group balanced .nil) (closesAtEnd_iff.mpr balanced)
  · rw [shown]
    exact ⟨1, opens_of_dangling balanced, fun none => absurd none Nat.one_ne_zero⟩

theorem Pseudo.opensUnless_write {pseudo : Pseudo} (nonempty : pseudo.name ≠ "")
    (nearly : ∀ argument ∈ pseudo.argument, NearlyBalanced argument.toList) :
    OpensUnless (∀ argument ∈ pseudo.argument, ClosesAtEnd argument) pseudo.write := by
  have name := (Name.ident_write_toList nonempty).reads.balanced
  rw [write]
  cases stated : pseudo.argument with
  | none => exact opensUnless_of_balanced (name.append .nil) (by simp)
  | some argument =>
    apply ((opensUnless_closesAtEnd (nearly argument stated)).behind name).mono
    rintro closes _ ⟨⟩
    exact closes

theorem SubclassSelector.opensUnless_write {subclass : SubclassSelector}
    (wellFormed : subclass.WellFormed)
    (nearly : ∀ argument ∈ subclass.argument?, NearlyBalanced argument.toList) :
    OpensUnless (∀ argument ∈ subclass.argument?, ClosesAtEnd argument) subclass.write := by
  cases subclass with
  | pseudoClass pseudo =>
    exact (pseudo.opensUnless_write wellFormed.1.nonempty nearly).behind (.inert (by decide) .nil)
  | pseudoElement pseudo =>
    exact (pseudo.opensUnless_write wellFormed.nonempty nearly).behind
      (.inert (by decide) (.inert (by decide) .nil))
  | id _ | className _ | «attribute» _ =>
    have noArgument : ∀ argument ∈ none, ClosesAtEnd argument := by simp
    exact opensUnless_of_balanced (subclassText_write wellFormed noArgument).balanced noArgument

theorem TypeSelector.balanced_write {type : TypeSelector} (named : type ≠ .tag "") :
    Balanced type.write := by
  cases type with
  | universal => exact .inert (by decide) .nil
  | tag name =>
    have nonempty : name ≠ "" := by
      rintro rfl
      exact named rfl
    exact (Name.ident_write_toList nonempty).reads.balanced

theorem CompoundSelector.write_split {compound : CompoundSelector}
    (named : compound.type ≠ some (.tag "")) :
    ∃ typed, compound.write = typed ++ compound.subclasses.flatMap SubclassSelector.write ∧
      Balanced typed := by
  refine ⟨_, rfl, ?_⟩
  cases stated : compound.type with
  | some type => exact type.balanced_write fun shown => named (shown ▸ stated)
  | none =>
    dsimp only
    split
    · exact .inert (by decide) .nil
    · exact .nil

theorem CompoundSelector.opensUnless_write {compound : CompoundSelector}
    (wellFormed : compound.WellFormed)
    (nearly : ∀ argument ∈ compound.arguments, NearlyBalanced argument.toList) :
    OpensUnless (∀ argument ∈ compound.arguments, ClosesAtEnd argument) compound.write := by
  have conditions := OpensUnless.flatMap fun subclass member =>
    SubclassSelector.opensUnless_write (wellFormed.subclasses subclass member)
      fun argument inside => nearly argument (List.mem_filterMap.mpr ⟨subclass, member, inside⟩)
  obtain ⟨typed, shown, balanced⟩ := write_split wellFormed.tag
  rw [shown]
  apply (conditions.behind balanced).mono
  intro closed argument found
  obtain ⟨subclass, member, inside⟩ := List.mem_filterMap.mp found
  exact closed subclass member argument inside

theorem ComplexSelector.opensUnless_write {selector : ComplexSelector}
    (wellFormed : selector.WellFormed)
    (nearly : ∀ argument ∈ selector.arguments, NearlyBalanced argument.toList) :
    OpensUnless (∀ argument ∈ selector.arguments, ClosesAtEnd argument) selector.write := by
  have head := selector.head.opensUnless_write wellFormed.head
    fun argument inside => nearly argument (List.mem_append_left _ inside)
  have tail := OpensUnless.flatMap fun link member =>
    (CompoundSelector.opensUnless_write (wellFormed.tail link member)
      fun argument inside => nearly argument (List.mem_append_right _
        (List.mem_flatMap.mpr ⟨link, member, inside⟩))).behind
      link.1.combinatorText_write.balanced
  apply (head.append tail).mono
  rintro ⟨inHead, inTail⟩ argument found
  rcases List.mem_append.mp found with inside | found
  · exact inHead argument inside
  · obtain ⟨link, member, inside⟩ := List.mem_flatMap.mp found
    exact inTail link member argument inside

theorem SelectorList.opensUnless_writeMembers {closed : ComplexSelector → Prop}
    {members : List ComplexSelector}
    (each : ∀ member ∈ members, OpensUnless (closed member) member.write) :
    OpensUnless (∀ member ∈ members, closed member) (writeMembers members) := by
  induction members with
  | nil => exact opensUnless_of_balanced .nil (by simp)
  | cons selector others ih =>
    have first := each selector List.mem_cons_self
    have behind := ih fun member found => each member (List.mem_cons_of_mem _ found)
    cases others with
    | nil => exact first.mono fun holds => by simpa using holds
    | cons next others =>
      have comma : Balanced [',', ' '] := .inert (by decide) (.inert (by decide) .nil)
      exact (first.append (behind.behind comma)).mono List.forall_mem_cons.mpr

/-- A balanced text leaves no parenthesis open. -/
theorem OpensUnless.closed_of_balanced {closed : Prop} {text : List Char}
    (opens : OpensUnless closed text) (balanced : Balanced text) : closed := by
  obtain ⟨count, opens, settled⟩ := opens
  apply settled
  have once := Parser.opens_of_balanced balanced 0 [')']
  rw [opens 0 [')'], Parser.takeArgument_end, Parser.prependAll_ok] at once
  cases count with
  | zero => rfl
  | succ count =>
    rw [Nat.zero_add, Parser.takeArgument_close, Parser.takeArgument] at once
    change Parser.prependAll text (.error _) = _ at once
    rw [Parser.prependAll_error] at once
    cases once

/-! ## Reading what was written -/

theorem SelectorList.opensUnless_display {list : SelectorList} (wellFormed : list.WellFormed)
    (nearly : ∀ argument ∈ list.arguments, NearlyBalanced argument.toList) :
    OpensUnless (∀ argument ∈ list.arguments, ClosesAtEnd argument) list.display.toList := by
  rw [display, String.toList_ofList]
  have each := opensUnless_writeMembers fun member found =>
    ComplexSelector.opensUnless_write (wellFormed.members member found)
      fun argument inside => nearly argument (List.mem_flatMap.mpr ⟨member, found, inside⟩)
  apply each.mono
  intro closed argument found
  obtain ⟨member, inList, inside⟩ := List.mem_flatMap.mp found
  exact closed member inList argument inside

/-- If what was written can be read at all, then its arguments close where they end. -/
theorem SelectorList.closes_of_parse_display {list other : SelectorList}
    (wellFormed : list.WellFormed)
    (nearly : ∀ argument ∈ list.arguments, NearlyBalanced argument.toList)
    (h : parse list.display = .ok other) : ∀ argument ∈ list.arguments, ClosesAtEnd argument := by
  have balanced := MembersText.balanced (derives_of_parse h)
  exact (opensUnless_display wellFormed nearly).closed_of_balanced balanced

/-- What reading returns can be written and read again exactly if no argument ends in a
backslash with nothing to escape, and what is read then is the same list. -/
theorem SelectorList.parse_display_of_parse {text : String} {list : SelectorList}
    (h : parse text = .ok list) :
    (parse list.display = .ok list ↔
      ∀ argument ∈ list.arguments, escapeDangles argument.toList = false) ∧
    ∀ other, parse list.display = .ok other → other = list := by
  have derives := derives_of_parse h
  have wellFormed := wellFormed_of_derives derives
  have nearly := nearlyBalanced_of_derives derives
  have back : (∀ argument ∈ list.arguments, ClosesAtEnd argument) →
      parse list.display = .ok list := fun closes => parse_of_derives (derives_display wellFormed closes)
  constructor
  · constructor
    · intro read argument found
      have closes := closes_of_parse_display wellFormed nearly read
      exact (closesAtEnd_iff_not_escapeDangles (nearly argument found)).mp (closes argument found)
    · intro complete
      apply back
      intro argument found
      exact (closesAtEnd_iff_not_escapeDangles (nearly argument found)).mpr (complete argument found)
  · intro other read
    have same := back (closes_of_parse_display wellFormed nearly read)
    rw [read] at same
    exact Except.ok.inj same

/-- What `:a( \) ) b` is read as: the parenthesis in the argument is escaped. -/
def escapedParenthesis : SelectorList where
  members := [⟨⟨none, [.pseudoClass ⟨"a", some "\\)"⟩]⟩, [(.descendant, ⟨some (.tag "b"), []⟩)]⟩]

theorem parse_display_escapedParenthesis :
    SelectorList.parse ":a( \\) ) b" = .ok escapedParenthesis ∧
      SelectorList.parse escapedParenthesis.display = .ok escapedParenthesis := by
  have read : SelectorList.parse ":a( \\) ) b" = .ok escapedParenthesis := by decide +kernel
  have complete : ∀ argument ∈ escapedParenthesis.arguments,
      escapeDangles argument.toList = false := by decide
  exact ⟨read, (SelectorList.parse_display_of_parse read).1.mpr complete⟩

/-- What `:a(\ )` is read as: the space is trimmed, and the backslash has lost what it escaped. -/
def danglingBackslash : SelectorList where
  members := [⟨⟨none, [.pseudoClass ⟨"a", some "\\"⟩]⟩, []⟩]

theorem parse_display_danglingBackslash :
    SelectorList.parse ":a(\\ )" = .ok danglingBackslash ∧
      SelectorList.parse danglingBackslash.display ≠ .ok danglingBackslash := by
  constructor
  · decide +kernel
  · decide +kernel

end CssSelect
