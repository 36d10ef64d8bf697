import CssSelect.Proofs.Selector.Completion

/-!
Texts that are put together. A selector list ends where its text ends, and a comma or a combinator
behind it is read as if the list had been written with it: a comma begins the next members, and a
combinator joins the last member to the first of what follows. A problem in the second text stays
the same problem, as many bytes further on as the first text and the comma take.
-/
namespace CssSelect

open Grammar

/-- Two selectors as one, with a combinator between the last compound of the first and the head of
the second. -/
def ComplexSelector.join (left : ComplexSelector) (combinator : Combinator)
    (right : ComplexSelector) : ComplexSelector :=
  ⟨left.head, left.tail ++ (combinator, right.head) :: right.tail⟩

/-! ## Pieces of the grammar -/

namespace Grammar

theorem blanks_append {first second : List Char} (blanks : Blanks first) (more : Blanks second) :
    Blanks (first ++ second) :=
  List.forall_mem_append.mpr ⟨blanks, more⟩

/-- Blanks around the symbol of a combinator change nothing, also where the symbol is a blank. -/
theorem combinatorText_symbol {before behind : List Char} (combinator : Combinator)
    (blanksBefore : Blanks before) (blanksBehind : Blanks behind) :
    CombinatorText (before ++ combinator.symbol.toList ++ behind) combinator := by
  by_cases descendant : combinator = .descendant
  · subst descendant
    have blank : Blanks Combinator.descendant.symbol.toList := by
      intro c member
      obtain rfl : c = ' ' := List.mem_singleton.mp member
      rfl
    refine .descendant (blanks_append (blanks_append blanksBefore blank) blanksBehind) ?_
    simp [Combinator.symbol]
  · exact .symbol descendant blanksBefore blanksBehind

theorem TailText.join_tail {text between compoundText rest : List Char}
    {tail others : List (Combinator × CompoundSelector)} {compound : CompoundSelector}
    (reads : TailText text tail) (combinator : Combinator) (blanks : Blanks between)
    (head : CompoundText compoundText compound) (behind : TailText rest others) :
    TailText (text ++ (combinator.symbol.toList ++ (between ++ (compoundText ++ rest))))
      (tail ++ (combinator, compound) :: others) := by
  induction reads with
  | stop blanksBefore =>
    have joined := combinatorText_symbol combinator blanksBefore blanks
    simpa using TailText.join joined head behind
  | join joined first _ ih =>
    rw [List.append_assoc]
    exact .join joined first ih

theorem ComplexText.join {text between rest : List Char} {left right : ComplexSelector}
    (reads : ComplexText text left) (combinator : Combinator) (blanks : Blanks between)
    (behind : ComplexText rest right) :
    ComplexText (text ++ (combinator.symbol.toList ++ (between ++ rest)))
      (left.join combinator right) := by
  obtain ⟨first, tail⟩ := reads
  obtain ⟨second, others⟩ := behind
  rw [List.append_assoc]
  exact .mk first (tail.join_tail combinator blanks second others)

/-- A selector in front of a list becomes part of the list's first member. -/
theorem MembersText.join_member {before text rest : List Char} {left : ComplexSelector}
    {others : List ComplexSelector} (blanks : Blanks before) (reads : ComplexText text left)
    (combinator : Combinator) (behind : MembersText rest others) :
    ∃ right more, others = right :: more ∧
      MembersText (before ++ text ++ combinator.symbol.toList ++ rest)
        (left.join combinator right :: more) := by
  cases behind with
  | last between first =>
    refine ⟨_, _, rfl, ?_⟩
    simpa using MembersText.last blanks (reads.join combinator between first)
  | more between first further =>
    refine ⟨_, _, rfl, ?_⟩
    simpa using MembersText.more blanks (reads.join combinator between first) further

theorem MembersText.join {text rest : List Char} {members others : List ComplexSelector}
    (reads : MembersText text members) (combinator : Combinator) (behind : MembersText rest others) :
    ∃ front left right more, members = front ++ [left] ∧ others = right :: more ∧
      MembersText (text ++ combinator.symbol.toList ++ rest)
        (front ++ left.join combinator right :: more) := by
  induction reads with
  | @last _ _ selector blanks first =>
    obtain ⟨right, more, split, joined⟩ := MembersText.join_member blanks first combinator behind
    exact ⟨[], selector, right, more, rfl, split, joined⟩
  | @more _ _ _ selector _ blanks first _ ih =>
    obtain ⟨front, left, right, more, rfl, split, joined⟩ := ih
    refine ⟨selector :: front, left, right, more, rfl, split, ?_⟩
    simpa using MembersText.more blanks first joined

end Grammar

/-! ## Reading behind a comma -/

/-- In front of a comma the members of a list are read as they are at the end of a text. -/
theorem Parser.takeMembers_append_comma {text : List Char} {members : List ComplexSelector}
    (reads : MembersText text members) (behind : List Char) :
    takeMembers (text ++ ',' :: behind) = (takeMembers behind).after
      (members.flatMap ComplexSelector.announcements) (members ++ ·) := by
  induction reads with
  | @last blanks text selector before first =>
    have read : takeComplex (text ++ ',' :: behind) =
        ⟨selector.announcements, .ok (selector, ',' :: behind)⟩ := takeComplex_append first rfl
    rw [← skipBlanks_complex before first, ← List.append_assoc] at read
    rw [takeMembers_of_comma read, List.flatMap_singleton]
    rfl
  | @more blanks text rest selector others before first _ ih =>
    have read : takeComplex (text ++ ',' :: (rest ++ ',' :: behind)) =
        ⟨selector.announcements, .ok (selector, ',' :: (rest ++ ',' :: behind))⟩ :=
      takeComplex_append first rfl
    rw [← skipBlanks_complex before first, ← List.append_assoc] at read
    rw [List.append_assoc, List.cons_append, takeMembers_of_comma read, ih, Reading.after_after]
    rfl

namespace SelectorList

/-- A problem behind a comma is found where it is without what stands in front. -/
theorem parse_append_comma_error {first second : String} {list : SelectorList} {error : SyntaxError}
    (read : parse first = .ok list) (failed : parse second = .error error) :
    parse (first ++ "," ++ second) =
      .error ⟨error.cause, error.position + 1 + first.utf8ByteSize⟩ := by
  obtain ⟨failure, stopped, rfl⟩ := exists_failure_of_parse failed
  obtain ⟨taken, _, split, _⟩ := Parser.failsInside_of_takeMembers stopped
  have whole : (first ++ "," ++ second).toList = first.toList ++ ',' :: second.toList := by simp
  have stoppedBehind : (Parser.takeMembers (first ++ "," ++ second).toList).outcome =
      .error failure := by
    rw [whole, Parser.takeMembers_append_comma (derives_of_parse read), Reading.after, stopped]
  rw [parse_of_failure stoppedBehind, SyntaxError.ofFailure, SyntaxError.ofFailure, whole, split]
  have comma : ','.utf8Size = 1 := rfl
  simp only [Text.utf8Size_append, Text.utf8Size, Text.utf8Size_eq_utf8ByteSize first.toList,
    String.ofList_toList, comma, Except.error.injEq, SyntaxError.mk.injEq, true_and]
  omega

/-- Reading is compositional: a text that is a list can be followed by a comma or the symbol of a
combinator and a second text, whatever blanks stand around. Behind a comma the members of the second
list follow, and its error is the same at a place that is moved by what stands in front; a
combinator joins the last member of the first list to the first member of the second. -/
theorem parse_composed {first : String} {list : SelectorList} (read : parse first = .ok list)
    (second : String) :
    (∀ other, parse second = .ok other →
      parse (first ++ "," ++ second) = .ok ⟨list.members ++ other.members⟩) ∧
    (∀ error, parse second = .error error → parse (first ++ "," ++ second) =
      .error ⟨error.cause, error.position + 1 + first.utf8ByteSize⟩) ∧
    ∀ (combinator : Combinator) (other : SelectorList), parse second = .ok other →
      ∃ front left right more, list.members = front ++ [left] ∧ other.members = right :: more ∧
        parse (first ++ combinator.symbol ++ second) =
          .ok ⟨front ++ left.join combinator right :: more⟩ := by
  refine ⟨fun other readOther => parse_append_comma read readOther,
    fun error failed => parse_append_comma_error read failed, ?_⟩
  intro combinator other readOther
  obtain ⟨front, left, right, more, members, others, joined⟩ :=
    (derives_of_parse read).join combinator (derives_of_parse readOther)
  refine ⟨front, left, right, more, members, others, parse_of_derives ?_⟩
  rw [Derives, String.toList_append, String.toList_append]
  exact joined

/-- Two members in front, with blanks at their end, and a problem behind a letter of two bytes. -/
theorem parse_composed_spaced :
    parse "a, b " = .ok ⟨[⟨⟨some (.tag "a"), []⟩, []⟩, ⟨⟨some (.tag "b"), []⟩, []⟩]⟩ ∧
      parse " é(" = .error ⟨.unexpectedCharacter '(', 3⟩ ∧
      parse "a, b , é(" = .error ⟨.unexpectedCharacter '(', 9⟩ := by
  have read : parse "a, b " = .ok ⟨[⟨⟨some (.tag "a"), []⟩, []⟩, ⟨⟨some (.tag "b"), []⟩, []⟩]⟩ := by
    decide +kernel
  have failed : parse " é(" = .error ⟨.unexpectedCharacter '(', 3⟩ := by decide +kernel
  exact ⟨read, failed, (parse_composed read " é(").2.1 _ failed⟩

end SelectorList

end CssSelect
