import CssSelect.Selector.Parser

/-!
The grammar of selector texts. Each relation holds between a piece of text and what
it stands for; pieces are put together by `++`, so nothing here says where a reader
looks or stops. `Derives` relates a whole text to a selector list.

A name keeps the characters behind its backslashes and an argument the text between
its parentheses, so the relations say of every spelling what it means.
-/
namespace CssSelect.Grammar

/-- A run of blanks, which may be empty. -/
def Blanks (text : List Char) : Prop :=
  ∀ c ∈ text, Text.isBlank c = true

/-- Name characters and escaped characters, as many as there are. -/
inductive NameText : List Char → List Char → Prop
  | nil : NameText [] []
  | plain {c : Char} {text name : List Char} (part : Name.isPart c = true)
      (rest : NameText text name) : NameText (c :: text) (c :: name)
  | escaped (c : Char) {text name : List Char} (rest : NameText text name) :
      NameText ('\\' :: c :: text) (c :: name)

/-- A name that has to start like one. -/
structure Ident (text name : List Char) : Prop where
  reads : NameText text name
  starts : Name.startsHere text = true

/-- What stands between the two marks of a quoted string. -/
inductive StringText (mark : Char) : List Char → List Char → Prop
  | nil : StringText mark [] []
  | plain {c : Char} {text value : List Char} (notMark : c ≠ mark) (notEscape : c ≠ '\\')
      (rest : StringText mark text value) : StringText mark (c :: text) (c :: value)
  | escaped (c : Char) {text value : List Char} (rest : StringText mark text value) :
      StringText mark ('\\' :: c :: text) (c :: value)

/-- The two marks that strings stand between. -/
def IsMark (c : Char) : Prop :=
  c = '"' ∨ c = '\''

instance (c : Char) : Decidable (IsMark c) :=
  inferInstanceAs (Decidable (c = '"' ∨ c = '\''))

/-- The flag behind a value, in either case. -/
inductive FlagText : List Char → CaseFlag → Prop
  | ignoreCase {c : Char} (letter : c = 'i' ∨ c = 'I') : FlagText [c] .ignoreCase
  | exact {c : Char} (letter : c = 's' ∨ c = 'S') : FlagText [c] .exact

/-- What stands between a value and the closing bracket. -/
inductive EndingText : List Char → Option CaseFlag → Prop
  | bare {blanks : List Char} (behind : Blanks blanks) : EndingText blanks none
  | flagged {before letter behind : List Char} {flag : CaseFlag} (blanksBefore : Blanks before)
      (reads : FlagText letter flag) (blanksBehind : Blanks behind) :
      EndingText (before ++ letter ++ behind) (some flag)

/-- A value with its ending. Behind a name a blank has to come before the flag. -/
inductive ValueText : List Char → List Char → Option CaseFlag → Prop
  | quoted {mark : Char} {text value rest : List Char} {flag : Option CaseFlag}
      (isMark : IsMark mark) (body : StringText mark text value) (ending : EndingText rest flag) :
      ValueText (mark :: text ++ mark :: rest) value flag
  | name {text value rest : List Char} {flag : Option CaseFlag} (body : NameText text value)
      (nonempty : value ≠ []) (ending : EndingText rest flag)
      (separated : flag ≠ none → rest.head?.any Text.isBlank = true) :
      ValueText (text ++ rest) value flag

/-- What stands between the brackets of an attribute selector. -/
inductive AttributeText : List Char → AttributeSelector → Prop
  | present {before text name behind : List Char} (blanksBefore : Blanks before)
      (ident : Ident text name) (blanksBehind : Blanks behind) :
      AttributeText (before ++ text ++ behind) ⟨String.ofList name, none⟩
  | test {before text name behind between tested value : List Char} {flag : Option CaseFlag}
      (blanksBefore : Blanks before) (ident : Ident text name) (blanksBehind : Blanks behind)
      (operator : AttributeOperator) (blanksBetween : Blanks between)
      (reads : ValueText tested value flag) :
      AttributeText (before ++ text ++ behind ++ operator.symbol.toList ++ between ++ tested)
        ⟨String.ofList name, some ⟨operator, String.ofList value, flag⟩⟩

/-- A character that means nothing to the reader of an argument. -/
def IsInert (c : Char) : Prop :=
  c ≠ '(' ∧ c ≠ ')' ∧ c ≠ '\\' ∧ ¬ IsMark c

instance (c : Char) : Decidable (IsInert c) :=
  inferInstanceAs (Decidable (c ≠ '(' ∧ c ≠ ')' ∧ c ≠ '\\' ∧ ¬ IsMark c))

/-- A text in which every parenthesis that is neither escaped nor quoted has its partner,
every string its two marks and every backslash a character to escape. -/
inductive Balanced : List Char → Prop
  | nil : Balanced []
  | inert {c : Char} {rest : List Char} (isInert : IsInert c) (behind : Balanced rest) :
      Balanced (c :: rest)
  | escaped (c : Char) {rest : List Char} (behind : Balanced rest) : Balanced ('\\' :: c :: rest)
  | quoted {mark : Char} {text value rest : List Char} (isMark : IsMark mark)
      (body : StringText mark text value) (behind : Balanced rest) :
      Balanced (mark :: text ++ mark :: rest)
  | group {inner rest : List Char} (within : Balanced inner) (behind : Balanced rest) :
      Balanced ('(' :: inner ++ ')' :: rest)

/-- The name of a pseudo selector, in small letters, and its argument without the white
space around it. -/
inductive PseudoText : List Char → Pseudo → Prop
  | plain {text name : List Char} (ident : Ident text name) :
      PseudoText text ⟨String.ofList (Text.lowerChars name), none⟩
  | functional {text name argument : List Char} (ident : Ident text name)
      (balanced : Balanced argument) :
      PseudoText (text ++ '(' :: argument ++ [')'])
        ⟨String.ofList (Text.lowerChars name), some (String.ofList (Text.trim argument))⟩

/-- A condition with its mark. Four names are pseudo-elements behind one colon too. -/
inductive SubclassText : List Char → SubclassSelector → Prop
  | id {text name : List Char} (body : NameText text name) (nonempty : name ≠ []) :
      SubclassText ('#' :: text) (.id (String.ofList name))
  | className {text name : List Char} (ident : Ident text name) :
      SubclassText ('.' :: text) (.className (String.ofList name))
  | bracketed {text : List Char} {selector : AttributeSelector} (body : AttributeText text selector) :
      SubclassText ('[' :: text ++ [']']) (.attribute selector)
  | pseudoClass {text : List Char} {pseudo : Pseudo} (body : PseudoText text pseudo)
      (evaluated : pseudo.name ∉ Parser.singleColonElements) :
      SubclassText (':' :: text) (.pseudoClass pseudo)
  | singleColonElement {text : List Char} {pseudo : Pseudo} (body : PseudoText text pseudo)
      (listed : pseudo.name ∈ Parser.singleColonElements) :
      SubclassText (':' :: text) (.pseudoElement pseudo)
  | pseudoElement {text : List Char} {pseudo : Pseudo} (body : PseudoText text pseudo) :
      SubclassText (':' :: ':' :: text) (.pseudoElement pseudo)

/-- Conditions, one right behind the other. -/
inductive SubclassesText : List Char → List SubclassSelector → Prop
  | nil : SubclassesText [] []
  | cons {text rest : List Char} {subclass : SubclassSelector} {others : List SubclassSelector}
      (first : SubclassText text subclass) (behind : SubclassesText rest others) :
      SubclassesText (text ++ rest) (subclass :: others)

/-- A type selector, or nothing. -/
inductive TypeText : List Char → Option TypeSelector → Prop
  | none : TypeText [] none
  | universal : TypeText ['*'] (some .universal)
  | tag {text name : List Char} (ident : Ident text name) :
      TypeText text (some (.tag (String.ofList name)))

/-- A type selector and conditions, not both missing. -/
inductive CompoundText : List Char → CompoundSelector → Prop
  | mk {typeText rest : List Char} {type : Option TypeSelector} {subclasses : List SubclassSelector}
      (typed : TypeText typeText type) (conditions : SubclassesText rest subclasses)
      (nonempty : ¬ (type = none ∧ subclasses = [])) :
      CompoundText (typeText ++ rest) ⟨type, subclasses⟩

/-- What joins two compounds: blanks, or a symbol with or without blanks around it. -/
inductive CombinatorText : List Char → Combinator → Prop
  | descendant {blanks : List Char} (apart : Blanks blanks) (nonempty : blanks ≠ []) :
      CombinatorText blanks .descendant
  | symbol {before behind : List Char} {combinator : Combinator}
      (notDescendant : combinator ≠ .descendant) (blanksBefore : Blanks before)
      (blanksBehind : Blanks behind) :
      CombinatorText (before ++ combinator.symbol.toList ++ behind) combinator

/-- Combinators with their compounds, and blanks at the end. -/
inductive TailText : List Char → List (Combinator × CompoundSelector) → Prop
  | stop {blanks : List Char} (behind : Blanks blanks) : TailText blanks []
  | join {text compoundText rest : List Char} {combinator : Combinator}
      {compound : CompoundSelector} {tail : List (Combinator × CompoundSelector)}
      (joined : CombinatorText text combinator) (reads : CompoundText compoundText compound)
      (behind : TailText rest tail) :
      TailText (text ++ compoundText ++ rest) ((combinator, compound) :: tail)

/-- A complex selector with the blanks behind it. -/
inductive ComplexText : List Char → ComplexSelector → Prop
  | mk {text rest : List Char} {head : CompoundSelector}
      {tail : List (Combinator × CompoundSelector)} (reads : CompoundText text head)
      (behind : TailText rest tail) : ComplexText (text ++ rest) ⟨head, tail⟩

/-- Complex selectors with commas between them. -/
inductive MembersText : List Char → List ComplexSelector → Prop
  | last {blanks text : List Char} {selector : ComplexSelector} (before : Blanks blanks)
      (reads : ComplexText text selector) : MembersText (blanks ++ text) [selector]
  | more {blanks text rest : List Char} {selector : ComplexSelector} {others : List ComplexSelector}
      (before : Blanks blanks) (reads : ComplexText text selector)
      (behind : MembersText rest others) :
      MembersText (blanks ++ text ++ ',' :: rest) (selector :: others)

/-- The whole text is a selector list, and this is the one. -/
def Derives (text : String) (list : SelectorList) : Prop :=
  MembersText text.toList list.members

end CssSelect.Grammar
