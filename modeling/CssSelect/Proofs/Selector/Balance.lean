import CssSelect.Proofs.Selector.Argument
import CssSelect.Proofs.Text.Trim

/-!
Balance of whole texts and of what trimming leaves of them. A text that is a selector
list has a partner for every parenthesis. An argument is balanced as it stands between
its parentheses, but it loses the white space around it; if its last backslash escaped
such a character, nothing is left for that backslash to escape.
-/
namespace CssSelect

open Grammar

/-! ## Selector texts are balanced -/

namespace Grammar

theorem Balanced.append {first second : List Char} (before : Balanced first)
    (behind : Balanced second) : Balanced (first ++ second) := by
  induction before with
  | nil => exact behind
  | inert isInert _ ih => exact .inert isInert ih
  | escaped c _ ih => exact .escaped c ih
  | quoted isMark body _ ih => simpa using Balanced.quoted isMark body ih
  | group within _ _ ih => simpa using Balanced.group within ih

theorem balanced_of_inert {text : List Char} (inert : ∀ c ∈ text, IsInert c) : Balanced text := by
  induction text with
  | nil => exact .nil
  | cons c text ih =>
    exact .inert (inert c List.mem_cons_self)
      (ih fun d member => inert d (List.mem_cons_of_mem _ member))

/-- A class of characters without parentheses, marks and the backslash. -/
theorem inert_of_class {kind : Char → Bool}
    (without : ['(', ')', '\\', '"', '\''].any kind = false) {c : Char}
    (holds : kind c = true) : IsInert c := by
  have other : ∀ d ∈ ['(', ')', '\\', '"', '\''], c ≠ d := by
    rintro d listed rfl
    exact List.any_eq_false.mp without c listed holds
  refine ⟨other '(' (by decide), other ')' (by decide), other '\\' (by decide), ?_⟩
  rintro (mark | mark)
  · exact other '"' (by decide) mark
  · exact other '\'' (by decide) mark

theorem inert_of_isPart {c : Char} (part : Name.isPart c = true) : IsInert c :=
  inert_of_class (by decide) part

theorem inert_of_isBlank {c : Char} (blank : Text.isBlank c = true) : IsInert c :=
  inert_of_class (by decide) blank

theorem inert_of_isWhiteSpace {c : Char} (white : Text.isWhiteSpace c = true) : IsInert c :=
  inert_of_class (by decide) white

theorem Blanks.balanced {blanks : List Char} (run : Blanks blanks) : Balanced blanks :=
  balanced_of_inert fun c member => inert_of_isBlank (run c member)

theorem NameText.balanced {text name : List Char} (reads : NameText text name) : Balanced text := by
  induction reads with
  | nil => exact .nil
  | plain part _ ih => exact .inert (inert_of_isPart part) ih
  | escaped c _ ih => exact .escaped c ih

theorem FlagText.balanced {letter : List Char} {flag : CaseFlag} (reads : FlagText letter flag) :
    Balanced letter := by
  cases reads with
  | ignoreCase letter =>
    rcases letter with rfl | rfl <;> exact .inert (inert_of_isPart (by decide)) .nil
  | exact letter =>
    rcases letter with rfl | rfl <;> exact .inert (inert_of_isPart (by decide)) .nil

theorem EndingText.balanced {ending : List Char} {flag : Option CaseFlag}
    (reads : EndingText ending flag) : Balanced ending := by
  cases reads with
  | bare behind => exact behind.balanced
  | flagged before reads behind => exact (before.balanced.append reads.balanced).append behind.balanced

theorem ValueText.balanced {text value : List Char} {flag : Option CaseFlag}
    (reads : ValueText text value flag) : Balanced text := by
  cases reads with
  | quoted isMark body ending => exact .quoted isMark body ending.balanced
  | name body _ ending _ => exact body.balanced.append ending.balanced

theorem balanced_symbol (operator : AttributeOperator) : Balanced operator.symbol.toList := by
  apply balanced_of_inert
  cases operator <;> simp [AttributeOperator.symbol, IsInert, IsMark]

theorem AttributeText.balanced {text : List Char} {selector : AttributeSelector}
    (reads : AttributeText text selector) : Balanced text := by
  cases reads with
  | present before ident behind =>
    exact (before.balanced.append ident.reads.balanced).append behind.balanced
  | test before ident behind operator between reads =>
    exact ((((before.balanced.append ident.reads.balanced).append behind.balanced).append
      (balanced_symbol operator)).append between.balanced).append reads.balanced

theorem PseudoText.balanced {text : List Char} {pseudo : Pseudo} (reads : PseudoText text pseudo) :
    Balanced text := by
  cases reads with
  | plain ident => exact ident.reads.balanced
  | functional ident balanced =>
    have group := Balanced.group balanced .nil
    simpa using ident.reads.balanced.append group

theorem SubclassText.balanced {text : List Char} {subclass : SubclassSelector}
    (reads : SubclassText text subclass) : Balanced text := by
  cases reads with
  | id body _ => exact .inert (by decide) body.balanced
  | className ident => exact .inert (by decide) ident.reads.balanced
  | bracketed body => exact (Balanced.inert (by decide) body.balanced).append (.inert (by decide) .nil)
  | pseudoClass body _ => exact .inert (by decide) body.balanced
  | singleColonElement body _ => exact .inert (by decide) body.balanced
  | pseudoElement body => exact .inert (by decide) (.inert (by decide) body.balanced)

theorem SubclassesText.balanced {text : List Char} {subclasses : List SubclassSelector}
    (reads : SubclassesText text subclasses) : Balanced text := by
  induction reads with
  | nil => exact .nil
  | cons first _ ih => exact first.balanced.append ih

theorem TypeText.balanced {text : List Char} {type : Option TypeSelector}
    (reads : TypeText text type) : Balanced text := by
  cases reads with
  | none => exact .nil
  | universal => exact .inert (by decide) .nil
  | tag ident => exact ident.reads.balanced

theorem CompoundText.balanced {text : List Char} {compound : CompoundSelector}
    (reads : CompoundText text compound) : Balanced text := by
  obtain ⟨typed, conditions, _⟩ := reads
  exact typed.balanced.append conditions.balanced

theorem CombinatorText.balanced {text : List Char} {combinator : Combinator}
    (joined : CombinatorText text combinator) : Balanced text := by
  cases joined with
  | descendant apart _ => exact apart.balanced
  | symbol _ before behind =>
    have symbol : Balanced combinator.symbol.toList := by
      apply balanced_of_inert
      cases combinator <;> simp [Combinator.symbol, IsInert, IsMark]
    exact (before.balanced.append symbol).append behind.balanced

theorem TailText.balanced {text : List Char} {tail : List (Combinator × CompoundSelector)}
    (reads : TailText text tail) : Balanced text := by
  induction reads with
  | stop behind => exact behind.balanced
  | join joined first _ ih => exact (joined.balanced.append first.balanced).append ih

theorem ComplexText.balanced {text : List Char} {selector : ComplexSelector}
    (reads : ComplexText text selector) : Balanced text := by
  obtain ⟨first, behind⟩ := reads
  exact first.balanced.append behind.balanced

/-- A text that is a selector list has no parenthesis without its partner. -/
theorem MembersText.balanced {text : List Char} {members : List ComplexSelector}
    (reads : MembersText text members) : Balanced text := by
  induction reads with
  | last before reads => exact before.balanced.append reads.balanced
  | more before reads _ ih =>
    exact (before.balanced.append reads.balanced).append (.inert (by decide) ih)

end Grammar

/-! ## Trimmed arguments -/

/-- What trimming can leave of a balanced text: the last character may be a backslash. -/
def NearlyBalanced (text : List Char) : Prop :=
  Balanced text ∨ ∃ front, text = front ++ ['\\'] ∧ Balanced front

theorem balanced_of_inert_append {first second : List Char} (inert : ∀ c ∈ first, IsInert c)
    (balanced : Balanced (first ++ second)) : Balanced second := by
  induction first with
  | nil => exact balanced
  | cons c first ih =>
    have whole : Parser.takeArgument 0 none (c :: first ++ second ++ [')']) =
        .ok (c :: first ++ second, []) := Parser.takeArgument_eq_ok_iff.mpr ⟨rfl, balanced⟩
    rw [List.cons_append, List.cons_append,
      Parser.takeArgument_inert (inert c List.mem_cons_self)] at whole
    obtain ⟨tail, step, shown⟩ := Parser.prepend_eq_ok whole
    obtain ⟨_, rfl⟩ := List.cons.inj shown
    exact ih (fun d member => inert d (List.mem_cons_of_mem _ member))
      (Parser.takeArgument_eq_ok_iff.mp step).2

/-- A last character other than `e` comes behind an `e` that is not the last. -/
theorem split_last {text front rest : List Char} {c e : Char} (different : c ≠ e)
    (shown : text ++ [c] = front ++ [e] ++ rest) :
    ∃ between, rest = between ++ [c] ∧ text = front ++ [e] ++ between := by
  rcases List.eq_nil_or_concat rest with rfl | ⟨between, d, rfl⟩
  · rw [List.append_nil] at shown
    have last := (List.append_inj' shown rfl).2
    exact absurd (List.cons.inj last).1 different
  · rw [List.concat_eq_append, ← List.append_assoc] at shown
    obtain ⟨whole, last⟩ := List.append_inj' shown rfl
    obtain ⟨rfl, _⟩ := List.cons.inj last
    exact ⟨between, List.concat_eq_append, whole⟩

theorem NearlyBalanced.extend (front : List Char)
    (item : ∀ text, Balanced text → Balanced (front ++ text)) {text : List Char}
    (nearly : NearlyBalanced text) : NearlyBalanced (front ++ text) := by
  rcases nearly with balanced | ⟨inner, rfl, balanced⟩
  · exact .inl (item text balanced)
  · exact .inr ⟨front ++ inner, by simp, item inner balanced⟩

/-- The induction is on what is balanced: the last character is inert, so it belongs to no
string and no group, but it may be what a backslash escapes. -/
theorem nearlyBalanced_of_append_inert {text : List Char} {c : Char} (isInert : IsInert c)
    (balanced : Balanced (text ++ [c])) : NearlyBalanced text := by
  obtain ⟨_, notClose, _, notMark⟩ := isInert
  generalize shown : text ++ [c] = whole at balanced
  induction balanced generalizing text with
  | nil => simp at shown
  | @inert d rest isInert behind ih =>
    cases text with
    | nil => exact .inl .nil
    | cons e text =>
      obtain ⟨rfl, rest⟩ := List.cons.inj shown
      exact NearlyBalanced.extend [e] (fun _ balanced => .inert isInert balanced) (ih rest)
  | @escaped d rest behind ih =>
    match text with
    | [] => simp at shown
    | [e] =>
      obtain ⟨rfl, _⟩ := List.cons.inj shown
      exact .inr ⟨[], rfl, .nil⟩
    | e :: f :: text =>
      obtain ⟨rfl, pair⟩ := List.cons.inj shown
      obtain ⟨rfl, rest⟩ := List.cons.inj pair
      exact NearlyBalanced.extend ['\\', f] (fun _ balanced => .escaped f balanced) (ih rest)
  | @quoted mark body value rest isMark reads behind ih =>
    have different : c ≠ mark := by
      rintro rfl
      exact notMark isMark
    have ends : text ++ [c] = mark :: body ++ [mark] ++ rest := by simpa using shown
    obtain ⟨between, split, rfl⟩ := split_last different ends
    exact NearlyBalanced.extend (mark :: body ++ [mark])
      (fun _ balanced => by simpa using Balanced.quoted isMark reads balanced) (ih split.symm)
  | @group inner rest within behind _ ih =>
    have ends : text ++ [c] = '(' :: inner ++ [')'] ++ rest := by simpa using shown
    obtain ⟨between, split, rfl⟩ := split_last notClose ends
    exact NearlyBalanced.extend ('(' :: inner ++ [')'])
      (fun _ balanced => by simpa using Balanced.group within balanced) (ih split.symm)

theorem nearlyBalanced_of_append {text behind : List Char}
    (white : ∀ c ∈ behind, Text.isWhiteSpace c = true) (balanced : Balanced (text ++ behind)) :
    NearlyBalanced text := by
  induction behind generalizing text with
  | nil =>
    rw [List.append_nil] at balanced
    exact .inl balanced
  | cons c behind ih =>
    have isWhite := white c List.mem_cons_self
    rw [← List.singleton_append, ← List.append_assoc] at balanced
    rcases ih (fun d member => white d (List.mem_cons_of_mem _ member)) balanced with
      balanced | ⟨front, shown, _⟩
    · exact nearlyBalanced_of_append_inert (inert_of_isWhiteSpace isWhite) balanced
    · obtain ⟨rfl, _⟩ := List.cons.inj (List.append_inj' shown rfl).2
      exact absurd isWhite (by decide)

theorem nearlyBalanced_trim {text : List Char} (balanced : Balanced text) :
    NearlyBalanced (Text.trim text) := by
  obtain ⟨before, behind, split, whiteBefore, whiteBehind⟩ := Text.trim_split text
  rw [split, List.append_assoc] at balanced
  have inert : ∀ c ∈ before, IsInert c := fun c member => inert_of_isWhiteSpace (whiteBefore c member)
  exact nearlyBalanced_of_append whiteBehind (balanced_of_inert_append inert balanced)

/-! ## Backslashes at the end -/

/-- Whether the text ends in a backslash that has nothing to escape. -/
def escapeDangles : List Char → Bool
  | [] => false
  | '\\' :: [] => true
  | '\\' :: _ :: rest => escapeDangles rest
  | _ :: rest => escapeDangles rest

theorem escapeDangles_cons_of_ne {c : Char} (notEscape : c ≠ '\\') (rest : List Char) :
    escapeDangles (c :: rest) = escapeDangles rest := by
  rw [escapeDangles.eq_def]
  split
  · next empty => cases empty
  · next single => exact absurd (List.cons.inj single).1 notEscape
  · next pair => exact absurd (List.cons.inj pair).1 notEscape
  · next shown =>
    obtain ⟨_, rfl⟩ := List.cons.inj shown
    rfl

theorem Grammar.StringText.escapeDangles_append {mark : Char} {text value : List Char}
    (body : StringText mark text value) (rest : List Char) :
    escapeDangles (text ++ rest) = escapeDangles rest := by
  induction body with
  | nil => rfl
  | plain _ notEscape _ ih => rw [List.cons_append, escapeDangles_cons_of_ne notEscape, ih]
  | escaped c _ ih => exact ih

/-- Every backslash of a balanced text has its character there, so only what comes behind counts. -/
theorem Grammar.Balanced.escapeDangles_append {text : List Char} (balanced : Balanced text)
    (rest : List Char) : escapeDangles (text ++ rest) = escapeDangles rest := by
  induction balanced generalizing rest with
  | nil => rfl
  | inert isInert _ ih =>
    obtain ⟨_, _, notEscape, _⟩ := isInert
    rw [List.cons_append, escapeDangles_cons_of_ne notEscape, ih]
  | escaped c _ ih => exact ih rest
  | @quoted mark text value behind isMark body _ ih =>
    have notEscape := Parser.ne_backslash_of_isMark isMark
    have split : mark :: text ++ mark :: behind ++ rest =
        mark :: (text ++ mark :: (behind ++ rest)) := by simp
    rw [split, escapeDangles_cons_of_ne notEscape, body.escapeDangles_append,
      escapeDangles_cons_of_ne notEscape, ih]
  | @group inner behind _ _ within ih =>
    have split : '(' :: inner ++ ')' :: behind ++ rest =
        '(' :: (inner ++ ')' :: (behind ++ rest)) := by simp
    rw [split, escapeDangles_cons_of_ne (by decide), within, escapeDangles_cons_of_ne (by decide), ih]

end CssSelect
