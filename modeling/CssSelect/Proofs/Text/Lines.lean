/-!
The lines of a text. Texts that are written one after the other, each with a line feed behind it,
have as many lines as there are texts exactly if no line feed stands inside of one of them, and then
the lines are these texts.
-/
namespace CssSelect.Text

theorem feed_not_mem_join_iff {α : Type} {write : α → String} {items : List α} :
    '\n' ∉ (String.join (items.map write)).toList ↔ ∀ item ∈ items, '\n' ∉ (write item).toList := by
  rw [String.toList_join, List.flatMap_map, List.mem_flatMap, not_exists]
  exact forall_congr' fun item => not_and

/-- A text has the line feeds of a name that stands between two parts without any. -/
theorem count_feed_between {before behind : String} (inFront : '\n' ∉ before.toList)
    (after : '\n' ∉ behind.toList) (name : String) :
    (before ++ name ++ behind).toList.count '\n' = name.toList.count '\n' := by
  rw [String.toList_append, String.toList_append, List.count_append, List.count_append,
    List.count_eq_zero_of_not_mem inFront, List.count_eq_zero_of_not_mem after, Nat.zero_add,
    Nat.add_zero]

/-- The lines of a text. A line feed ends a line; behind the last one a line may stand that is not
ended. -/
def lines : List Char → List (List Char)
  | [] => []
  | c :: rest =>
    if c = '\n' then [] :: lines rest
    else
      match lines rest with
      | [] => [[c]]
      | line :: others => (c :: line) :: others

theorem lines_cons_of_ne {c : Char} (inside : c ≠ '\n') (line rest : List Char)
    (others : List (List Char)) (split : lines rest = line :: others) :
    lines (c :: rest) = (c :: line) :: others := by
  rw [lines, if_neg inside, split]

/-- What stands behind a line feed has no part in the lines before it. -/
theorem lines_append_feed (before rest : List Char) :
    ∃ line others, lines (before ++ ['\n']) = line :: others ∧
      lines (before ++ '\n' :: rest) = line :: (others ++ lines rest) := by
  induction before with
  | nil => exact ⟨[], [], rfl, rfl⟩
  | cons c before ih =>
    obtain ⟨line, others, alone, joined⟩ := ih
    by_cases feed : c = '\n'
    · refine ⟨[], line :: others, ?_, ?_⟩
      · rw [List.cons_append, lines, if_pos feed, alone]
      · rw [List.cons_append, lines, if_pos feed, joined]
        rfl
    · exact ⟨c :: line, others, lines_cons_of_ne feed line _ others alone,
        lines_cons_of_ne feed line _ _ joined⟩

theorem length_lines_ended (block : List Char) :
    (lines (block ++ ['\n'])).length = block.count '\n' + 1 := by
  induction block with
  | nil => rfl
  | cons c block ih =>
    obtain ⟨line, others, alone, _⟩ := lines_append_feed block []
    by_cases feed : c = '\n'
    · rw [List.cons_append, lines, if_pos feed, List.length_cons, ih, feed, List.count_cons_self]
    · rw [List.cons_append, lines_cons_of_ne feed line _ others alone,
        List.count_cons_of_ne feed, ← ih, alone]
      rfl

theorem lines_ended_of_not_mem {block : List Char} (noFeed : '\n' ∉ block) :
    lines (block ++ ['\n']) = [block] := by
  induction block with
  | nil => rfl
  | cons c block ih =>
    rw [List.mem_cons, not_or] at noFeed
    exact lines_cons_of_ne (Ne.symm noFeed.1) block _ [] (ih noFeed.2)

theorem lines_blocks (blocks : List (List Char)) :
    lines (blocks.flatMap (· ++ ['\n'])) = blocks.flatMap fun block => lines (block ++ ['\n']) := by
  induction blocks with
  | nil => rfl
  | cons block blocks ih =>
    obtain ⟨line, others, alone, joined⟩ := lines_append_feed block (blocks.flatMap (· ++ ['\n']))
    rw [List.flatMap_cons, List.append_assoc, List.singleton_append, joined, ih, List.flatMap_cons,
      alone, List.cons_append]

/-! ## Texts with a line feed behind each -/

/-- Texts one after the other, with a line feed behind each of them. -/
def joinEnded (texts : List String) : String :=
  String.join (texts.map (· ++ "\n"))

theorem joinEnded_cons (text : String) (texts : List String) :
    joinEnded (text :: texts) = text ++ "\n" ++ joinEnded texts := by
  rw [joinEnded, List.map_cons, String.join_cons]
  rfl

theorem joinEnded_append (texts others : List String) :
    joinEnded (texts ++ others) = joinEnded texts ++ joinEnded others := by
  simp [joinEnded]

theorem lines_joinEnded (texts : List String) :
    lines (joinEnded texts).toList = texts.flatMap fun text => lines (text.toList ++ ['\n']) := by
  have blocks : (joinEnded texts).toList = (texts.map String.toList).flatMap (· ++ ['\n']) := by
    simp [joinEnded, String.toList_join, List.flatMap_map]
  rw [blocks, lines_blocks, List.flatMap_map]

/-- How many line feeds the texts have in them. -/
def feeds : List String → Nat
  | [] => 0
  | text :: texts => text.toList.count '\n' + feeds texts

theorem feeds_eq_zero_iff {texts : List String} :
    feeds texts = 0 ↔ ∀ text ∈ texts, '\n' ∉ text.toList := by
  induction texts with
  | nil => simp [feeds]
  | cons text texts ih =>
    rw [feeds, Nat.add_eq_zero_iff, List.count_eq_zero, ih, List.forall_mem_cons]

/-- There is one line for each text, and one more for each line feed in a text. -/
theorem length_lines_joinEnded (texts : List String) :
    (lines (joinEnded texts).toList).length = texts.length + feeds texts := by
  rw [lines_joinEnded]
  induction texts with
  | nil => rfl
  | cons text texts ih =>
    rw [List.flatMap_cons, List.length_append, length_lines_ended, ih, List.length_cons, feeds]
    omega

theorem length_lines_joinEnded_eq_iff {texts : List String} :
    (lines (joinEnded texts).toList).length = texts.length ↔
      ∀ text ∈ texts, '\n' ∉ text.toList := by
  rw [length_lines_joinEnded, Nat.add_eq_left, feeds_eq_zero_iff]

theorem lines_joinEnded_of_not_mem {texts : List String}
    (noFeed : ∀ text ∈ texts, '\n' ∉ text.toList) :
    lines (joinEnded texts).toList = texts.map String.toList := by
  rw [lines_joinEnded]
  induction texts with
  | nil => rfl
  | cons text texts ih =>
    obtain ⟨first, later⟩ := List.forall_mem_cons.mp noFeed
    rw [List.flatMap_cons, lines_ended_of_not_mem first, ih later]
    rfl

/-- Items that are written one after the other take a line each exactly if each stays on its line,
and then the lines are the items as they are written. -/
theorem joinEnded_by_lines {α : Type} {write : α → String} {items : List α} {OneLine : α → Prop}
    (oneLine_iff : ∀ item ∈ items, '\n' ∉ (write item).toList ↔ OneLine item) :
    ((lines (joinEnded (items.map write)).toList).length = items.length ↔
        ∀ item ∈ items, OneLine item) ∧
      ((∀ item ∈ items, OneLine item) → lines (joinEnded (items.map write)).toList =
        items.map fun item => (write item).toList) := by
  have noFeed : (∀ text ∈ items.map write, '\n' ∉ text.toList) ↔ ∀ item ∈ items, OneLine item := by
    rw [List.forall_mem_map]
    exact forall₂_congr oneLine_iff
  constructor
  · rw [← noFeed, ← length_lines_joinEnded_eq_iff, List.length_map]
  · intro oneLine
    rw [lines_joinEnded_of_not_mem (noFeed.mpr oneLine), List.map_map]
    rfl

end CssSelect.Text
