import CssSelect.Proofs.CommandLine.Runs
import CssSelect.Proofs.Document.Paths
import CssSelect.Proofs.Document.Printed

/-!
The lines that a run prints for its matches. Each match is described by its path, its tag, its
attributes and its own text, and there is a line feed behind each description. Nothing in a
description is escaped, so a match takes more than one line as soon as a line feed stands in one of
these texts; at the two ends of the own text it does not count, for it is trimmed there.
-/
namespace CssSelect

theorem feed_not_mem_toString (number : Nat) : '\n' ∉ (toString number).toList :=
  fun member => absurd (Tree.isDigit_of_mem_toString member) (by decide)

theorem Tree.feed_not_mem_writePlaces (places : List Nat) :
    '\n' ∉ (writePlaces places).toList := by
  induction places with
  | nil => decide
  | cons place places ih =>
    have number := feed_not_mem_toString place
    rw [writePlaces_cons, String.toList_append, String.toList_append, List.mem_append,
      List.mem_append, not_or, not_or]
    exact ⟨⟨by decide, number⟩, ih⟩

theorem Tree.feed_not_mem_path (tree : Tree) (id : NodeId) : '\n' ∉ (tree.path id).toList := by
  unfold path
  split
  · decide
  · exact feed_not_mem_writePlaces _

/-- A search finds elements only. -/
theorem Tree.WellLinked.isElement_of_select {tree : Tree} (linked : tree.WellLinked) {root : NodeId}
    {selectors : String} {node : NodeId} (run : tree.view.select root selectors = .ok (some node)) :
    tree.isElement node = true := by
  obtain ⟨list, read, _⟩ := View.exists_read_of_query run
  obtain ⟨nodes, visited, _, _, _, mem_iff⟩ := linked.exists_traversal root
  have agree := visited.searchesAgree read
  have member : node ∈ nodes := by
    rcases decided_or_first_error (tree.view.isMatch · selectors) nodes with
      decided | ⟨before, failing, after, error, rfl, decided, failed⟩
    · rw [(agree.decided decided).2, Except.ok.injEq] at run
      exact List.mem_of_mem_filter (List.mem_of_head? run)
    · rw [(agree.failed before failing after error rfl decided failed).2] at run
      split at run
      · next found isFound =>
        cases run
        exact List.mem_append_left _ (List.mem_of_find?_eq_some isFound)
      · cases run
  exact ((mem_iff node).mp member).isElement

namespace CommandLine

open Text (joinEnded)
open View (Preorder)

theorem feed_not_mem_paint_iff (style : Style) (text : String) :
    '\n' ∉ (style.paint text).toList ↔ '\n' ∉ text.toList := by
  have start := feed_not_mem_toString style.start
  have stop := feed_not_mem_toString style.stop
  rw [show style.paint text = "\x1b[" ++ toString style.start ++ "m" ++ text ++ "\x1b[" ++
    toString style.stop ++ "m" from rfl]
  simp only [String.toList_append, List.mem_append, not_or]
  constructor
  · rintro ⟨⟨⟨⟨_, inside⟩, _⟩, _⟩, _⟩
    exact inside
  · intro inside
    exact ⟨⟨⟨⟨⟨⟨by decide, start⟩, by decide⟩, inside⟩, by decide⟩, stop⟩, by decide⟩

/-- No line feed stands in what is described of a node, except at the ends of its text. -/
def DescribedOnOneLine (tree : Tree) (node : NodeId) : Prop :=
  ∀ element, tree.element? node = some element →
    '\n' ∉ element.tag.toList ∧ element.attributes.OnOneLine ∧
    ∀ content, tree.ownText? node = some content → '\n' ∉ (Text.trimString content).toList

theorem feed_not_mem_describeAttributes_iff (attributes : Attributes) :
    '\n' ∉ (describeAttributes attributes).toList ↔ attributes.OnOneLine := by
  rw [describeAttributes, Text.feed_not_mem_join_iff]
  refine forall₂_congr fun entry _ => ?_
  simp [feed_not_mem_paint_iff]

theorem describeText_some (text : String) :
    describeText (some text) =
      if Text.trimString text = "" then "" else " \"" ++ Text.trimString text ++ "\"" := by
  rw [describeText, Option.map_some]
  split
  · next blank => cases blank
  · next blank => rw [if_pos (Option.some.inj blank)]
  · next trimmed shown same =>
    cases same
    rw [if_neg shown]

theorem feed_not_mem_describeText_iff (content : Option String) :
    '\n' ∉ (describeText content).toList ↔
      ∀ text, content = some text → '\n' ∉ (Text.trimString text).toList := by
  cases content with
  | none => simp [describeText]
  | some text =>
    rw [describeText_some]
    split
    · next blank => simp [blank]
    · simp

theorem feed_not_mem_describe_iff (tree : Tree) (node : NodeId) :
    '\n' ∉ (describe tree node).toList ↔ DescribedOnOneLine tree node := by
  rw [describe, DescribedOnOneLine]
  cases found : tree.element? node with
  | none => simpa using tree.feed_not_mem_path node
  | some element =>
    simp only [Option.some.injEq, forall_eq']
    rw [← feed_not_mem_describeText_iff, ← feed_not_mem_describeAttributes_iff]
    simp [feed_not_mem_paint_iff, tree.feed_not_mem_path]

/-! ## Runs -/

variable {options : Options} {read : String → Except ReadError String} {tree : Tree}
  {selector : String}

/-- A run that ends with code 0 has loaded a document and queried it. -/
theorem exists_query_of_exit (succeeds : (runDocument options read).exit = 0) :
    ∃ source selector text tree, options.source = .ok (source, selector) ∧
      source.text read = .ok text ∧ Tree.load text = .ok tree ∧
      runDocument options read =
        runQuery options tree selector (if options.tree then treeListing tree else "") := by
  cases named : options.source with
  | error failed =>
    simp only [runDocument, named] at succeeds
    cases succeeds
  | ok pair =>
    obtain ⟨source, selector⟩ := pair
    cases content : source.text read with
    | error failed =>
      simp only [runDocument, named, content] at succeeds
      cases succeeds
    | ok text =>
      cases loaded : Tree.load text with
      | error error =>
        rw [runDocument_of_error named content loaded] at succeeds
        cases succeeds
      | ok tree =>
        exact ⟨source, selector, text, tree, rfl, content, loaded,
          runDocument_of_tree named content loaded⟩

/-- Nothing but descriptions is printed for matches, if there are any. -/
theorem runQuery_of_found {out : String} {node : NodeId} {others : List NodeId}
    (found : findMatches options tree selector = .ok (node :: others)) :
    runQuery options tree selector out =
      ⟨0, out ++ joinEnded ((node :: others).map (describe tree)),
        (WarningLog.empty.warnAbout selector).2⟩ := by
  simp only [runQuery, found, joinEnded, List.map_map]
  rfl

theorem exists_found_of_exit {out : String}
    (succeeds : (runQuery options tree selector out).exit = 0) :
    ∃ found, findMatches options tree selector = .ok found ∧ found ≠ [] ∧
      (runQuery options tree selector out).out = out ++ joinEnded (found.map (describe tree)) := by
  cases run : findMatches options tree selector with
  | error error =>
    simp only [runQuery, run] at succeeds
    cases succeeds
  | ok found =>
    cases found with
    | nil =>
      simp only [runQuery, run] at succeeds
      cases succeeds
    | cons node others =>
      exact ⟨_, rfl, List.cons_ne_nil node others, congrArg Report.out (runQuery_of_found run)⟩

/-- Matches are elements, also the one that `--first` leaves. -/
theorem isElement_of_mem_findMatches (linked : tree.WellLinked) {found : List NodeId}
    (run : findMatches options tree selector = .ok found) {node : NodeId} (member : node ∈ found) :
    tree.isElement node = true := by
  rw [findMatches] at run
  split at run
  · split at run
    · cases run
    · next first result =>
      cases run
      exact linked.isElement_of_select (result.trans (congrArg _ (Option.mem_toList.mp member)))
  · obtain ⟨list, parsed, _⟩ := View.exists_read_of_query run
    have result := (linked.searchesBelow parsed Tree.root).result found run
    exact ((result.2.2 node).mp member).1.isElement

theorem describe_of_isElement {node : NodeId} (element : tree.isElement node = true) :
    ∃ rest, describe tree node = Style.dimmed.paint (tree.path node) ++ rest := by
  obtain ⟨data, found⟩ := Option.isSome_iff_exists.mp element
  rw [describe, found]
  simp only [String.append_assoc]
  exact ⟨_, rfl⟩

/-- What a run prints for its matches. -/
structure MatchesPrinted (tree : Tree) (found : List NodeId) (out : String) : Prop where
  /-- One description after the other, in the order of the matches. -/
  text : out = joinEnded (found.map (describe tree))
  path_first : ∀ node ∈ found,
    ∃ rest, describe tree node = Style.dimmed.paint (tree.path node) ++ rest
  as_many_lines_iff : (Text.lines out.toList).length = found.length ↔
    ∀ node ∈ found, DescribedOnOneLine tree node
  lines : (∀ node ∈ found, DescribedOnOneLine tree node) →
    Text.lines out.toList = found.map fun node => (describe tree node).toList

/-- A run that succeeds without `--ast` and `--tree` prints what it has found, match by match. There
are as many lines as matches exactly if no match has a line feed in its tag, its attributes or its
trimmed text, and then each line is the description of a match. -/
theorem matches_by_lines {arguments : List String} {read : String → Except ReadError String}
    {options : Options} (asked : Request.parse arguments = .ok (.run options))
    (noAst : options.ast = false) (noTree : options.tree = false)
    (succeeds : (run arguments read).exit = 0) :
    ∃ source selector text tree found, options.source = .ok (source, selector) ∧
      source.text read = .ok text ∧ Tree.load text = .ok tree ∧
      findMatches options tree selector = .ok found ∧ found ≠ [] ∧
      MatchesPrinted tree found (run arguments read).out := by
  have searches : run arguments read = runDocument options read := by
    simp [run, asked, runOptions, noAst]
  rw [searches] at succeeds ⊢
  obtain ⟨source, selector, text, tree, named, content, loaded, queries⟩ :=
    exists_query_of_exit succeeds
  rw [queries, noTree] at succeeds ⊢
  obtain ⟨found, result, nonempty, printed⟩ := exists_found_of_exit succeeds
  have linked := (Tree.wellBuilt_of_load loaded).wellLinked
  refine ⟨source, selector, text, tree, found, named, content, loaded, result, nonempty, ?_⟩
  rw [printed, if_neg Bool.false_ne_true, String.empty_append]
  obtain ⟨asMany, lines⟩ :=
    Text.joinEnded_by_lines fun node (_ : node ∈ found) => feed_not_mem_describe_iff tree node
  refine ⟨rfl, fun node member => ?_, asMany, lines⟩
  exact describe_of_isElement (isElement_of_mem_findMatches linked result member)

/-- Two elements are found, the one inside of the other. -/
theorem findMatches_around :
    findMatches (.inline Tree.aroundText "a, b") Tree.around "a, b" = .ok [1, 3] := by
  have parsed : SelectorList.parse "a, b" =
      .ok ⟨[⟨⟨some (.tag "a"), []⟩, []⟩, ⟨⟨some (.tag "b"), []⟩, []⟩]⟩ := by decide +kernel
  have outer : Tree.around.view.isMatch 1 "a, b" = .ok true := by decide +kernel
  have inner : Tree.around.view.isMatch 3 "a, b" = .ok true := by decide +kernel
  have all := ((Tree.traversal_around.searchesAgree parsed).decided (by simp [outer, inner])).1
  rw [findMatches, if_neg (by decide), all]
  simp [outer, inner]

/-- The two lines that are printed for them. -/
def aroundLines : List String :=
  ["\x1b[2m/0\x1b[0m <\x1b[1ma\x1b[0m>\x1b[33m \"x\"\x1b[39m",
    "\x1b[2m/0/1\x1b[0m <\x1b[1mb\x1b[0m>\x1b[33m\x1b[39m"]

theorem matches_by_lines_around :
    (Request.parse (inlineArguments [] [] Tree.aroundText "a, b") =
        .ok (.run (.inline Tree.aroundText "a, b")) ∧
      (run (inlineArguments [] [] Tree.aroundText "a, b") readAround).exit = 0) ∧
      MatchesPrinted Tree.around [1, 3] (joinEnded aroundLines) ∧
      Text.lines (joinEnded aroundLines).toList = aroundLines.map String.toList := by
  have given : "a, b" ≠ "" := by decide
  have described : [1, 3].map (describe Tree.around) = aroundLines := by decide +kernel
  have printed : run (inlineArguments [] [] Tree.aroundText "a, b") readAround =
      ⟨0, joinEnded aroundLines, (WarningLog.empty.warnAbout "a, b").2⟩ := by
    rw [run_inline given, runDocument_of_tree rfl rfl Tree.load_around,
      runQuery_of_found findMatches_around, described]
    rfl
  have succeeds : (run (inlineArguments [] [] Tree.aroundText "a, b") readAround).exit = 0 := by
    rw [printed]
  obtain ⟨source, selector, text, tree, found, named, content, loaded, result, _, as⟩ :=
    matches_by_lines (parse_inline given) rfl rfl succeeds
  obtain ⟨rfl, rfl⟩ := Prod.mk.inj (Except.ok.inj named)
  obtain rfl := Except.ok.inj content
  obtain rfl := Except.ok.inj (Tree.load_around.symm.trans loaded)
  obtain rfl := Except.ok.inj (findMatches_around.symm.trans result)
  rw [printed] at as
  refine ⟨⟨parse_inline given, succeeds⟩, as, ?_⟩
  have oneLine : ∀ node ∈ [1, 3], DescribedOnOneLine Tree.around node := by
    simp only [← feed_not_mem_describe_iff]
    decide +kernel
  rw [as.lines oneLine, ← described, List.map_map]
  rfl

/-- A document with one element, whose text has two lines. -/
def twoLineDocument : String :=
  "\x7b\"tag\": \"p\", \"children\": [\"a\\nb\"]\x7d"

/-- Its tree. -/
def twoLineTree : Tree :=
  ((Tree.empty.append Tree.root (.element ⟨"p", .empty⟩)).2.append 1 (.text "a\nb")).2

/-- One element is found, and two lines are printed. -/
theorem matches_twoLineDocument :
    Tree.load twoLineDocument = .ok twoLineTree ∧
      findMatches (.inline twoLineDocument "p") twoLineTree "p" = .ok [1] ∧
      (run (inlineArguments [] [] twoLineDocument "p") readAround).exit = 0 ∧
      Text.lines (run (inlineArguments [] [] twoLineDocument "p") readAround).out.toList =
        ["\x1b[2m/0\x1b[0m <\x1b[1mp\x1b[0m>\x1b[33m \"a".toList, "b\"\x1b[39m".toList] := by
  have content : Json.read twoLineDocument.toList = .ok (.object [("tag", .string "p"),
      ("children", .array [.string "a\nb"])], []) := by
    with_unfolding_all rfl
  have loaded : Tree.load twoLineDocument = .ok twoLineTree := by
    rw [Tree.load, content]
    rfl
  have leaf : Preorder twoLineTree.view (twoLineTree.view.children 1) [] := .nil
  have all : Preorder twoLineTree.view (twoLineTree.view.children Tree.root) (1 :: ([] ++ [])) :=
    .cons rfl leaf .nil
  have parsed : SelectorList.parse "p" = .ok ⟨[⟨⟨some (.tag "p"), []⟩, []⟩]⟩ := by decide +kernel
  have matched : twoLineTree.view.isMatch 1 "p" = .ok true := by decide +kernel
  have found : findMatches (.inline twoLineDocument "p") twoLineTree "p" = .ok [1] := by
    have agree := (View.traversal_iff.mpr ⟨rfl, all⟩).searchesAgree parsed
    rw [findMatches, if_neg (by decide), (agree.decided (by simp [matched])).1]
    simp [matched]
  have described : [1].map (describe twoLineTree) =
      ["\x1b[2m/0\x1b[0m <\x1b[1mp\x1b[0m>\x1b[33m \"a\nb\"\x1b[39m"] := by decide +kernel
  refine ⟨loaded, found, ?_⟩
  rw [run_inline (by decide), runDocument_of_tree rfl rfl loaded, runQuery_of_found found,
    described]
  exact ⟨rfl, by decide +kernel⟩

end CommandLine

end CssSelect
