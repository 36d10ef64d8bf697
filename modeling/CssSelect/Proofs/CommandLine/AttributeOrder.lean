import CssSelect.Proofs.CommandLine.Runs
import CssSelect.Proofs.Document.BlankTags
import CssSelect.Proofs.Document.Settings

/-!
The order of attributes does not show. It does not matter in which order the attributes of an
element are set, nor which values are replaced by later ones, and it does not matter either in which
order a map lists them that keeps none.
-/
namespace CssSelect

open Outline (Describes Rearranged)

namespace CommandLine

variable {text otherText : String} {read otherRead : String → Except ReadError String}

/-- What a run reports on a document that has been loaded. -/
def reportOn (options : Options) (tree : Tree) (selector : String) : Report :=
  runQuery options tree selector (if options.tree then treeListing tree else "")

/-- Runs on texts that are loaded alike are alike. Of the options they need to share only the
selector and the flags. -/
theorem runDocument_congr (same : Tree.load text = Tree.load otherText) {options other : Options}
    {source otherSource : Source} {selector : String}
    (named : options.source = .ok (source, selector)) (content : source.text read = .ok text)
    (otherNamed : other.source = .ok (otherSource, selector))
    (otherContent : otherSource.text otherRead = .ok otherText)
    (first : options.first = other.first) (tree : options.tree = other.tree) :
    runDocument options read = runDocument other otherRead := by
  cases loaded : Tree.load otherText with
  | error error =>
    rw [runDocument_of_error named content (same.trans loaded),
      runDocument_of_error otherNamed otherContent loaded]
  | ok found =>
    rw [runDocument_of_tree named content (same.trans loaded),
      runDocument_of_tree otherNamed otherContent loaded, tree]
    simp only [runQuery, findMatches, first]

/-- It makes no difference to any run which of the two texts it has, be it from a file or from its
arguments. -/
structure RunAlike (text otherText : String) : Prop where
  file : ∀ arguments path read otherRead, fileToRead? arguments = some path →
    read path = .ok text → otherRead path = .ok otherText →
    run arguments read = run arguments otherRead
  inline : ∀ arguments otherArguments (options : Options) read,
    Request.parse arguments = .ok (.run { options with json := some text }) →
    Request.parse otherArguments = .ok (.run { options with json := some otherText }) →
    run arguments read = run otherArguments read

theorem runAlike_of_load_eq (same : Tree.load text = Tree.load otherText) :
    RunAlike text otherText where
  file arguments path read otherRead reads content otherContent := by
    rw [fileToRead?] at reads
    rw [run, run]
    split at reads
    · next options asked =>
      split at reads
      · cases reads
      · next noAst =>
        split at reads
        · next selector named =>
          cases reads
          simp only [asked, runOptions, noAst]
          refine runDocument_congr same named ?_ named ?_ rfl rfl
          · simp only [Source.text, content]
          · simp only [Source.text, otherContent]
        · cases reads
    · cases reads
  inline arguments otherArguments options read asked otherAsked := by
    obtain ⟨path, selector, json, first, ast, tree⟩ := options
    simp only [run, asked, otherAsked, runOptions]
    cases ast with
    | true => rfl
    | false =>
      rw [if_neg Bool.false_ne_true, if_neg Bool.false_ne_true]
      cases path with
      | none => cases selector <;> rfl
      | some path =>
        cases selector with
        | none =>
          exact runDocument_congr same rfl rfl rfl rfl rfl rfl
        | some selector => rfl

end CommandLine

open CommandLine

/-- Two trees are the same to those who search them and to those who print them, in whichever order
they have the attributes of an element listed. -/
structure Tree.LookAlike (tree other : Tree) : Prop where
  searched : ∀ root selectors,
    tree.view.selectAll root selectors = other.view.selectAll root selectors
  printed : ∀ listing otherListing, tree.ListedBy listing → other.ListedBy otherListing →
    ∀ id indent,
      (tree.relist listing).print? id indent = (other.relist otherListing).print? id indent
  reported : ∀ listing otherListing, tree.ListedBy listing → other.ListedBy otherListing →
    ∀ options selector, reportOn options (tree.relist listing) selector =
      reportOn options (other.relist otherListing) selector

theorem Tree.LookAlike.refl (tree : Tree) : tree.LookAlike tree where
  searched _ _ := rfl
  printed listing otherListing listed otherListed id indent := by
    rw [relist_eq listed, relist_eq otherListed]
  reported listing otherListing listed otherListed options selector := by
    rw [relist_eq listed, relist_eq otherListed]

/-- Two documents that agree in the last values of their attributes are loaded alike, or refused
alike, the trees are the same in all that is found and printed, and so are the reports of all runs
on the two. Two sequences of calls that agree in them build such trees too, or neither does. -/
theorem attributeOrder_hidden :
    (∀ document other, Rearranged document other → ∀ text otherText, Describes text document →
      Describes otherText other →
        (∀ error, Tree.load text = .error error ↔ Tree.load otherText = .error error) ∧
        (∀ tree, Tree.load text = .ok tree →
          ∃ otherTree, Tree.load otherText = .ok otherTree ∧ tree.LookAlike otherTree) ∧
        RunAlike text otherText) ∧
    ∀ start calls others, List.Forall₂ Call.Rearranged calls others →
      (Tree.build? start calls = none ↔ start.build? others = none) ∧
      ∀ tree, start.build? calls = some tree →
        ∃ otherTree, start.build? others = some otherTree ∧ tree.LookAlike otherTree := by
  constructor
  · intro document other rearranged text otherText described otherDescribed
    have same : Tree.load text = Tree.load otherText := by
      rw [Tree.load_of_describes described, Tree.load_of_describes otherDescribed,
        Tree.ofOutlines_rearranged rearranged]
    refine ⟨fun error => by rw [same], fun tree loaded => ?_, runAlike_of_load_eq same⟩
    exact ⟨tree, same.symm.trans loaded, .refl tree⟩
  · intro start calls others rearranged
    have same : start.build? calls = start.build? others := Tree.build?_rearranged rearranged start
    refine ⟨by rw [same], fun tree built => ?_⟩
    exact ⟨tree, same.symm.trans built, .refl tree⟩

/-! ## Two documents with the same attributes -/

/-- An element is given an id, a class and another id. -/
def settings : List (String × String) :=
  [("id", "x"), ("class", "a"), ("id", "y")]

/-- It is given the second id at once, and the class after it. -/
def otherSettings : List (String × String) :=
  [("id", "y"), ("class", "a")]

theorem sameLastValues_settings : SameLastValues settings otherSettings := by
  intro name
  simp only [settings, otherSettings, List.reverse_cons, List.reverse_nil, List.nil_append,
    List.cons_append, lookup_entry_cons]
  by_cases isId : name = "id"
  · simp [isId]
  · simp [isId]

/-- The texts of the two documents. -/
def settingsText : String :=
  "\x7b\"tag\": \"p\", \"attrs\": \x7b\"id\": \"x\", \"class\": \"a\", \"id\": \"y\"\x7d\x7d"

def otherSettingsText : String :=
  "\x7b\"tag\": \"p\", \"attrs\": \x7b\"id\": \"y\", \"class\": \"a\"\x7d\x7d"

theorem describes_settingsText : Describes settingsText [.element "p" settings []] := by
  refine ⟨.object [("tag", .string "p"), ("attrs", .object [("id", .string "x"),
    ("class", .string "a"), ("id", .string "y")])], [], ?_, rfl, rfl⟩
  with_unfolding_all rfl

theorem describes_otherSettingsText :
    Describes otherSettingsText [.element "p" otherSettings []] := by
  refine ⟨.object [("tag", .string "p"), ("attrs", .object [("id", .string "y"),
    ("class", .string "a")])], [], ?_, rfl, rfl⟩
  with_unfolding_all rfl

/-- The tree of both. -/
def settingsTree : Tree :=
  (Tree.empty.append Tree.root (.element ⟨"p", .ofList settings⟩)).2

/-- The attributes that are left, as they are listed in no order of their own. -/
def settingsListing : Listing :=
  ⟨otherSettings, by decide⟩

theorem attributeOrder_hidden_settings :
    (Rearranged [.element "p" settings []] [.element "p" otherSettings []] ∧
      List.Forall₂ Call.Rearranged [.append Tree.root (.element "p" settings)]
        [.append Tree.root (.element "p" otherSettings)]) ∧
      run (inlineArguments [] [] settingsText ".a") readAround =
        run (inlineArguments [] [] otherSettingsText ".a") readAround ∧
      (∃ otherTree, Tree.load otherSettingsText = .ok otherTree ∧
        settingsTree.LookAlike otherTree) ∧
      (∃ otherTree, Tree.empty.build? [.append Tree.root (.element "p" otherSettings)] =
        some otherTree ∧ settingsTree.LookAlike otherTree) ∧
      settingsTree.ListedBy (fun _ => settingsListing) ∧
      (settingsTree.relist fun _ => settingsListing).print? 1 0 =
        some "<p class=\"a\" id=\"y\">\n" := by
  have rearranged : Rearranged [.element "p" settings []] [.element "p" otherSettings []] :=
    .element "p" sameLastValues_settings .nil .nil
  have calls : List.Forall₂ Call.Rearranged [.append Tree.root (.element "p" settings)]
      [.append Tree.root (.element "p" otherSettings)] :=
    .cons (.append _ (.element "p" sameLastValues_settings)) .nil
  obtain ⟨documents, sequences⟩ := attributeOrder_hidden
  obtain ⟨_, trees, runs⟩ :=
    documents _ _ rearranged _ _ describes_settingsText describes_otherSettingsText
  have loaded : Tree.load settingsText = .ok settingsTree := by
    rw [Tree.load_of_describes describes_settingsText]
    rfl
  have listed : settingsTree.ListedBy fun _ => settingsListing := by
    rintro (_ | _ | id) element shown
    · cases shown
    · cases shown
      exact Listing.of_iff_perm.mpr (by decide)
    · cases shown
  refine ⟨⟨rearranged, calls⟩, ?_, trees _ loaded, (sequences Tree.empty _ _ calls).2 _ rfl,
    listed, ?_⟩
  · have given : ".a" ≠ "" := by decide
    exact runs.inline _ _ (.inline settingsText ".a") _ (parse_inline given) (parse_inline given)
  · rw [Tree.relist_eq listed]
    decide +kernel

end CssSelect
