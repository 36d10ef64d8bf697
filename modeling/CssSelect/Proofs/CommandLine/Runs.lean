import CssSelect.CommandLine.Run
import CssSelect.Proofs.Query.Agreement

/-!
How the runs of the command line tool go together. Arguments end up in options, and a run with
options loads one text and searches it once, so where the text came from is forgotten and a flag
changes what it is there for. The search for one match ends before nodes that the search for all
of them still comes to; there it can be spared a column combinator, and nothing else.
-/
namespace CssSelect

namespace CommandLine

/-! ## Arguments -/

/-- Arguments with a document text, with flags before and behind it, and a selector at the end. -/
def inlineArguments (before behind : List String) (document selector : String) : List String :=
  before ++ ("--json=" ++ document) :: (behind ++ ["--", selector])

variable {document selector : String} {options : Options} {others : List String}

theorem classify_json (document : String) :
    Argument.classify ("--json=" ++ document) = .long "json" (some document) := by
  rw [Argument.classify, String.toList_append]
  simp [Argument.splitValue]

theorem ofArguments_json (unset : options.json = none) :
    Request.ofArguments options (("--json=" ++ document) :: others) =
      Request.ofArguments { options with json := some document } others := by
  rw [Request.ofArguments.eq_def]
  simp only [classify_json, Options.setJson, unset]

theorem ofArguments_selector (given : selector ≠ "") (free : options.path = none) :
    Request.ofArguments options ["--", selector] = .ok (.run { options with path := some selector }) := by
  have sorted : Argument.classify "--" = .separator := by decide
  rw [Request.ofArguments.eq_def]
  simp [sorted, Options.addPositionals, Options.addPositional, free, given, Except.map]

/-! ## Runs -/

variable {read : String → Except ReadError String} {before behind : List String}

/-- What is asked for by a document text and a selector alone. -/
def Options.inline (document selector : String) : Options :=
  { Options.none with path := some selector, json := some document }

theorem parse_inline (given : selector ≠ "") :
    Request.parse (inlineArguments [] [] document selector) =
      .ok (.run (.inline document selector)) := by
  rw [Request.parse, inlineArguments, List.nil_append, List.nil_append, ofArguments_json rfl,
    ofArguments_selector given rfl]
  rfl

theorem run_inline (given : selector ≠ "") :
    run (inlineArguments [] [] document selector) read =
      runDocument (.inline document selector) read := by
  rw [run, parse_inline given]
  rfl

section Document

variable {source : Source} (named : options.source = .ok (source, selector))
  (text : source.text read = .ok document)

include named text

/-- The run sees of the document's source only the text. -/
theorem runDocument_of_error {error : LoadError} (unloadable : Tree.load document = .error error) :
    runDocument options read = (Failed.loading error).report "" "" := by
  simp only [runDocument, named, text, unloadable]

theorem runDocument_of_tree {tree : Tree} (loaded : Tree.load document = .ok tree) :
    runDocument options read =
      runQuery options tree selector (if options.tree then treeListing tree else "") := by
  simp only [runDocument, named, text, loaded]

end Document

/-- Whatever file is read, the document is the one with two elements. -/
def readAround (_ : String) : Except ReadError String :=
  .ok Tree.aroundText

end CommandLine

end CssSelect
