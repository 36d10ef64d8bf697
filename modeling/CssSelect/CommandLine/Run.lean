import CssSelect.CommandLine.Folder
import CssSelect.CommandLine.Options
import CssSelect.CommandLine.Style
import CssSelect.Document.Loader
import CssSelect.Document.Printer
import CssSelect.Document.View
import CssSelect.Json.Printer
import CssSelect.Query
import CssSelect.Selector.TreeForm
import CssSelect.Warning

/-!
A run of the command line tool: from arguments and a way to read files to what is
printed and the exit code. With `--ast` the selector's tree is printed. Otherwise
a document is loaded, printed if `--tree` asks for it, and queried; every match
is described on a line of its own. A run without a match ends with code 1.
-/
namespace CssSelect.CommandLine

/-- What a run prints, and its exit code. -/
structure Report where
  exit : Nat
  out : String
  err : String
  deriving DecidableEq, Repr

/-- What ends a run early: a message and the causes behind it, the nearest first. -/
structure Failed where
  message : String
  causes : List String
  deriving DecidableEq, Repr

namespace Failed

/-- Causes with their numbers. -/
def numbered (number : Nat) : List String → String
  | [] => ""
  | cause :: causes => s!"\n    {number}: {cause}" ++ numbered (number + 1) causes

/-- The failure as it is printed. A single cause has no number. -/
def write (failed : Failed) : String :=
  s!"Error: {failed.message}" ++
    (match failed.causes with
    | [] => ""
    | [cause] => s!"\n\nCaused by:\n    {cause}"
    | causes => "\n\nCaused by:" ++ numbered 0 causes) ++ "\n"

/-- A failure without causes. -/
def plain (message : String) : Failed :=
  ⟨message, []⟩

/-- The report of a run that failed after it had printed something. -/
def report (failed : Failed) (out err : String) : Report :=
  ⟨1, out, err ++ failed.write⟩

end Failed

/-- Where the document comes from. -/
inductive Source where
  | inline (text : String)
  | file (path : String)
  deriving DecidableEq, Repr

namespace Options

/-- The document and the selector that the options name. With `--json` the first
positional argument is the selector. -/
def source (options : Options) : Except Failed (Source × String) :=
  match options.json, options.path, options.selector with
  | some text, some selector, .none => .ok (.inline text, selector)
  | some _, some _, some _ => .error (.plain "pass either FILE or --json, not both")
  | .none, some path, some selector => .ok (.file path, selector)
  | _, _, _ => .error (.plain "usage: sift <FILE|--json JSON> <SELECTOR>")

/-- The selector whose tree is to be printed: the last positional argument. -/
def astSelector (options : Options) : Except Failed String :=
  match options.selector, options.path with
  | some selector, _ => .ok selector
  | .none, some selector => .ok selector
  | .none, .none => .error (.plain "--ast requires a selector")

end Options

/-- Prints the tree of a selector. -/
def runAst (options : Options) : Report :=
  match options.astSelector with
  | .error failed => failed.report "" ""
  | .ok selector =>
    let warnings := (WarningLog.empty.warnAbout selector).2
    match SelectorList.parse selector with
    | .error error => (Failed.plain error.message).report "" warnings
    | .ok list => ⟨0, list.toJson.pretty ++ "\n", warnings⟩

/-- The text of a document, once its file is read. -/
def Source.text (read : String → Except ReadError String) : Source → Except Failed String
  | .inline text => .ok text
  | .file path =>
    match read path with
    | .ok text => .ok text
    | .error error => .error ⟨s!"reading document '{path}'", [error.message]⟩

/-- The failure for a text that is no document. -/
def Failed.loading (error : LoadError) : Failed :=
  ⟨"loading document", error.message :: error.source?.toList⟩

/-- The attributes of a described element. -/
def describeAttributes (attributes : Attributes) : String :=
  String.join (attributes.entries.map fun (name, value) =>
    " " ++ Style.cyan.paint name ++ "=\"" ++ Style.green.paint value ++ "\"")

/-- The text of a described element between quotation marks, unless it is blank. -/
def describeText (content : Option String) : String :=
  match content.map Text.trimString with
  | none | some "" => ""
  | some text => " \"" ++ text ++ "\""

/-- A node on one line: path, tag, attributes and own text. -/
def describe (tree : Tree) (node : NodeId) : String :=
  match tree.element? node with
  | none => tree.path node
  | some element =>
    Style.dimmed.paint (tree.path node) ++ " <" ++ Style.bold.paint element.tag ++
      describeAttributes element.attributes ++ ">" ++
      Style.yellow.paint (describeText (tree.ownText? node))

/-- The matches that a run prints: all of them, or the first. -/
def findMatches (options : Options) (tree : Tree) (selector : String) :
    Except QueryError (List NodeId) :=
  if options.first then
    match tree.view.select Tree.root selector with
    | .error error => .error error
    | .ok found => .ok found.toList
  else tree.view.selectAll Tree.root selector

/-- Queries a loaded document; `out` has been printed already. -/
def runQuery (options : Options) (tree : Tree) (selector out : String) : Report :=
  let warnings := (WarningLog.empty.warnAbout selector).2
  match findMatches options tree selector with
  | .error error => (Failed.plain error.message).report out warnings
  | .ok [] => ⟨1, out, warnings ++ Style.dimmed.paint s!"no match for '{selector}'" ++ "\n"⟩
  | .ok found => ⟨0, out ++ String.join (found.map fun node => describe tree node ++ "\n"), warnings⟩

/-- What `--tree` prints. -/
def treeListing (tree : Tree) : String :=
  Style.bold.paint "=== Document ===" ++ "\n" ++ tree.print Tree.root 0 ++ "\n"

/-- Loads and queries a document. -/
def runDocument (options : Options) (read : String → Except ReadError String) : Report :=
  match options.source with
  | .error failed => failed.report "" ""
  | .ok (source, selector) =>
    match source.text read with
    | .error failed => failed.report "" ""
    | .ok text =>
      match Tree.load text with
      | .error error => (Failed.loading error).report "" ""
      | .ok tree => runQuery options tree selector (if options.tree then treeListing tree else "")

/-- A run with the given options. -/
def runOptions (options : Options) (read : String → Except ReadError String) : Report :=
  if options.ast then runAst options else runDocument options read

/-- The line that `--version` prints. -/
def versionLine : String :=
  "sift 0.1.0\n"

/-- What `--help` prints. -/
def helpText : String :=
  "Sift - query JSON documents with CSS selectors\n\nUsage: sift [OPTIONS] [FILE] [SELECTOR]\n"

/-- A run with the given arguments. -/
def run (arguments : List String) (read : String → Except ReadError String) : Report :=
  match Request.parse arguments with
  | .error error => ⟨2, "", s!"error: {error.message}\n"⟩
  | .ok .version => ⟨0, versionLine, ""⟩
  | .ok .help => ⟨0, helpText, ""⟩
  | .ok (.run options) => runOptions options read

/-- The file that a run with the given arguments reads, if any. -/
def fileToRead? (arguments : List String) : Option String :=
  match Request.parse arguments with
  | .ok (.run options) =>
    if options.ast then none
    else
      match options.source with
      | .ok (.file path, _) => some path
      | _ => none
  | _ => none

end CssSelect.CommandLine
