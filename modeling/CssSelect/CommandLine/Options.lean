/-!
Command line arguments. Options may stand before and after the two positional
arguments, an argument `--` makes all behind it positional, and arguments are
read from left to right, so the first wrong one is reported.
-/
namespace CssSelect.CommandLine

/-- What the arguments ask for. -/
structure Options where
  path : Option String
  selector : Option String
  json : Option String
  first : Bool
  ast : Bool
  tree : Bool
  deriving DecidableEq, Repr

namespace Options

/-- Nothing is asked for. -/
def none : Options :=
  ⟨.none, .none, .none, false, false, false⟩

end Options

/-- Why arguments cannot be read. -/
inductive ArgumentError where
  | unexpected (argument : String)
  | repeated (option : String)
  | valueMissing (option : String)
  deriving DecidableEq, Repr

namespace ArgumentError

/-- The cause in words. -/
def message : ArgumentError → String
  | unexpected argument => s!"unexpected argument '{argument}' found"
  | repeated option => s!"the argument '{option}' cannot be used multiple times"
  | valueMissing option => s!"a value is required for '{option}' but none was supplied"

end ArgumentError

/-- Options to run with, or a text that is printed instead. -/
inductive Request where
  | run (options : Options)
  | version
  | help
  deriving DecidableEq, Repr

/-- What an argument stands for before `--`. -/
inductive Argument where
  | separator
  | long (name : String) (value : Option String)
  | short (letters : List Char)
  | positional (text : String)
  deriving DecidableEq, Repr

namespace Argument

/-- The name and the value of a long option, which an equals sign separates. -/
def splitValue (text : List Char) : Argument :=
  match text.span (· != '=') with
  | (name, []) => .long (String.ofList name) none
  | (name, _ :: value) => .long (String.ofList name) (some (String.ofList value))

/-- Sorts an argument by its leading hyphens. A lone hyphen is an ordinary text. -/
def classify (text : String) : Argument :=
  match text.toList with
  | ['-', '-'] => .separator
  | '-' :: '-' :: rest => splitValue rest
  | ['-'] => .positional text
  | '-' :: letters => .short letters
  | _ => .positional text

end Argument

namespace Options

/-- Takes a positional argument: the path first, then the selector. A path is not empty. -/
def addPositional (options : Options) (text : String) : Except ArgumentError Options :=
  match options.path, options.selector with
  | .none, _ =>
    if text.isEmpty then .error (.valueMissing "[FILE]") else .ok { options with path := some text }
  | some _, .none => .ok { options with selector := some text }
  | some _, some _ => .error (.unexpected text)

/-- Takes positional arguments one after the other. -/
def addPositionals (options : Options) : List String → Except ArgumentError Options
  | [] => .ok options
  | text :: others =>
    match options.addPositional text with
    | .error error => .error error
    | .ok options => options.addPositionals others

/-- Sets the option that prints the first match only. -/
def setFirst (options : Options) : Except ArgumentError Options :=
  if options.first then .error (.repeated "--first") else .ok { options with first := true }

/-- Sets a long option that has no value. -/
def setFlag (options : Options) (name : String) : Except ArgumentError Options :=
  match name with
  | "first" => options.setFirst
  | "ast" => if options.ast then .error (.repeated "--ast") else .ok { options with ast := true }
  | "tree" => if options.tree then .error (.repeated "--tree") else .ok { options with tree := true }
  | _ => .error (.unexpected ("--" ++ name))

/-- Sets the document text. -/
def setJson (options : Options) (text : String) : Except ArgumentError Options :=
  match options.json with
  | .none => .ok { options with json := some text }
  | some _ => .error (.repeated "--json <JSON>")

end Options

namespace Request

/-- Takes short options that stand behind one hyphen; `proceed` reads the arguments behind them. -/
def ofLetters (options : Options) (proceed : Options → Except ArgumentError Request) :
    List Char → Except ArgumentError Request
  | [] => proceed options
  | 'V' :: _ => .ok .version
  | 'h' :: _ => .ok .help
  | 'f' :: letters =>
    match options.setFirst with
    | .error error => .error error
    | .ok options => ofLetters options proceed letters
  | letter :: _ => .error (.unexpected (String.ofList ['-', letter]))

/-- Reads arguments behind those that made `options`. -/
def ofArguments (options : Options) : List String → Except ArgumentError Request
  | [] => .ok (.run options)
  | argument :: others =>
    match Argument.classify argument with
    | .separator => (options.addPositionals others).map .run
    | .positional text =>
      match options.addPositional text with
      | .error error => .error error
      | .ok options => ofArguments options others
    | .short letters => ofLetters options (fun options => ofArguments options others) letters
    | .long "version" none => .ok .version
    | .long "help" none => .ok .help
    | .long "json" (some text) =>
      match options.setJson text with
      | .error error => .error error
      | .ok options => ofArguments options others
    | .long "json" none =>
      match others with
      | [] => .error (.valueMissing "--json <JSON>")
      | text :: others =>
        match Argument.classify text with
        | .positional text =>
          match options.setJson text with
          | .error error => .error error
          | .ok options => ofArguments options others
        | _ => .error (.valueMissing "--json <JSON>")
    | .long name none =>
      match options.setFlag name with
      | .error error => .error error
      | .ok options => ofArguments options others
    | .long _ (some _) => .error (.unexpected argument)

/-- Reads the arguments of a run. -/
def parse (arguments : List String) : Except ArgumentError Request :=
  ofArguments .none arguments

end Request

end CssSelect.CommandLine
