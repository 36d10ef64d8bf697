import CssSelect.Text.Ascii

/-!
The files that a run can read: those of one folder, by name. A path leads through
the folder step by step; a step behind a file leads nowhere, and a path that ends
at a folder is no file.
-/
namespace CssSelect.CommandLine

/-- Why a file cannot be read. -/
inductive ReadError where
  | notFound
  | notFolder
  | isFolder
  | nameTooLong
  | notText
  | other (message : String)
  deriving DecidableEq, Repr

namespace ReadError

/-- The cause in words. -/
def message : ReadError → String
  | notFound => "No such file or directory (os error 2)"
  | notFolder => "Not a directory (os error 20)"
  | isFolder => "Is a directory (os error 21)"
  | nameTooLong => "File name too long (os error 36)"
  | notText => "stream did not contain valid UTF-8"
  | other message => message

end ReadError

/-- Files by name, and nothing else. -/
structure Folder where
  files : List (String × String)

namespace Folder

/-- Whether a step of a path stays where it is or leads up. -/
def staysOrClimbs (step : List Char) : Bool :=
  step.isEmpty || step == ['.'] || step == ['.', '.']

/-- The most bytes that one step of a path may take. -/
def stepLimit : Nat :=
  255

/-- The most bytes that a path may take. -/
def pathLimit : Nat :=
  4095

/-- Follows steps outside the folder. There are no files there, and folders only on the way up. -/
def outside : List (List Char) → ReadError
  | [] => .isFolder
  | step :: steps =>
    if staysOrClimbs step then outside steps
    else if stepLimit < Text.utf8Size step then .nameTooLong
    else .notFound

/-- Follows the steps of a path inside the folder. -/
def walk (folder : Folder) : List (List Char) → Except ReadError String
  | [] => .error .isFolder
  | [] :: steps | ['.'] :: steps => folder.walk steps
  | step :: steps =>
    if step == ['.', '.'] then .error (outside steps)
    else if stepLimit < Text.utf8Size step then .error .nameTooLong
    else
      match folder.files.lookup (String.ofList step), steps with
      | none, _ => .error .notFound
      | some content, [] => .ok content
      | some _, _ :: _ => .error .notFolder

/-- The parts of a path between its slashes. -/
def steps : List Char → List (List Char)
  | [] => [[]]
  | c :: rest =>
    if c == '/' then [] :: steps rest
    else
      match steps rest with
      | [] => [[c]]
      | step :: others => (c :: step) :: others

/-- The content of the file at a path. A path that is too long leads nowhere, and a path
from the top leads out of the folder. -/
def read (folder : Folder) (path : String) : Except ReadError String :=
  if pathLimit < Text.utf8Size path.toList then .error .nameTooLong
  else
    match path.toList with
    | [] => .error .notFound
    | '/' :: rest => .error (outside (steps rest))
    | _ => folder.walk (steps path.toList)

end Folder

end CssSelect.CommandLine
