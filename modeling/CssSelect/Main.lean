import CssSelect.CommandLine.Run

/-!
The command line tool. It reads the file that the run asks for and prints the
run's report.
-/
open CssSelect.CommandLine

/-- The content of a file, or why it cannot be read. -/
def readDocument (path : String) : IO (Except ReadError String) := do
  try
    match String.fromUTF8? (← IO.FS.readBinFile path) with
    | some text => return .ok text
    | none => return .error .notText
  catch
    | .noFileOrDirectory _ _ _ => return .error .notFound
    | .inappropriateType _ _ "not a directory" => return .error .notFolder
    | .inappropriateType _ 21 _ => return .error .isFolder
    | .invalidArgument _ _ "name too long" => return .error .nameTooLong
    | error => return .error (.other (toString error))

/-- Runs the tool on its arguments. -/
def main (arguments : List String) : IO UInt32 := do
  let content ← match fileToRead? arguments with
    | none => pure (.error .notFound)
    | some path => readDocument path
  let report := run arguments fun _ => content
  (← IO.getStdout).putStr report.out
  (← IO.getStderr).putStr report.err
  return report.exit.toUInt32
