import CssSelect.Selector.Parser

/-!
Warnings. A log remembers which warnings have been given by their text, and a
warning is printed only if its text is new. Component and message are joined
before they are compared, so that the text alone decides.
-/
namespace CssSelect

/-- A message from a part of the engine. -/
structure Warning where
  component : String
  message : String
  deriving DecidableEq, Repr

namespace Warning

/-- The text under which a warning is remembered. -/
def key (warning : Warning) : String :=
  s!"[{warning.component}] {warning.message}"

/-- The line that is printed for a warning, in yellow. -/
def line (warning : Warning) : String :=
  s!"\x1b[33m[Sift {warning.component}] ⚠ {warning.message}\x1b[39m\n"

end Warning

namespace Announcement

/-- The warning about a pseudo selector that was read. -/
def warning : Announcement → Warning
  | pseudoClass name =>
    ⟨"Selectors", s!"pseudo-class ':{name}' is not evaluated and always matches"⟩
  | pseudoElement name =>
    ⟨"Selectors", s!"pseudo-element '::{name}' never matches a tree node"⟩

end Announcement

/-- The texts of the warnings that have been given. -/
structure WarningLog where
  keys : List String

namespace WarningLog

/-- No warning has been given. -/
def empty : WarningLog :=
  ⟨[]⟩

/-- Whether a warning with the same text has been given. -/
def contains (log : WarningLog) (warning : Warning) : Bool :=
  log.keys.contains warning.key

/-- Gives a warning: the log afterwards, and the printed text. -/
def warn (log : WarningLog) (warning : Warning) : WarningLog × String :=
  if log.contains warning then (log, "")
  else (⟨warning.key :: log.keys⟩, warning.line)

/-- Gives warnings one after the other: the log afterwards, and the printed text. -/
def warnAll (log : WarningLog) : List Warning → WarningLog × String
  | [] => (log, "")
  | warning :: warnings =>
    let (log, line) := log.warn warning
    let (log, lines) := log.warnAll warnings
    (log, line ++ lines)

/-- Gives the warnings about the pseudo selectors that are read in a text. -/
def warnAbout (log : WarningLog) (selectors : String) : WarningLog × String :=
  log.warnAll ((SelectorList.announced selectors).map Announcement.warning)

end WarningLog

end CssSelect
