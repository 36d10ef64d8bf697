/-!
Colours and weights of terminal text: an escape sequence before the text and one
behind it that ends the effect.
-/
namespace CssSelect.CommandLine

/-- The codes that start and end an effect. -/
structure Style where
  start : Nat
  stop : Nat

namespace Style

/-- Bold text; like dimmed text it ends with all effects. -/
def bold : Style :=
  ⟨1, 0⟩

/-- Dimmed text. -/
def dimmed : Style :=
  ⟨2, 0⟩

/-- Green text; a colour ends with the default colour. -/
def green : Style :=
  ⟨32, 39⟩

/-- Yellow text. -/
def yellow : Style :=
  ⟨33, 39⟩

/-- Cyan text. -/
def cyan : Style :=
  ⟨36, 39⟩

/-- A text with the effect. -/
def paint (style : Style) (text : String) : String :=
  s!"\x1b[{style.start}m{text}\x1b[{style.stop}m"

end Style

end CssSelect.CommandLine
