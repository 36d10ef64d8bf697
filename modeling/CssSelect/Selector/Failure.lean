import CssSelect.Selector.Basic

/-!
Why a text is no selector. A failure keeps the characters that were still unread
where the problem was met, so that its place in the whole text is the difference
of two sizes.
-/
namespace CssSelect

/-- The places of a selector where a name has to stand. -/
inductive NamePlace where
  | className
  | attribute
  | pseudoClass
  | pseudoElement
  deriving DecidableEq, Repr

/-- What was missing or unwelcome. -/
inductive SyntaxCause where
  | selectorExpected
  | selectorExpectedAfter (combinator : Combinator)
  | nameExpected (place : NamePlace)
  | idExpected
  | valueExpected
  | unexpectedCharacter (c : Char)
  | unexpectedEnd
  | unterminatedEscape
  | unterminatedString
  | unbalancedParentheses
  deriving DecidableEq, Repr

namespace NamePlace

/-- The name that is expected, in words. -/
def describe : NamePlace → String
  | className => "class name after '.'"
  | .attribute => "attribute name"
  | pseudoClass => "pseudo-class name"
  | pseudoElement => "pseudo-element name"

end NamePlace

namespace SyntaxCause

/-- The cause in words. -/
def message : SyntaxCause → String
  | selectorExpected => "expected selector"
  | selectorExpectedAfter combinator => s!"expected selector after '{combinator.symbol}'"
  | nameExpected place => s!"expected {place.describe}"
  | idExpected => "expected ID after '#'"
  | valueExpected => "expected attribute value"
  | unexpectedCharacter c => s!"unexpected character '{c}'"
  | unexpectedEnd => "unexpected end of selector"
  | unterminatedEscape => "unterminated escape"
  | unterminatedString => "unterminated string"
  | unbalancedParentheses => "unbalanced parentheses"

end SyntaxCause

/-- A problem, and what was still unread when it was met. -/
structure Failure where
  cause : SyntaxCause
  rest : List Char
  deriving DecidableEq, Repr

namespace Failure

/-- The next character, or the end of the text, is not what can stand here. -/
def unexpected : List Char → Failure
  | [] => ⟨.unexpectedEnd, []⟩
  | c :: rest => ⟨.unexpectedCharacter c, c :: rest⟩

end Failure

/-- A problem at a place: `position` counts the bytes of UTF-8 before it. -/
structure SyntaxError where
  cause : SyntaxCause
  position : Nat
  deriving DecidableEq, Repr

namespace SyntaxError

/-- The problem and its place in words. -/
def message (error : SyntaxError) : String :=
  s!"{error.cause.message} at position {error.position}"

/-- The place of a failure in the text that was read. -/
def ofFailure (text : List Char) (failure : Failure) : SyntaxError :=
  ⟨failure.cause, Text.utf8Size text - Text.utf8Size failure.rest⟩

end SyntaxError

/-- One step of reading: a value and the characters after it, or a failure. -/
abbrev Step (α : Type) := Except Failure (α × List Char)

end CssSelect
