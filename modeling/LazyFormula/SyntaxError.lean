import LazyFormula.Algebra.Token
import LazyFormula.Text.Quoted
/-!
# Syntax errors

Why a text reads as no expression: what was due and what stands there instead.
-/
namespace LazyFormula

/-- **The reason why a text cannot be read.** A place of an infix text holds a token, or none at the end. -/
inductive SyntaxError where
  /-- Infix: an operand is due. -/
  | expectedTerm (found : Option Algebra.Token)
  /-- Infix: a parenthesis is open, and neither an operator nor its closing one follows. -/
  | expectedClosing (found : Option Algebra.Token)
  /-- Infix: the expression is complete. -/
  | expectedEnd (found : Option Algebra.Token)
  /-- Infix: no token starts with this character. -/
  | unexpectedCharacter (c : Char)
  /-- Lists: there is no expression at all. -/
  | nothingToRead
  /-- Lists: the text ends inside a list. -/
  | unclosedList
  /-- Lists: a closing parenthesis stands where an expression is due. -/
  | unexpectedClosing

namespace SyntaxError

/-- What was due. -/
def problem : SyntaxError → String
  | .expectedTerm _ => "expected term"
  | .expectedClosing _ => "expected ')'"
  | .expectedEnd _ => "expected end of input"
  | .unexpectedCharacter _ => "unexpected character"
  | .nothingToRead => "unexpected end of input"
  | .unclosedList => "unexpected end of input, expected ')'"
  | .unexpectedClosing => "unexpected ')'"

/-- What stands there instead. The list notation has no word for the end of the text. -/
def found : SyntaxError → String
  | .expectedTerm t | .expectedClosing t | .expectedEnd t => Algebra.shown t
  | .unexpectedCharacter c => .singleton c
  | .nothingToRead | .unclosedList => ""
  | .unexpectedClosing => ")"

/-- **The message of a syntax error.** -/
def message (e : SyntaxError) : String := "syntax error: " ++ e.problem ++ " (found " ++ Text.quoted e.found ++ ")"

end SyntaxError
end LazyFormula
