import LazyFormula.Algebra.Reader
import LazyFormula.SExpr.Reader
/-!
# The two notations

A formula is written in infix algebra or as a parenthesized list. Which of the two a text is in is seen from its ends.
-/
namespace LazyFormula

/-- **The notation of a text.** -/
inductive Grammar where
  | symbolic
  | algebraic
deriving DecidableEq, Repr

namespace Grammar

/-- The name of a notation in the log. -/
def text : Grammar → String
  | .symbolic => "Symbolic"
  | .algebraic => "Algebraic"

/-- A text without the line end at its end, if there is one. -/
def withoutLineEnd (cs : List Char) : List Char := if cs.getLast? = some '\n' then cs.dropLast else cs

/-- **The notation that a text is taken for**: a list if it starts with `(` and ends with `)`, where one line end
behind it does not count. So `(a+3)*(b+5)` is taken for a list. -/
def detect (cs : List Char) : Grammar :=
  let cs := withoutLineEnd cs
  if cs.head? = some '(' && cs.getLast? = some ')' then .symbolic else .algebraic

/-- Reading a text in a notation. -/
def read : Grammar → List Char → Except SyntaxError Expr
  | .symbolic => SExpr.read
  | .algebraic => Algebra.read

end Grammar

/-- **Reading a text** in the notation that it is taken for. -/
def readFormula (text : String) : Except SyntaxError Expr :=
  (Grammar.detect text.toList).read text.toList

end LazyFormula
