import LazyFormula.Number
/-!
# Expressions

The tree that formulas are read into, whatever notation they were written in: `a + 1` and `(+ a 1)` are the same
list of an operator and two operands. The empty list stands for nil.
-/
namespace LazyFormula

/-- **An expression.** -/
inductive Expr where
  | number (n : Number)
  | symbol (name : String)
  | list (items : List Expr)
deriving Inhabited

namespace Expr

/-- **The leaf that a word of the text stands for**: a number if it reads as one, else a symbol. -/
def atom (word : List Char) : Expr :=
  match Number.read? word with
  | some n => .number n
  | none => .symbol (.ofList word)

/-- An operator between two operands. -/
def binary (operator : Char) (left right : Expr) : Expr :=
  .list [.symbol (.singleton operator), left, right]

mutual
/-- **The text of an expression**, in list notation. -/
def text : Expr → String
  | .number n => n.text
  | .symbol name => name
  | .list items => "(" ++ textItems items ++ ")"

/-- Items with one space between two of them. -/
def textItems : List Expr → String
  | [] => ""
  | [item] => item.text
  | item :: items => item.text ++ " " ++ textItems items
end

end Expr
end LazyFormula
