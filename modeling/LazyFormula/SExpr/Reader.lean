import LazyFormula.SyntaxError
/-!
# Reading lists

In list notation a parenthesis is always a token of its own, and everything else is cut at white space. The reader
keeps the items of every list that is open and stops at the end of the first expression; what follows it is not read.
-/
namespace LazyFormula
namespace SExpr

/-- **The tokens of list notation**: the words of the text with its parentheses set apart. -/
def tokenize (cs : List Char) : List (List Char) :=
  Text.words (cs.flatMap fun c => if c = '(' || c = ')' then [' ', c, ' '] else [c])

/-- Reading goes on inside lists, given by their items so far: the innermost list first, the last item first. -/
def readInside : List (List Expr) → List (List Char) → Except SyntaxError Expr
  | [], [] => .error .nothingToRead
  | _ :: _, [] => .error .unclosedList
  | enclosing, ['('] :: tokens => readInside ([] :: enclosing) tokens
  | [], [')'] :: _ => .error .unexpectedClosing
  | [items], [')'] :: _ => .ok (.list items.reverse)
  | items :: outer :: enclosing, [')'] :: tokens => readInside ((.list items.reverse :: outer) :: enclosing) tokens
  | [], word :: _ => .ok (.atom word)
  | items :: enclosing, word :: tokens => readInside ((.atom word :: items) :: enclosing) tokens

/-- **Reading list notation**: the first expression of the text. -/
def read (cs : List Char) : Except SyntaxError Expr := readInside [] (tokenize cs)

end SExpr
end LazyFormula
