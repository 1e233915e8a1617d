import LazyFormula.Expr
import LazyFormula.Text.Blank
import LazyFormula.Text.Word
/-!
# Tokens of algebra

Infix text consists of operators, parentheses and words. White space separates words and is otherwise without
meaning; any other character ends the tokens of the text.
-/
namespace LazyFormula
namespace Algebra

/-- **A token of infix text.** -/
inductive Token where
  | operator (symbol : Char)
  | atom (leaf : Expr)
  | leftParen
  | rightParen

/-- A token as it is shown in messages. -/
def Token.text : Token → String
  | .operator c => .singleton c
  | .atom e => e.text
  | .leftParen => "("
  | .rightParen => ")"

/-- What stands at a place of the text, as shown in messages: a token, or none at the end. -/
def shown : Option Token → String
  | some t => t.text
  | none => "end of input"

/-- The five operators. -/
def isOperator (c : Char) : Bool := c == '+' || c == '-' || c == '*' || c == '/' || c == '^'

/-- The token that is one character, if there is such a token. -/
def punctuation? (c : Char) : Option Token :=
  if isOperator c then some (.operator c)
  else if c = '(' then some .leftParen
  else if c = ')' then some .rightParen
  else none

/-- **The tokens of a text**, up to the first character that starts none, and that character. -/
structure Lexed where
  tokens : List Token
  bad : Option Char

/-- A token before others. -/
def Lexed.cons (t : Token) (l : Lexed) : Lexed := { l with tokens := t :: l.tokens }

/-- The word that was gathered, last character first, before what follows it. -/
def Lexed.consWord (word : List Char) (l : Lexed) : Lexed :=
  if word.isEmpty then l else l.cons (.atom (.atom word.reverse))

/-- The tokens of a text behind the characters of a word, which are given last one first. -/
def lexAfter (word : List Char) : List Char → Lexed
  | [] => .consWord word ⟨[], none⟩
  | c :: cs =>
    if Text.isWord c then lexAfter (c :: word) cs
    else .consWord word <|
      if Text.isBlank c then lexAfter [] cs
      else match punctuation? c with
        | some t => .cons t (lexAfter [] cs)
        | none => ⟨[], some c⟩

/-- **The tokens of a text.** -/
def lex (cs : List Char) : Lexed := lexAfter [] cs

end Algebra
end LazyFormula
