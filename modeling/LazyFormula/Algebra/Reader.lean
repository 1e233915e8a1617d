import LazyFormula.SyntaxError
/-!
# Reading algebra

Infix arithmetic with `+` and `-` binding loosest, then `*` and `/`, then `^`; the first four group to the left and
`^` to the right. The reader goes over the tokens once. It keeps what is pending to the left of the place where it
stands, one record for every open parenthesis, and so knows at each token whether an operand is due.
-/
namespace LazyFormula
namespace Algebra

/-- **What is pending** inside one pair of parentheses when an operand is due: a sum or difference that lacks its
right operand, a product or quotient that lacks its right operand, and the bases of powers that lack their exponent,
the innermost one first. -/
structure Pending where
  sum : Option (Expr × Char)
  product : Option (Expr × Char)
  bases : List Expr

namespace Pending

/-- Nothing is pending. -/
def empty : Pending := ⟨none, none, []⟩

/-- The operand that is pending on the left, joined with its right operand. -/
def join (left : Option (Expr × Char)) (right : Expr) : Expr :=
  match left with
  | some (l, op) => .binary op l right
  | none => right

/-- The power that an operand completes. -/
def power (p : Pending) (e : Expr) : Expr := p.bases.foldl (fun exponent base => .binary '^' base exponent) e

/-- The product or quotient that an operand completes. -/
def factor (p : Pending) (e : Expr) : Expr := join p.product (p.power e)

/-- The sum or difference that an operand completes, and with it all that is pending. -/
def total (p : Pending) (e : Expr) : Expr := join p.sum (p.factor e)

/-- What is pending after an operand and an operator. -/
def push (p : Pending) (e : Expr) (op : Char) : Pending :=
  if op = '^' then { p with bases := e :: p.bases }
  else if op = '*' || op = '/' then { p with product := some (p.factor e, op), bases := [] }
  else ⟨some (p.total e, op), none, []⟩

end Pending

/-- **Where the reader stands.** The pending parts belong to the open parentheses, the innermost one first, and the
last of them to the whole text. -/
inductive State where
  | operandDue (here : Pending) (outer : List Pending)
  | operandRead (operand : Expr) (here : Pending) (outer : List Pending)

namespace State

/-- Before the first token. -/
def start : State := .operandDue .empty []

/-- The error of a place where something else was due. -/
def refuse : State → Option Token → SyntaxError
  | .operandDue _ _, found => .expectedTerm found
  | .operandRead _ _ (_ :: _), found => .expectedClosing found
  | .operandRead _ _ [], found => .expectedEnd found

/-- The reader takes one token. -/
def step : State → Token → Except SyntaxError State
  | .operandDue here outer, .atom e => .ok (.operandRead e here outer)
  | .operandDue here outer, .leftParen => .ok (.operandDue .empty (here :: outer))
  | .operandRead e here outer, .operator op => .ok (.operandDue (here.push e op) outer)
  | .operandRead e here (next :: outer), .rightParen => .ok (.operandRead (here.total e) next outer)
  | s, t => .error (s.refuse (some t))

/-- The text ends. -/
def finish : State → Except SyntaxError Expr
  | .operandRead e here [] => .ok (here.total e)
  | s => .error (s.refuse none)

end State

/-- The tokens of a text without a character that starts none. -/
def tokenize (cs : List Char) : Except SyntaxError (List Token) :=
  match lex cs with
  | ⟨tokens, none⟩ => .ok tokens
  | ⟨_, some c⟩ => .error (.unexpectedCharacter c)

/-- **Reading infix text.** A token that cannot follow the ones before it is an error also where a character further
on starts no token. -/
def read (cs : List Char) : Except SyntaxError Expr := do
  let lexed := lex cs
  let state ← lexed.tokens.foldlM State.step State.start
  match lexed.bad with
  | some c => throw (.unexpectedCharacter c)
  | none => state.finish

end Algebra
end LazyFormula
