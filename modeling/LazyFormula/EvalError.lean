import LazyFormula.Value
/-!
# Evaluation errors

Why an evaluation has no value. An error names its cause; the wording is in `EvalError.message` alone.
-/
namespace LazyFormula

/-- The ways in which a special form can be malformed. -/
inductive Malformed where
  | quote
  | conditional
  | define
  | assign
  | lambda
  | parameters
deriving DecidableEq, Repr

namespace Malformed

/-- The keyword of the form. -/
def keyword : Malformed → String
  | .quote => "quote"
  | .conditional => "if"
  | .define => "define"
  | .assign => "set!"
  | .lambda | .parameters => "lambda"

/-- What should follow the keyword. -/
def expected : Malformed → String
  | .quote => "exactly one argument"
  | .conditional => "a test, a consequent and an alternative"
  | .define | .assign => "a symbol and an expression"
  | .lambda => "a parameter list and a body"
  | .parameters => "symbols as parameters"

end Malformed

/-- How many arguments a builtin takes. -/
inductive ArgumentCount where
  | exactly (n : Nat)
  | atLeastOne
  | oneOrTwo
deriving DecidableEq, Repr

def ArgumentCount.text : ArgumentCount → String
  | .exactly n => toString n
  | .atLeastOne => "at least 1"
  | .oneOrTwo => "1 or 2"

/-- **Why an evaluation failed.** -/
inductive EvalError where
  /-- No scope on the way up knows the name. -/
  | unresolved (name : String)
  | malformed (form : Malformed) (items : List Expr)
  /-- A procedure was called with a wrong number of arguments. -/
  | parameterCount (params : List String) (got : Nat)
  /-- No scope on the way up holds a value that may be overwritten. -/
  | unassignable (name : String)
  | notCallable (v : Value)
  | notNumber (caller : Action) (v : Value)
  | notList (caller : Action) (v : Value)
  /-- A builtin was called with a wrong number of arguments. -/
  | argumentCount (caller : Action) (expected : ArgumentCount) (got : Nat)
  | digitCountNotInteger
  | digitCountOutOfRange (digits : Int64)
  | divisionByZero (caller : Action)
  | firstOfEmpty
  | hostFailure (arguments : Nat)
  /-- A procedure was called whose scope is gone. -/
  | scopeGone
  /-- An evaluation would be nested deeper than its scopes admit. -/
  | depthLimit (limit : Nat)

namespace EvalError

/-- The kinds of errors that a host tells apart. -/
inductive Kind where
  | unresolvedSymbol
  | structural
  | invalidAssignment
  | type
  | eval
  | depthLimit
deriving DecidableEq, Repr

def kind : EvalError → Kind
  | .unresolved _ => .unresolvedSymbol
  | .malformed .. | .parameterCount .. => .structural
  | .unassignable _ => .invalidAssignment
  | .notCallable _ | .notNumber .. | .notList .. | .argumentCount .. | .digitCountNotInteger => .type
  | .digitCountOutOfRange _ | .divisionByZero _ | .firstOfEmpty | .hostFailure _ | .scopeGone => .eval
  | .depthLimit _ => .depthLimit

/-- A value as errors show it, with its kind. -/
def shown (v : Value) : String := v.text ++ " (" ++ v.kind ++ ")"

/-- What went wrong, without the kind of the error. -/
def detail : EvalError → String
  | .unresolved name => "symbol \"" ++ name ++ "\" not defined"
  | .malformed form items => form.keyword ++ " expects " ++ form.expected ++ ", got " ++ (Expr.list items).text
  | .parameterCount params got =>
    "procedure (" ++ " ".intercalate params ++ ") expects " ++ toString params.length ++ " argument(s), got " ++
      toString got
  | .unassignable name => "symbol \"" ++ name ++ "\" has not been defined as a value and cannot be assigned"
  | .notCallable v => shown v ++ " is not callable"
  | .notNumber a v => a.name ++ " expects numbers, got " ++ shown v
  | .notList a v => a.name ++ " expects a list, got " ++ shown v
  | .argumentCount a expected got => a.name ++ " expects " ++ expected.text ++ " argument(s), got " ++ toString got
  | .digitCountNotInteger => "round expects an integer digit count"
  | .digitCountOutOfRange digits => "round: digit count " ++ toString digits.toInt ++ " out of range"
  | .divisionByZero a => a.name ++ ": division by zero"
  | .firstOfEmpty => "car of empty list"
  | .hostFailure arguments => "host failure with " ++ toString arguments ++ " argument(s)"
  | .scopeGone => "procedure outlived the scope it was defined in"
  | .depthLimit limit => "evaluation nested deeper than " ++ toString limit ++ " levels"

/-- What a message of a kind starts with. -/
def Kind.heading : Kind → String
  | .structural => "malformed expression: "
  | .type => "type error: "
  | .eval => "evaluation error: "
  | .unresolvedSymbol | .invalidAssignment | .depthLimit => ""

/-- **The message of an error.** -/
def message (e : EvalError) : String := e.kind.heading ++ e.detail

end EvalError
end LazyFormula
