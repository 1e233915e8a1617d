import LazyFormula.EvalError
/-!
# Forms

What a list asks for is decided by its shape alone, before anything is evaluated. The keywords of the special forms
are recognized wherever they head a list and cannot be given another meaning.
-/
namespace LazyFormula

/-- **What a list asks for.** -/
inductive Form where
  /-- The empty list is its own value. -/
  | nil
  | quote (e : Expr)
  | conditional (test consequent alternative : Expr)
  | define (name : String) (e : Expr)
  | assign (name : String) (e : Expr)
  | lambda (params : List String) (body : Expr)
  | apply (callee : Expr) (args : List Expr)

namespace Form

/-- The name of a symbol. -/
def symbol? : Expr → Option String
  | .symbol name => some name
  | _ => none

def ofQuote (items : List Expr) : List Expr → Except EvalError Form
  | [e] => .ok (.quote e)
  | _ => .error (.malformed .quote items)

def ofConditional (items : List Expr) : List Expr → Except EvalError Form
  | [test, consequent, alternative] => .ok (.conditional test consequent alternative)
  | _ => .error (.malformed .conditional items)

def ofDefine (items : List Expr) : List Expr → Except EvalError Form
  | [.symbol name, e] => .ok (.define name e)
  | _ => .error (.malformed .define items)

def ofAssign (items : List Expr) : List Expr → Except EvalError Form
  | [.symbol name, e] => .ok (.assign name e)
  | _ => .error (.malformed .assign items)

def ofLambda (items : List Expr) : List Expr → Except EvalError Form
  | [.list params, body] =>
    match params.mapM symbol? with
    | some names => .ok (.lambda names body)
    | none => .error (.malformed .parameters items)
  | _ => .error (.malformed .lambda items)

/-- The form of a list that is headed by a symbol. -/
def ofKeyword (keyword : String) (rest : List Expr) : Except EvalError Form :=
  let items := .symbol keyword :: rest
  if keyword = "quote" then ofQuote items rest
  else if keyword = "if" then ofConditional items rest
  else if keyword = "define" then ofDefine items rest
  else if keyword = "set!" then ofAssign items rest
  else if keyword = "lambda" then ofLambda items rest
  else .ok (.apply (.symbol keyword) rest)

/-- **The form of a list.** -/
def ofItems : List Expr → Except EvalError Form
  | [] => .ok .nil
  | .symbol keyword :: rest => ofKeyword keyword rest
  | callee :: rest => .ok (.apply callee rest)

end Form
end LazyFormula
