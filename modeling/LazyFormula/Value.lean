import LazyFormula.Expr
import LazyFormula.Json
import LazyFormula.Primitive
import LazyFormula.Text.Quoted
/-!
# Values

What expressions evaluate to. Procedures and builtins have an identity besides their text: two procedures are equal
only if they come from one evaluation of one lambda form and run in one scope.
-/
namespace LazyFormula

/-- A scope, by its number in the store. -/
abbrev ScopeId := Nat

/-- **What one evaluation of a lambda form made**: its number tells it from every other one. -/
structure Lambda where
  id : Nat
  params : List String
  body : Expr

/-- Whether a procedure keeps its scope alive. -/
inductive Hold where
  | strong
  | weak
deriving DecidableEq, Repr

/-- **A procedure**: a lambda and the scope in which its calls run. -/
structure Procedure where
  lambda : Lambda
  scope : ScopeId
  hold : Hold

/-- **A builtin**: what it does and a number that tells it from every other one. -/
structure Builtin where
  id : Nat
  action : Action
deriving DecidableEq

/-- **A value.** The empty list is nil; definitions and assignments have no value of their own. -/
inductive Value where
  | number (n : Number)
  | bool (b : Bool)
  | symbol (name : String)
  | list (items : List Value)
  | procedure (p : Procedure)
  | builtin (b : Builtin)
  | unspecified
deriving Inhabited

namespace Value

def nil : Value := .list []

def int (i : Int64) : Value := .number (.int i)

def float (x : Float) : Value := .number (.float x)

mutual
/-- The value of a quoted expression. -/
def ofExpr : Expr → Value
  | .number n => .number n
  | .symbol name => .symbol name
  | .list items => .list (ofExprs items)

def ofExprs : List Expr → List Value
  | [] => []
  | e :: es => ofExpr e :: ofExprs es
end

/-- **What counts as true**: everything but zero, nil, false and the unspecified value. -/
def truthy : Value → Bool
  | .number n => !n.isZero
  | .bool b => b
  | .list items => !items.isEmpty
  | .unspecified => false
  | .symbol _ | .procedure _ | .builtin _ => true

def isCallable : Value → Bool
  | .procedure _ | .builtin _ => true
  | _ => false

def number? : Value → Option Number
  | .number n => some n
  | _ => none

/-- The name of a kind of values. -/
def kind : Value → String
  | .number _ => "number"
  | .bool _ => "boolean"
  | .symbol _ => "symbol"
  | .list _ => "list"
  | .procedure _ => "procedure"
  | .builtin _ => "builtin"
  | .unspecified => "unspecified"

/-! ## Equality -/

mutual
/-- **Equality of values**: numbers by value, lists item by item, procedures and builtins by identity. -/
def same : Value → Value → Bool
  | .number a, .number b => a.same b
  | .bool a, .bool b => a == b
  | .symbol a, .symbol b => a == b
  | .list as, .list bs => sameItems as bs
  | .procedure p, .procedure q => p.lambda.id == q.lambda.id && p.scope == q.scope
  | .builtin a, .builtin b => a.id == b.id
  | .unspecified, .unspecified => true
  | _, _ => false

def sameItems : List Value → List Value → Bool
  | [], [] => true
  | a :: as, b :: bs => same a b && sameItems as bs
  | _, _ => false
end

/-! ## Texts -/

mutual
/-- **The text of a value.** -/
def text : Value → String
  | .number n => n.text
  | .bool b => if b then "#t" else "#f"
  | .symbol name => name
  | .list items => "(" ++ textItems items ++ ")"
  | .procedure p => "#<procedure (" ++ " ".intercalate p.lambda.params ++ ")>"
  | .builtin b => "#<builtin " ++ b.action.name ++ ">"
  | .unspecified => "#<unspecified>"

/-- Items with one space between two of them. -/
def textItems : List Value → String
  | [] => ""
  | [item] => item.text
  | item :: items => item.text ++ " " ++ textItems items
end

mutual
/-- **A value as JSON.** What can be called is shown by its text, and the unspecified value is null. -/
def json : Value → Json
  | .number (.int i) => .int i.toInt
  | .number (.float x) => .float x
  | .bool b => .bool b
  | .symbol name => .string name
  | .list items => .array (jsonItems items)
  | .unspecified => .null
  | v => .string v.text

def jsonItems : List Value → List Json
  | [] => []
  | v :: vs => v.json :: jsonItems vs
end

/-! ## The procedures in a value -/

mutual
/-- A value with its procedures replaced, at any depth of lists. -/
def mapProcedures (f : Procedure → Procedure) : Value → Value
  | .procedure p => .procedure (f p)
  | .list items => .list (mapProceduresItems f items)
  | v => v

def mapProceduresItems (f : Procedure → Procedure) : List Value → List Value
  | [] => []
  | v :: vs => v.mapProcedures f :: mapProceduresItems f vs
end

mutual
/-- The procedures in a value, at any depth of lists. -/
def procedures : Value → List Procedure
  | .procedure p => [p]
  | .list items => proceduresItems items
  | _ => []

def proceduresItems : List Value → List Procedure
  | [] => []
  | v :: vs => v.procedures ++ proceduresItems vs
end

/-- A value on its way into a scope: the scope does not keep itself alive through a procedure it holds. -/
def detach (s : ScopeId) : Value → Value :=
  mapProcedures fun p => if p.scope = s then { p with hold := .weak } else p

/-- A value on its way out of a scope: its procedures hold their scopes again, as far as these are alive. -/
def attach (alive : ScopeId → Bool) : Value → Value :=
  mapProcedures fun p => if p.hold = .weak && alive p.scope then { p with hold := .strong } else p

/-- A value whose procedures move from one scope to another. -/
def recapture (source target : ScopeId) : Value → Value :=
  mapProcedures fun p => if p.scope = source then { p with scope := target, hold := .strong } else p

end Value
end LazyFormula
