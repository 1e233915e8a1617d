import LazyFormula.Store
/-!
# Descriptions

Hosts can look at values and scopes from outside. A description names the kind of everything it shows, so that the
integer 1, the float 1.0 and the symbol `1` differ.
-/
namespace LazyFormula

/-- Parts between brackets. -/
def bracketed (parts : List String) : String := "[" ++ ", ".intercalate parts ++ "]"

def Number.describe : Number → String
  | .int i => "Number(Int(" ++ (Number.int i).text ++ "))"
  | .float x => "Number(Float(" ++ (Number.float x).text ++ "))"

def describeSymbol (name : String) : String := "Symbol(" ++ Text.quoted name ++ ")"

namespace Expr

mutual
def describe : Expr → String
  | .number n => n.describe
  | .symbol name => describeSymbol name
  | .list items => "List(" ++ bracketed (describeItems items) ++ ")"

def describeItems : List Expr → List String
  | [] => []
  | e :: es => e.describe :: describeItems es
end

end Expr

/-- A procedure is described without its scope, which may hold the procedure itself. -/
def Procedure.describe (p : Procedure) : String :=
  "Procedure \x7b params: " ++ bracketed (p.lambda.params.map Text.quoted) ++ ", body: " ++ p.lambda.body.describe ++
    ", .. \x7d"

namespace Value

mutual
/-- **The description of a value.** -/
def describe : Value → String
  | .number n => n.describe
  | .bool b => "Bool(" ++ (if b then "true" else "false") ++ ")"
  | .symbol name => describeSymbol name
  | .list items => "List(" ++ bracketed (describeItems items) ++ ")"
  | .procedure p => "Procedure(" ++ p.describe ++ ")"
  | .builtin b => "Builtin(Builtin(" ++ Text.quoted b.action.name ++ "))"
  | .unspecified => "Unspecified"

def describeItems : List Value → List String
  | [] => []
  | v :: vs => v.describe :: describeItems vs
end

end Value

/-- **The description of a scope**: the names it knows, in ascending order, and whether it has a parent. -/
def Scope.describe (c : Scope) : String :=
  "Environment \x7b definitions: " ++ bracketed (c.definitions.names.map Text.quoted) ++ ", values: " ++
    bracketed (c.slots.names.map Text.quoted) ++ ", has_parent: " ++ (if c.parent?.isSome then "true" else "false") ++
    " \x7d"

end LazyFormula
