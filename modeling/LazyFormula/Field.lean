import LazyFormula.Evaluation
import LazyFormula.Root
/-!
# Fields

Hosts embed formulas in text fields: a field is a formula if it is wrapped in double braces. Errors say where the
field stands.
-/
namespace LazyFormula

/-- **Where a field stands** in the host's tables. -/
structure FieldLocation where
  table : String
  row : Nat
  column : Nat
deriving DecidableEq, Repr

def FieldLocation.text (l : FieldLocation) : String :=
  "table '" ++ l.table ++ "', column " ++ toString l.column ++ ", row " ++ toString l.row

/-- **A field that holds a formula.** -/
structure Field where
  location : FieldLocation
  formula : Expr

/-- **Why fields have no values.** -/
inductive FieldError where
  | unreadable (location : FieldLocation) (cause : SyntaxError)
  | failed (location : FieldLocation) (cause : EvalError)
  | badDefinition (name : String) (cause : SyntaxError)

/-- The message of a field error, without its cause. -/
def FieldError.message : FieldError → String
  | .unreadable l _ => "syntax error in expression in " ++ l.text
  | .failed l _ => "failed to evaluate expression in " ++ l.text
  | .badDefinition name _ => "invalid definition of " ++ name

namespace Field

/-- **Whether a field is marked as a formula**: white space around it apart, it starts with two opening braces and
ends with two closing ones. -/
def isMarked (cs : List Char) : Bool :=
  ['\x7b', '\x7b'].isPrefixOf (Text.trim cs) && ['\x7d', '\x7d'].isSuffixOf (Text.trim cs)

/-- The text between the marks of a marked field. -/
def inner? (cs : List Char) : Option (List Char) :=
  if isMarked cs then some ((Text.trim cs).drop 2).dropLast.dropLast else none

/-- **Reading a field**; one that is not marked is no formula, which is no error. -/
def read (text : String) (location : FieldLocation) : Except FieldError (Option Field) :=
  match inner? text.toList with
  | none => .ok none
  | some inner =>
    match readFormula (.ofList inner) with
    | .ok e => .ok (some ⟨location, e⟩)
    | .error cause => .error (.unreadable location cause)

/-- Reading fields in order; the first error ends it, and fields that are not marked are left out. -/
def readAll (texts : List (String × FieldLocation)) : Except FieldError (List Field) := do
  return (← texts.mapM fun (text, location) => read text location).filterMap id

/-- A computation on the store that may fail with the error of a field. -/
abbrev Sheet := ExceptT FieldError (StateM Store)

/-- The value of a field. -/
def evaluate (f : Field) (root : ScopeId) : Sheet Value :=
  ExceptT.adapt (.failed f.location) (Eval.evaluate f.formula root)

/-- **The values of fields**, in order; the first error ends it. -/
def evaluateAll (fields : List Field) (root : ScopeId) : Sheet (List (FieldLocation × Value)) :=
  fields.mapM fun f => do return (f.location, ← f.evaluate root)

/-- One definition of a root. -/
def define (root : ScopeId) (name text : String) : Sheet Unit :=
  match readFormula text with
  | .ok e => modify (·.define root name e)
  | .error cause => throw (.badDefinition name cause)

/-- **A new root with lazy definitions**, put in one after the other. -/
def rootOfDefinitions (definitions : List (String × String)) : Sheet ScopeId := do
  let root ← modifyGet (·.addRoot defaultMaxDepth)
  definitions.forM fun (name, text) => define root name text
  return root

end Field
end LazyFormula
