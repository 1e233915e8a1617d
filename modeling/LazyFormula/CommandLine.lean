import LazyFormula.Evaluation
import LazyFormula.Root
/-!
# The command line

The command defines and sets names in a new root and evaluates expressions there: those among its arguments, or else
one on each line of its input that is not blank. Nothing is written before everything was evaluated.
-/
namespace LazyFormula
namespace CommandLine

/-- How values are written. -/
inductive Format where
  | text
  | json
deriving DecidableEq, Repr

/-- **What the arguments ask for.** -/
structure Options where
  expressions : List String
  definitions : List String
  values : List String
  maxDepth : Option Nat
  format : Option Format

namespace Options

def none : Options := ⟨[], [], [], .none, .none⟩

/-- The options that have a value. -/
inductive Name where
  | define
  | set
  | maxDepth
  | format

def Name.ofText? : String → Option Name
  | "define" => some .define
  | "set" => some .set
  | "max-depth" => some .maxDepth
  | "format" => some .format
  | _ => .none

/-- A number of at most 64 bits; a plus sign may stand before it. -/
def count? (text : String) : Option Nat :=
  let digits := match text.toList with
    | '+' :: cs => cs
    | cs => cs
  if Decimal.isDigits digits && Decimal.ofDigits digits < Nat.pow 2 64 then some (Decimal.ofDigits digits) else .none

def format? : String → Option Format
  | "text" => some .text
  | "json" => some .json
  | _ => .none

/-- An option with its value; a bound and a format can be given only once. -/
def put? (o : Options) (name : Name) (value : String) : Option Options :=
  match name with
  | .define => some { o with definitions := o.definitions ++ [value] }
  | .set => some { o with values := o.values ++ [value] }
  | .maxDepth => if o.maxDepth.isSome then .none else (count? value).map fun n => { o with maxDepth := some n }
  | .format => if o.format.isSome then .none else (format? value).map fun f => { o with format := some f }

/-- Whether an argument names an option; a single hyphen names none. -/
def isOption (arg : String) : Bool := arg.startsWith "-" && arg != "-"

/-- The name and the value in `--name=value`; the value may be missing. -/
def splitOption? (arg : String) : Option (Name × Option String) :=
  match arg.toList with
  | '-' :: '-' :: cs =>
    let (name, rest) := cs.span (· != '=')
    (Name.ofText? (.ofList name)).map fun n => (n, if rest.isEmpty then .none else some (.ofList rest.tail))
  | _ => .none

/-- The arguments read from left to right. Behind `--` all of them are expressions. -/
def readArguments? (o : Options) : List String → Option Options
  | [] => some o
  | "--" :: args => some { o with expressions := o.expressions ++ args }
  | arg :: args =>
    if isOption arg then
      match splitOption? arg, args with
      | some (name, some value), args => (o.put? name value).bind fun o => readArguments? o args
      | some (name, .none), value :: args =>
        if isOption value then .none else (o.put? name value).bind fun o => readArguments? o args
      | _, _ => .none
    else readArguments? { o with expressions := o.expressions ++ [arg] } args

end Options

/-- **The options that arguments give**, if they are well formed. -/
def read? (args : List String) : Option Options := Options.none.readArguments? args

/-- **Why a run failed.** -/
inductive Failure where
  | notAssignment (argument : String)
  | noName (argument : String)
  | definitionUnreadable (name : String) (cause : SyntaxError)
  | valueUnreadable (name : String) (cause : SyntaxError)
  | valueFailed (name : String) (cause : EvalError)
  | unreadable (text : String) (cause : SyntaxError)
  | failed (text : String) (cause : EvalError)

namespace Failure

def message : Failure → String
  | .notAssignment argument => "expected NAME=EXPR, got " ++ Text.quoted argument
  | .noName argument => "missing name in " ++ Text.quoted argument
  | .definitionUnreadable name _ => "parsing definition of " ++ name
  | .valueUnreadable name _ => "parsing value of " ++ name
  | .valueFailed name _ => "evaluating value of " ++ name
  | .unreadable text _ => "parsing " ++ Text.quoted text
  | .failed text _ => "evaluating " ++ Text.quoted text

def cause? : Failure → Option String
  | .notAssignment _ | .noName _ => none
  | .definitionUnreadable _ e | .valueUnreadable _ e | .unreadable _ e => some e.message
  | .valueFailed _ e | .failed _ e => some e.message

/-- What is reported: the failure, and its cause below it, every line indented. -/
def report (f : Failure) : String :=
  let cause := match f.cause? with
    | some c => "\n\nCaused by:\n    " ++ "\n    ".intercalate (c.splitOn "\n")
    | none => ""
  "Error: " ++ f.message ++ cause ++ "\n"

end Failure

/-- A name and an expression, around the first equals sign, without the white space at their ends. -/
def splitAssignment (argument : String) : Except Failure (String × String) :=
  let (name, rest) := argument.toList.span (· != '=')
  if rest.isEmpty then .error (.notAssignment argument)
  else if (Text.trim name).isEmpty then .error (.noName argument)
  else .ok (.ofList (Text.trim name), .ofList (Text.trim rest.tail))

/-- A computation on the store that may fail. -/
abbrev Run := ExceptT Failure (StateM Store)

/-- The outcome of reading or evaluating, with its error put into a failure. -/
def reading {ε α : Type} (failure : ε → Failure) (outcome : Except ε α) : Run α :=
  match outcome with
  | .ok a => pure a
  | .error e => throw (failure e)

def evaluating {α : Type} (failure : EvalError → Failure) (body : Eval α) : Run α := ExceptT.adapt failure body

def define (root : ScopeId) (argument : String) : Run Unit := do
  let (name, text) ← reading id (splitAssignment argument)
  let e ← reading (.definitionUnreadable name) (readFormula text)
  modify (·.define root name e)

/-- A value is bound before the next one is evaluated, so that later ones may refer to it. -/
def set (root : ScopeId) (argument : String) : Run Unit := do
  let (name, text) ← reading id (splitAssignment argument)
  let e ← reading (.valueUnreadable name) (readFormula text)
  let v ← evaluating (.valueFailed name) (Eval.evaluate e root)
  modify (·.add root name v)

def evaluate (root : ScopeId) (text : String) : Run (String × Value) := do
  let e ← reading (.unreadable text) (readFormula text)
  return (text, ← evaluating (.failed text) (Eval.evaluate e root))

/-- The lines of an input. A carriage return before a line end belongs to it, and the last line needs no end. -/
def lines (input : String) : List String :=
  let parts := input.splitOn "\n"
  let ended := parts.dropLast.map fun l => if l.endsWith "\r" then (l.dropEnd 1).toString else l
  let last := parts.getLast?.getD ""
  if last.isEmpty then ended else ended ++ [last]

/-- The expressions to evaluate. -/
def expressions (o : Options) (input : String) : List String :=
  if o.expressions.isEmpty then (lines input).filter fun l => !(Text.trim l.toList).isEmpty else o.expressions

/-- The values of all expressions, after all definitions and then all values were put in. -/
def results (o : Options) (input : String) : Run (List (String × Value)) := do
  let root ← modifyGet (·.addRoot (o.maxDepth.getD defaultMaxDepth))
  o.definitions.forM (define root)
  o.values.forM (set root)
  (expressions o input).mapM (evaluate root)

def isUnspecified : Value → Bool
  | .unspecified => true
  | _ => false

/-- **What is written**: a line for every value that is specified, or one indented document. -/
def write : Format → List (String × Value) → String
  | .text, results => String.join ((results.filter (!isUnspecified ·.2)).map fun r => r.2.text ++ "\n")
  | .json, results =>
    (Json.array (results.map fun (text, v) => .object [("expression", .string text), ("value", v.json)])).indented 0
      ++ "\n"

/-- **The outcome of a run.** -/
structure Outcome where
  code : Nat
  output : String
  errors : String
deriving DecidableEq, Repr

/-- What is reported for arguments that are not well formed. -/
def usage : String :=
  "usage: [--define NAME=EXPR]... [--set NAME=EXPR]... [--max-depth N] [--format text|json] [--] [EXPR]...\n"

/-- The outcome for options that were read. -/
def runOptions (o : Options) (input : String) : Outcome :=
  match ((results o input).run .empty).1 with
  | .ok rs => ⟨0, write (o.format.getD .text) rs, ""⟩
  | .error f => ⟨1, "", f.report⟩

/-- **A run of the command** with arguments and an input. -/
def run (args : List String) (input : String) : Outcome :=
  match read? args with
  | some o => runOptions o input
  | none => ⟨2, "", usage⟩

end CommandLine
end LazyFormula
