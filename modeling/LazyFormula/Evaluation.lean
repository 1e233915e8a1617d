import LazyFormula.Form
import LazyFormula.Primitive.Run
import LazyFormula.Store.Write
/-!
# Evaluation

An expression is evaluated in a scope. Each evaluation counts against the bound of the tree that its scope belongs to,
so the evaluations that can still be nested, over all trees, bound the recursion: `evaluateWithin` gives one unit of
this bound to every nested evaluation, and `evaluate` starts with all that the store has left.

A failed evaluation keeps what it wrote and memoized before it failed.
-/
namespace LazyFormula

/-- **A computation on the store** that may fail. -/
abbrev Eval := ExceptT EvalError (StateM Store)

namespace Eval

/-- The outcome of a computation that leaves the store alone. -/
def ofExcept {α : Type} : Except EvalError α → Eval α
  | .ok a => pure a
  | .error e => throw e

/-- A computation as one more evaluation in progress in the tree of a scope, if the bound of the tree admits one. The
count goes down again also after a failure. -/
def nested {α : Type} (s : ScopeId) (body : Eval α) : Eval α := fun st =>
  let tree := (st.scope s).tree
  let limit := (st.treeOf s).maxDepth
  if (st.treeOf s).depth < limit then
    let (outcome, st) := body (st.setDepth tree (· + 1))
    (outcome, st.setDepth tree (· - 1))
  else (.error (.depthLimit limit), st)

/-- A new child of a scope. -/
def child (parent : ScopeId) (values : List (String × Value)) : Eval ScopeId :=
  modifyGet (·.addChild parent values)

def record (e : Event) : Eval Unit := modify (·.record e)

end Eval

/-- How a nested evaluation is done. -/
abbrev Evaluator := Expr → ScopeId → Eval Value

/-! ## Names -/

section
variable (ev : Evaluator)

/-- The value of a definition, evaluated in a scope of its own below the one that holds it. If nothing but memoized
values ended up there, the procedures in the value are made to run in the holding scope instead. -/
def force (s : ScopeId) (name : String) (e : Expr) : Eval Value := do
  Eval.record (.forcing s name e)
  let scratch ← Eval.child s []
  let v ← ev e scratch
  return if ((← get).scope scratch).holdsOnlyDerived then v.recapture scratch s else v

/-- The value that was found for a name, memoized in a scope, unless the scope dropped values since the look-up
began. -/
def memoize (s : ScopeId) (name : String) (generation : Nat) (v : Value) : Eval Unit :=
  modify fun st => if (st.scope s).generation = generation then st.put s name v .derived else st

/-- **The value of a name**, looked up in scopes one after the other; every scope on the way memoizes it. -/
def lookupAlong (name : String) : List ScopeId → Eval Value
  | [] => throw (.unresolved name)
  | s :: up => do
    let c := (← get).scope s
    match c.slots.get? name with
    | some slot =>
      Eval.record (.cacheHit s name)
      return slot.value.attach (← get).alive
    | none =>
      let v ← match c.definitions.get? name with
        | some e => force ev s name e
        | none => lookupAlong name up
      memoize s name c.generation v
      return v

/-- The value of a name in a scope. -/
def lookup (s : ScopeId) (name : String) : Eval Value := do lookupAlong ev name ((← get).chain s)

/-! ## Calls -/

/-- A procedure is called: its body is evaluated in a new scope below its own, where the arguments are bound. -/
def callProcedure (p : Procedure) (args : List Value) : Eval Value := do
  let params := p.lambda.params
  if args.length ≠ params.length then throw (.parameterCount params args.length)
  if p.hold = .weak && !(← get).alive p.scope then throw .scopeGone
  ev p.lambda.body (← Eval.child p.scope (params.zip args))

/-- A builtin is called; `call` is how it calls its arguments. -/
def callBuiltin (call : Value → List Value → Eval Value) (b : Builtin) (args : List Value) : Eval Value :=
  match b.action with
  | .primitive p => Eval.ofExcept (p.run args)
  | .map => do
    let (f, vs) ← Eval.ofExcept (Primitive.two .map args)
    let vs ← Eval.ofExcept (Primitive.items .map vs)
    return .list (← vs.mapM fun v => call f [v])
  | .count => do
    modify (·.countCall b)
    return args.head?.getD .nil
  | .fail => throw (.hostFailure args.length)
  | .forward =>
    match args with
    | [] => return .unspecified
    | f :: args => call f args

/-- A call with fewer arguments than a number. A builtin calls its arguments with fewer arguments than it got itself,
so the number bounds how often calls are passed on. -/
def callBelow : Nat → Value → List Value → Eval Value
  | 0, f, _ => throw (.notCallable f)
  | n + 1, f, args =>
    match f with
    | .procedure p => callProcedure ev p args
    | .builtin b => callBuiltin (callBelow n) b args
    | f => throw (.notCallable f)

/-- **A value is called** with arguments. -/
def callValue (f : Value) (args : List Value) : Eval Value := callBelow ev (args.length + 1) f args

/-! ## Expressions -/

/-- The value of a form. -/
def evaluateForm (s : ScopeId) : Form → Eval Value
  | .nil => return .nil
  | .quote e => return .ofExpr e
  | .conditional test consequent alternative => do
    if (← ev test s).truthy then ev consequent s else ev alternative s
  | .define name e => do
    let v ← ev e s
    modify (·.add s name v)
    return .unspecified
  | .assign name e => do
    let v ← ev e s
    match (← get).assign? s name v with
    | some st => set st
    | none => throw (.unassignable name)
    return .unspecified
  | .lambda params body => do
    let id ← modifyGet (·.takeFresh)
    return .procedure ⟨⟨id, params, body⟩, s, .strong⟩
  | .apply callee args => do
    let f ← ev callee s
    let args ← args.mapM (ev · s)
    callValue ev f args

/-- One evaluation, given how the nested ones are done. -/
def evaluateStep (e : Expr) (s : ScopeId) : Eval Value :=
  Eval.nested s <|
    match e with
    | .number n => return .number n
    | .symbol name => lookup ev s name
    | .list items => do evaluateForm ev s (← Eval.ofExcept (Form.ofItems items))

end

/-- Evaluation with a bound on nesting. Without any left, no tree admits an evaluation. -/
def evaluateWithin : Nat → Evaluator
  | 0 => fun _ s => do throw (.depthLimit ((← get).treeOf s).maxDepth)
  | depth + 1 => evaluateStep (evaluateWithin depth)

namespace Eval

/-- What is done with the evaluator that the store admits now. -/
def withEvaluator {α : Type} (body : Evaluator → Eval α) : Eval α := do body (evaluateWithin (← get).depthLeft)

/-- **The value of an expression in a scope.** -/
def evaluateIn (e : Expr) (s : ScopeId) : Eval Value := withEvaluator fun ev => ev e s

/-- **The value of an expression below a scope**: it is evaluated in a new child, so that what it binds does not stay
in the scope. -/
def evaluate (e : Expr) (s : ScopeId) : Eval Value := do evaluateIn e (← child s [])

/-- **The value of a name in a scope.** -/
def lookup (s : ScopeId) (name : String) : Eval Value := withEvaluator fun ev => LazyFormula.lookup ev s name

/-- **The value of a call.** -/
def call (f : Value) (args : List Value) : Eval Value := withEvaluator fun ev => callValue ev f args

end Eval
end LazyFormula
