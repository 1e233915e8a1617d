import LazyFormula.Evaluation
import LazyFormula.Root
import LazyFormula.Store.Lifetime
/-!
# Host sessions

A host works with the store through handles on scopes and registers that keep values. It takes one step at a time; a
step that fails is answered with its error and the session goes on. After every step the scopes that nothing keeps
alive die.
-/
namespace LazyFormula

/-- **A value that a host gives**, by its parts or by the register that keeps it. -/
inductive Operand where
  | number (n : Number)
  | bool (b : Bool)
  | symbol (name : String)
  | list (items : List Operand)
  | unspecified
  | register (name : String)

/-- **A step of a host.** Scopes are given by their handles; `keep` names the register that keeps the answer. -/
inductive Step where
  | root (handle : String) (maxDepth : Nat) (bare : Bool)
  | child (scope handle : String) (values : List (String × Operand))
  | parent (scope : String) (handle : Option String)
  | dropHandle (handle : String)
  | dropRegister (register : String)
  | host (register : String) (action : Action)
  | callCount (register : String)
  | define (scope name text : String) (grammar : Option Grammar)
  /-- Evaluates in a new child of the scope. -/
  | evaluate (scope text : String) (grammar : Option Grammar) (keep : Option String)
  /-- Evaluates in the scope itself. -/
  | evaluateIn (scope text : String) (grammar : Option Grammar) (keep : Option String)
  | lookup (scope name : String) (keep : Option String)
  | assign (scope name : String) (value : Operand)
  | add (scope name : String) (value : Operand)
  | update (scope : String) (values : List (String × Operand))
  | contains (scope name : String)
  | hasValue (scope name : String)
  | definition (scope name : String)
  | listenerCount (scope : String)
  | inspectScope (scope : String)
  | call (f : Operand) (args : List Operand) (keep : Option String)
  | equal (a b : Operand)
  | inspectValue (value : Operand)

/-- **The answer to a step.** -/
inductive Answer where
  | done
  | bool (b : Bool)
  | count (n : Nat)
  | value (v : Value)
  | definition (e : Option Expr)
  | scope (c : Scope)
  | inspected (v : Value)
  | unreadable (e : SyntaxError)
  | failed (e : EvalError)
  /-- No handle or register has this name. -/
  | unknown (name : String)

/-- **A session**: the store, and the names that the host gave to scopes and values. -/
structure Session where
  store : Store
  handles : Bindings ScopeId
  registers : Bindings Value

namespace Session

/-- A new root, with the builtins or without any. -/
def addRoot (st : Store) (maxDepth : Nat) (bare : Bool) : ScopeId × Store :=
  if bare then st.addOrphan maxDepth else st.addRoot maxDepth

/-- The scopes that the host keeps alive. -/
def held (n : Session) : List ScopeId := n.handles.values ++ n.registers.values.flatMap Value.held

/-- The scopes that nothing keeps alive die. -/
def sweep (n : Session) : Session := { n with store := n.store.sweep n.held }

/-- **A session with one handle**, `root`. -/
def start (maxDepth : Nat) (bare : Bool) : Session :=
  let (root, st) := addRoot .empty maxDepth bare
  ⟨{ st with log := [] }, .ofList [("root", root)], .empty⟩

/-- What a step does: a change of the session, or an answer that ends the step early. -/
abbrev Act := ExceptT Answer (StateM Session)

namespace Act

def scope (handle : String) : Act ScopeId := do
  match (← get).handles.get? handle with
  | some s => return s
  | none => throw (.unknown handle)

def register (name : String) : Act Value := do
  match (← get).registers.get? name with
  | some v => return v
  | none => throw (.unknown name)

mutual
/-- The value of an operand. -/
def operand : Operand → Act Value
  | .number n => return .number n
  | .bool b => return .bool b
  | .symbol name => return .symbol name
  | .list items => return .list (← operands items)
  | .unspecified => return .unspecified
  | .register name => register name

def operands : List Operand → Act (List Value)
  | [] => return []
  | o :: os => do return (← operand o) :: (← operands os)
end

/-- The values of named operands. -/
def bindings (values : List (String × Operand)) : Act (List (String × Value)) :=
  values.mapM fun (name, o) => do return (name, ← operand o)

/-- A change of the store. -/
def modifyStore (f : Store → Store) : Act Unit := modify fun n => { n with store := f n.store }

/-- Something of the store, with the store changed. -/
def modifyGetStore {α : Type} (f : Store → α × Store) : Act α :=
  modifyGet fun n => let (a, st) := f n.store; (a, { n with store := st })

/-- A computation on the store; its failure is the answer. -/
def eval {α : Type} (body : Eval α) : Act α := do
  match ← modifyGetStore body.run with
  | .ok a => return a
  | .error e => throw (.failed e)

/-- Reading a text, in the notation it is taken for unless one is given. Only the choice of a notation is logged. -/
def read (text : String) (grammar : Option Grammar) : Act Expr := do
  let taken := grammar.getD (.detect text.toList)
  if grammar.isNone then modifyStore (·.record (.reading text taken))
  match taken.read text.toList with
  | .ok e => return e
  | .error e => throw (.unreadable e)

def nameScope (handle : String) (s : ScopeId) : Act Unit :=
  modify fun n => { n with handles := n.handles.insert handle s }

def nameValue (register : String) (v : Value) : Act Unit :=
  modify fun n => { n with registers := n.registers.insert register v }

/-- A value as the answer, kept if a register is named. -/
def answer (keep : Option String) (v : Value) : Act Answer := do
  if let some register := keep then nameValue register v
  return .value v

end Act

open Act in
/-- **What a step does**, without the end of the lives of scopes. -/
def act : Step → Act Answer
  | .root handle maxDepth bare => do
    nameScope handle (← modifyGetStore fun st => addRoot st maxDepth bare)
    return .done
  | .child parent handle values => do
    let s ← scope parent
    let values ← bindings values
    nameScope handle (← modifyGetStore (·.addChild s values))
    return .done
  | .parent child handle => do
    match ((← get).store.scope (← scope child)).parent? with
    | none => return .bool false
    | some parent =>
      if let some handle := handle then nameScope handle parent
      return .bool true
  | .dropHandle handle => do
    let known := (← get).handles.contains handle
    modify fun n => { n with handles := n.handles.filter fun name _ => name != handle }
    return .bool known
  | .dropRegister register => do
    let known := (← get).registers.contains register
    modify fun n => { n with registers := n.registers.filter fun name _ => name != register }
    return .bool known
  | .host register action => do
    let v := Value.builtin ⟨← modifyGetStore (·.takeFresh), action⟩
    nameValue register v
    return .value v
  | .callCount name => do
    match ← register name with
    | .builtin b => return .count ((← get).store.callsOf b)
    | _ => return .unknown name
  | .define handle name text grammar => do
    let s ← scope handle
    let e ← read text grammar
    modifyStore (·.define s name e)
    return .done
  | .evaluate handle text grammar keep => do
    let s ← scope handle
    let e ← read text grammar
    answer keep (← eval (Eval.evaluate e s))
  | .evaluateIn handle text grammar keep => do
    let s ← scope handle
    let e ← read text grammar
    answer keep (← eval (Eval.evaluateIn e s))
  | .lookup handle name keep => do
    let s ← scope handle
    answer keep (← eval (Eval.lookup s name))
  | .assign handle name value => do
    let s ← scope handle
    let v ← operand value
    match (← get).store.assign? s name v with
    | some st => modifyStore fun _ => st
    | none => throw (.failed (.unassignable name))
    return .done
  | .add handle name value => do
    let s ← scope handle
    let v ← operand value
    modifyStore (·.add s name v)
    return .done
  | .update handle values => do
    let s ← scope handle
    let values ← bindings values
    modifyStore (·.update s values)
    return .done
  | .contains handle name => do return .bool ((← get).store.contains (← scope handle) name)
  | .hasValue handle name => do return .bool (((← get).store.scope (← scope handle)).slots.contains name)
  | .definition handle name => do
    return .definition (((← get).store.scope (← scope handle)).definitions.get? name)
  | .listenerCount handle => do return .count ((← get).store.listenerCount (← scope handle))
  | .inspectScope handle => do return .scope ((← get).store.scope (← scope handle))
  | .call f args keep => do
    let f ← operand f
    let args ← operands args
    answer keep (← eval (Eval.call f args))
  | .equal a b => do return .bool ((← operand a).same (← operand b))
  | .inspectValue value => do return .inspected (← operand value)

/-- **A step of a session**: its answer, what it logged and the session after it. -/
def step (n : Session) (s : Step) : Answer × List Event × Session :=
  let (outcome, n) := (act s).run n
  let answer := match outcome with
    | .ok a => a
    | .error a => a
  let logged := n.store.log.reverse
  (answer, logged, sweep { n with store := { n.store with log := [] } })

/-- **Steps of a session**: the answer to each with what it logged, and the session after them. -/
def run (n : Session) : List Step → List (Answer × List Event) × Session
  | [] => ([], n)
  | s :: steps =>
    let (answer, logged, n) := n.step s
    let (answers, n) := run n steps
    ((answer, logged) :: answers, n)

end Session
end LazyFormula
