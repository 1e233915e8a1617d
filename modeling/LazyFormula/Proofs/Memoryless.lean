import LazyFormula.Proofs.Computations
import Mathlib.Logic.Encodable.Basic
import Mathlib.Logic.Equiv.List
import Mathlib.Tactic.DeriveEncodable
/-!
# Evaluation without memory

What a field means should not depend on what was evaluated before it. Here it is evaluated beside the store, without
memoized values: scopes hold only what is bound in them, and what a definition refers to is looked up in a table. Every
scope and every lambda is known by where it comes from, so that it has the same name whenever it is made.

How a definition is referred to is left open, as are the table and what is kept beside the world. Two ways to refer that
answer alike give evaluations that answer alike (`run_lock`).
-/
namespace LazyFormula

instance encodableChar : Encodable Char := .ofLeftInjection Char.toNat (fun n => some (Char.ofNat n)) fun c => by simp

instance encodableString : Encodable String :=
  .ofLeftInjection String.toList (fun cs => some (String.ofList cs)) fun s => by simp

/-- **Where a scope or a lambda comes from.** -/
inductive Origin where
  | builtins
  | root
  /-- Made by the evaluation in progress, after so many others. -/
  | own (k : Nat)
  /-- Made when a definition was evaluated, after so many others. -/
  | settled (name : String) (k : Nat)
deriving DecidableEq, Encodable

/-- The number of an origin. -/
def Origin.code (o : Origin) : Nat := Encodable.encode o

def Origin.ofCode? (n : Nat) : Option Origin := Encodable.decode n

@[simp] theorem Origin.ofCode?_code (o : Origin) : ofCode? o.code = some o := Encodable.encodek o

theorem Origin.code_injective : Function.Injective Origin.code := Encodable.encode_injective

namespace Memoryless

/-- **A scope that memoizes nothing.** -/
structure Frame where
  ancestors : List Origin
  bound : List (String × Value)

/-- **What an evaluation makes**: scopes, lambdas, and the definitions that it referred to. -/
structure World where
  frames : List Frame
  lambdas : Nat
  consulted : List String

/-- **What evaluations start from**: the definitions of a root, what is bound there, and the builtins. -/
structure Book where
  definitions : List (String × Expr)
  given : List (String × Value)
  standard : List (String × Value)

/-- What became of a definition: its value with the scopes that were made, and the definitions that it refers to. -/
structure Entry where
  value : Value
  frames : List Frame
  consulted : List String

/-- What is known of the definitions. -/
abbrev Table := String → Option (Except EvalError Entry)

/-- Why an evaluation has no value: it failed, or it needs more than it was given. -/
inductive Halt where
  | failed (e : EvalError)
  | spent

/-- A computation on a world and on something beside it. -/
abbrev Run (σ : Type) := ExceptT Halt (StateM (World × σ))

def World.empty : World := ⟨[], 0, []⟩

/-- The world in which an evaluation below the root starts. -/
def World.scratch : World := ⟨[⟨[.root, .builtins], []⟩], 0, []⟩

/-- A world with a definition consulted. -/
def World.consult (w : World) (name : String) : World := { w with consulted := name :: w.consulted }

/-- A world with one more scope. -/
def World.push (w : World) (f : Frame) : Origin × World := (.own w.frames.length, { w with frames := w.frames ++ [f] })

/-- A world with one more lambda. -/
def World.takeLambda (w : World) : Origin × World := (.own w.lambdas, { w with lambdas := w.lambdas + 1 })

def Frame.bind (name : String) (v : Value) (f : Frame) : Frame := { f with bound := (name, v) :: f.bound }

/-- A world with a value bound in one of its scopes. -/
def World.bind (w : World) (name : String) (v : Value) : Origin → World
  | .own k => { w with frames := w.frames.modify k (.bind name v) }
  | _ => w

section
variable (K : Book) (T : Table)

/-- The scope of an origin. -/
def frame? (w : World) : Origin → Option Frame
  | .builtins => some ⟨[], K.standard⟩
  | .root => some ⟨[.builtins], K.given⟩
  | .own k => w.frames[k]?
  | .settled name k => do
    match ← T name with
    | .ok entry => entry.frames[k]?
    | .error _ => none

variable {σ τ α β : Type}

/-! ## Computations -/

def fail (e : EvalError) : Run σ α := throw (.failed e)

def ofExcept : Except EvalError α → Run σ α
  | .ok a => pure a
  | .error e => fail e

/-- What only the world takes part in. -/
def onWorld (g : World → α × World) : Run σ α := fun s => (.ok (g s.1).1, ((g s.1).2, s.2))

def frame (o : Origin) : Run σ Frame := fun s =>
  match frame? K T s.1 o with
  | some f => (.ok f, s)
  | none => (.error .spent, s)

def child (parent : Origin) (values : List (String × Value)) : Run σ Origin := do
  let f ← frame K T parent
  onWorld (·.push ⟨parent :: f.ancestors, values.reverse⟩)

/-! ## Evaluation -/

/-- The value of a name, looked up in scopes one after the other; `refer` is how definitions are referred to. -/
def lookupAlong (refer : String → Run σ Value) (name : String) : List Origin → Run σ Value
  | [] => fail (.unresolved name)
  | o :: up => do
    let f ← frame K T o
    match f.bound.lookup name with
    | some v => return v
    | none => if o = .root ∧ (K.definitions.lookup name).isSome then refer name else lookupAlong refer name up

def lookup (refer : String → Run σ Value) (o : Origin) (name : String) : Run σ Value := do
  let f ← frame K T o
  lookupAlong K T refer name (o :: f.ancestors)

variable (ev : Expr → Origin → Run σ Value)

def callProcedure (p : Procedure) (args : List Value) : Run σ Value := do
  let params := p.lambda.params
  if args.length ≠ params.length then fail (.parameterCount params args.length)
  else
    match Origin.ofCode? p.scope with
    | some o => ev p.lambda.body (← child K T o (params.zip args))
    | none => throw .spent

def callBuiltin (call : Value → List Value → Run σ Value) (b : Builtin) (args : List Value) : Run σ Value :=
  match b.action with
  | .primitive p => ofExcept (p.run args)
  | .map => do
    let (f, vs) ← ofExcept (Primitive.two .map args)
    let vs ← ofExcept (Primitive.items .map vs)
    return .list (← vs.mapM fun v => call f [v])
  | .count => return args.head?.getD .nil
  | .fail => fail (.hostFailure args.length)
  | .forward =>
    match args with
    | [] => return .unspecified
    | f :: args => call f args

def callBelow : Nat → Value → List Value → Run σ Value
  | 0, f, _ => fail (.notCallable f)
  | n + 1, f, args =>
    match f with
    | .procedure p => callProcedure K T ev p args
    | .builtin b => callBuiltin (callBelow n) b args
    | f => fail (.notCallable f)

/-- The value of a form. Nothing is assigned here. -/
def evaluateForm (o : Origin) : Form → Run σ Value
  | .nil => return .nil
  | .quote e => return .ofExpr e
  | .conditional test consequent alternative => do
    if (← ev test o).truthy then ev consequent o else ev alternative o
  | .define name e => do
    let v ← ev e o
    onWorld fun w => (Value.unspecified, w.bind name v o)
  | .assign .. => throw .spent
  | .lambda params body => do
    let l ← onWorld (·.takeLambda)
    return .procedure ⟨⟨l.code, params, body⟩, o.code, .strong⟩
  | .apply callee args => do
    let f ← ev callee o
    let args ← args.mapM (ev · o)
    callBelow K T ev (args.length + 1) f args

def step (refer : String → Run σ Value) (e : Expr) (o : Origin) : Run σ Value :=
  match e with
  | .number n => return .number n
  | .symbol name => lookup K T refer o name
  | .list items => do evaluateForm K T ev o (← ofExcept (Form.ofItems items))

/-- **Evaluation**, so many levels deep. -/
def run (refer : (Expr → Origin → Run σ Value) → String → Run σ Value) :
    Nat → Expr → Origin → Run σ Value
  | 0, _, _ => throw .spent
  | n + 1, e, o => step K T (run refer n) (refer (run refer n)) e o

end

/-! ## Two evaluations side by side -/

variable {K : Book} {T T' : Table} {σ τ α β : Type} {Q : List String → σ → τ → Prop} {I : σ → Prop}

/-- **An outcome that another one follows**: with the same value and world, and what lies beside them in a relation, or
with the same error. An evaluation that needs more than it was given is not followed. -/
inductive Follows (Q : List String → σ → τ → Prop) (I : σ → Prop) :
    Except Halt α × (World × σ) → Except Halt α × (World × τ) → Prop
  | spent {w : World} {q : σ} (h : I q) (p : Except Halt α × (World × τ)) : Follows Q I (.error .spent, (w, q)) p
  | failed {w w' : World} {q : σ} (h : I q) (r : τ) (e : EvalError) :
      Follows Q I (.error (.failed e), (w, q)) (.error (.failed e), (w', r))
  | same {a : α} {w : World} {q : σ} {r : τ} (h : Q w.consulted q r) : Follows Q I (.ok a, (w, q)) (.ok a, (w, r))

/-- **Computations in lock-step.** -/
def Lock (Q : List String → σ → τ → Prop) (I : σ → Prop) (x : Run σ α) (y : Run τ α) : Prop :=
  ∀ (w : World) (q : σ) (r : τ), Q w.consulted q r → Follows Q I (x (w, q)) (y (w, r))

namespace Lock

theorem pure (a : α) : Lock Q I (pure a : Run σ α) (pure a : Run τ α) := fun _ _ _ h => .same h

theorem fail (hI : ∀ c q r, Q c q r → I q) (e : EvalError) : Lock Q I (fail e : Run σ α) (fail e : Run τ α) :=
  fun _ _ r h => .failed (hI _ _ _ h) r e

theorem spent (hI : ∀ c q r, Q c q r → I q) (y : Run τ α) : Lock Q I (throw .spent : Run σ α) y :=
  fun _ _ _ h => .spent (hI _ _ _ h) _

theorem bind {x : Run σ α} {y : Run τ α} {f : α → Run σ β} {g : α → Run τ β} (hx : Lock Q I x y)
    (hf : ∀ a, Lock Q I (f a) (g a)) : Lock Q I (x >>= f) (y >>= g) := by
  intro w q r h
  rw [bind_apply, bind_apply]
  have hr := hx w q r h
  generalize x (w, q) = p at hr ⊢
  generalize y (w, r) = p' at hr ⊢
  cases hr with
  | spent h => exact .spent h _
  | failed h r e => exact .failed h r e
  | same h => exact hf _ _ _ _ h

theorem ofExcept (hI : ∀ c q r, Q c q r → I q) (x : Except EvalError α) :
    Lock Q I (ofExcept x : Run σ α) (ofExcept x : Run τ α) := by
  cases x with
  | ok a => exact pure a
  | error e => exact fail hI e

theorem onWorld {g : World → α × World} (hg : ∀ w, (g w).2.consulted = w.consulted) :
    Lock Q I (onWorld g : Run σ α) (onWorld g : Run τ α) :=
  fun w _ _ h => .same ((hg w).symm ▸ h)

theorem mapM {f : α → Run σ β} {g : α → Run τ β} (hf : ∀ a, Lock Q I (f a) (g a)) : ∀ l : List α,
    Lock Q I (l.mapM f) (l.mapM g)
  | [] => pure []
  | a :: l => by
    rw [List.mapM_cons, List.mapM_cons]
    exact (hf a).bind fun b => (mapM hf l).bind fun bs => pure _

end Lock

section
variable (hI : ∀ c q r, Q c q r → I q)
  (hT : ∀ w o f, frame? K T w o = some f → frame? K T' w o = some f)
include hI hT

theorem frame_lock (o : Origin) : Lock Q I (frame K T o : Run σ Frame) (frame K T' o : Run τ Frame) := by
  intro w q r h
  unfold frame
  cases hf : frame? K T w o with
  | none => exact .spent (hI _ _ _ h) _
  | some f =>
    rw [hT w o f hf]
    exact .same h

theorem child_lock (parent : Origin) (values : List (String × Value)) :
    Lock Q I (child K T parent values : Run σ Origin) (child K T' parent values : Run τ Origin) :=
  (frame_lock hI hT parent).bind fun _ => .onWorld fun _ => rfl

variable {refer : String → Run σ Value} {refer' : String → Run τ Value}

theorem lookupAlong_lock (hrefer : ∀ name, Lock Q I (refer name) (refer' name)) (name : String) :
    ∀ scopes : List Origin, Lock Q I (lookupAlong K T refer name scopes) (lookupAlong K T' refer' name scopes)
  | [] => .fail hI _
  | o :: up => by
    refine (frame_lock hI hT o).bind fun f => ?_
    cases f.bound.lookup name with
    | some v => exact .pure v
    | none =>
      dsimp only
      split
      · exact hrefer name
      · exact lookupAlong_lock hrefer name up

theorem lookup_lock (hrefer : ∀ name, Lock Q I (refer name) (refer' name)) (o : Origin) (name : String) :
    Lock Q I (lookup K T refer o name) (lookup K T' refer' o name) :=
  (frame_lock hI hT o).bind fun _ => lookupAlong_lock hI hT hrefer name _

variable {ev : Expr → Origin → Run σ Value} {ev' : Expr → Origin → Run τ Value}
  (hev : ∀ e o, Lock Q I (ev e o) (ev' e o))
include hev

theorem callProcedure_lock (p : Procedure) (args : List Value) :
    Lock Q I (callProcedure K T ev p args) (callProcedure K T' ev' p args) := by
  unfold callProcedure
  dsimp only
  split
  · exact .fail hI _
  · cases Origin.ofCode? p.scope with
    | none => exact .spent hI _
    | some o => exact (child_lock hI hT o _).bind fun _ => hev _ _

omit hT hev in
theorem callBuiltin_lock {call : Value → List Value → Run σ Value} {call' : Value → List Value → Run τ Value}
    (hcall : ∀ f args, Lock Q I (call f args) (call' f args)) (b : Builtin) (args : List Value) :
    Lock Q I (callBuiltin call b args) (callBuiltin call' b args) := by
  unfold callBuiltin
  cases b.action with
  | primitive p => exact .ofExcept hI _
  | map =>
    refine Lock.bind (.ofExcept hI _) fun x => Lock.bind (.ofExcept hI _) fun vs => ?_
    exact (Lock.mapM (fun v => hcall _ _) vs).bind fun _ => .pure _
  | count => exact .pure _
  | fail => exact .fail hI _
  | forward =>
    cases args with
    | nil => exact .pure _
    | cons f args => exact hcall f args

theorem callBelow_lock : ∀ (n : Nat) (f : Value) (args : List Value),
    Lock Q I (callBelow K T ev n f args) (callBelow K T' ev' n f args)
  | 0, _, _ => .fail hI _
  | n + 1, f, args => by
    cases f with
    | procedure p => exact callProcedure_lock hI hT hev p args
    | builtin b => exact callBuiltin_lock hI (callBelow_lock n) b args
    | number | bool | symbol | list | unspecified => exact .fail hI _

theorem evaluateForm_lock (o : Origin) (form : Form) :
    Lock Q I (evaluateForm K T ev o form) (evaluateForm K T' ev' o form) := by
  cases form with
  | nil | quote e => exact .pure _
  | conditional test consequent alternative =>
    refine (hev test o).bind fun v => ?_
    split
    · exact hev consequent o
    · exact hev alternative o
  | define name e =>
    refine (hev e o).bind fun v => .onWorld fun w => ?_
    cases o <;> rfl
  | assign name e => exact .spent hI _
  | lambda params body => exact Lock.bind (.onWorld fun _ => rfl) fun _ => .pure _
  | apply callee args =>
    exact (hev callee o).bind fun f => (Lock.mapM (fun a => hev a o) args).bind fun vs =>
      callBelow_lock hI hT hev _ f vs

theorem step_lock (hrefer : ∀ name, Lock Q I (refer name) (refer' name)) (e : Expr) (o : Origin) :
    Lock Q I (step K T ev refer e o) (step K T' ev' refer' e o) := by
  cases e with
  | number n => exact .pure _
  | symbol name => exact lookup_lock hI hT hrefer o name
  | list items => exact (Lock.ofExcept hI _).bind fun form => evaluateForm_lock hI hT hev o form

end

/-- **Evaluations that refer to definitions in lock-step are in lock-step.** -/
theorem run_lock {ι : Type} {Q : ι → List String → σ → τ → Prop} (hI : ∀ i c q r, Q i c q r → I q)
    (hT : ∀ w o f, frame? K T w o = some f → frame? K T' w o = some f)
    {refer : (Expr → Origin → Run σ Value) → String → Run σ Value}
    {refer' : (Expr → Origin → Run τ Value) → String → Run τ Value}
    (hrefer : ∀ m n, (∀ i e o, Lock (Q i) I (run K T refer m e o) (run K T' refer' n e o)) → ∀ i name,
      Lock (Q i) I (refer (run K T refer m) name) (refer' (run K T' refer' n) name)) :
    ∀ m n : Nat, m ≤ n → ∀ i e o, Lock (Q i) I (run K T refer m e o) (run K T' refer' n e o)
  | 0, _, _ => fun _ _ _ _ _ _ h => .spent (hI _ _ _ _ h) _
  | m + 1, n + 1, hmn => fun i e o =>
    have ih := run_lock hI hT hrefer m n (Nat.le_of_succ_le_succ hmn)
    step_lock (hI i) hT (ih i) (hrefer m n ih i) e o

end Memoryless
end LazyFormula
