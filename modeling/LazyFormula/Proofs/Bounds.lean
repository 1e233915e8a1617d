import LazyFormula.Proofs.Lifetimes
import LazyFormula.Proofs.Roots
import LazyFormula.Session
/-!
# Sessions under a higher bound

The same steps are taken in two sessions whose roots differ in the bound on nested evaluations alone. As long as no
step is answered in the session with the lower bound that this bound was hit, the answers and the logs are the same,
and the two sessions differ in the bound and in nothing else (`Session.higher_bound_agrees`).
-/
namespace LazyFormula

/-- Trees of which the first one has another bound. -/
def raised (bound : Nat) (T : Array Tree) : Array Tree := T.modify 0 fun t => { t with maxDepth := bound }

theorem getElem?_raised (bound : Nat) (T : Array Tree) (i : Nat) :
    (raised bound T)[i]? = if i = 0 then T[i]?.map fun t => { t with maxDepth := bound } else T[i]? := by
  rw [raised, Array.getElem?_modify]
  by_cases h : i = 0
  · simp [h]
  · rw [if_neg (Ne.symm h), if_neg h]

@[simp] theorem size_raised (bound : Nat) (T : Array Tree) : (raised bound T).size = T.size := Array.size_modify ..

theorem push_raised (bound : Nat) {T : Array Tree} (hT : T.size ≠ 0) (t : Tree) :
    (raised bound T).push t = raised bound (T.push t) := by
  refine Array.ext_getElem? fun i => ?_
  rw [Array.getElem?_push, size_raised, getElem?_raised, getElem?_raised, Array.getElem?_push]
  by_cases hi : i = T.size
  · rw [if_pos hi, if_pos hi, if_neg fun h0 => hT (hi.symm.trans h0)]
  · rw [if_neg hi, if_neg hi]

variable {low high : Nat} {T : Array Tree}

theorem roomier_raised (h : low ≤ high) (hT : T[0]? = some ⟨low, 0⟩) : Roomier T (raised high T) := by
  intro i
  by_cases hi : i = 0
  · unfold roomAt
    rw [getElem?_raised, if_pos hi, hi, hT]
    exact h
  · have hsame : roomAt (raised high T) i = roomAt T i := by rw [roomAt, getElem?_raised, if_neg hi, roomAt]
    exact Nat.le_of_eq hsame.symm

namespace Store

/-- A store of which the first tree has another bound. -/
def raise (bound : Nat) (st : Store) : Store := st.withTrees (raised bound st.trees)

theorem depthLeft_raise {st : Store} (h : low ≤ high) (hT : st.trees[0]? = some ⟨low, 0⟩) :
    st.depthLeft ≤ (st.raise high).depthLeft := by
  have hlist : st.trees.toList = ⟨low, 0⟩ :: st.trees.toList.tail := by
    rw [← Array.getElem?_toList] at hT
    cases hl : st.trees.toList with
    | nil => rw [hl] at hT; cases hT
    | cons t rest => rw [hl] at hT; cases hT; rfl
  generalize st.trees.toList.tail = rest at hlist
  have hraised : (raised high st.trees).toList = ⟨high, 0⟩ :: rest := by
    rw [raised, Array.toList_modify, hlist]
    rfl
  have htrees : (st.raise high).trees = raised high st.trees := rfl
  rw [depthLeft_eq, depthLeft_eq, htrees, hraised, hlist]
  exact Nat.add_le_add_right h _

theorem addOrphan_raise {st : Store} (hT : st.trees.size ≠ 0) (bound maxDepth : Nat) :
    (st.raise bound).addOrphan maxDepth =
      ((st.addOrphan maxDepth).1, (st.addOrphan maxDepth).2.raise bound) := by
  have hsize : (st.raise bound).trees.size = st.trees.size := size_raised ..
  have hpush : (st.raise bound).trees.push ⟨maxDepth, 0⟩ = raised bound (st.trees.push ⟨maxDepth, 0⟩) :=
    push_raised bound hT _
  unfold addOrphan
  rw [hsize, hpush]
  rfl

theorem update_raise (st : Store) (bound : Nat) (s : ScopeId) (values : List (String × Value)) :
    (st.raise bound).update s values = (st.update s values).raise bound := by
  rw [raise, update_withTrees, raise, trees_update]

theorem define_raise (st : Store) (bound : Nat) (s : ScopeId) (name : String) (e : Expr) :
    (st.raise bound).define s name e = (st.define s name e).raise bound := by
  have h := invalidate_withTrees ((st.record (.defining s name e)).modify s (·.putDefinition name e))
    (raised bound st.trees) s .everything [name]
  have htrees : (st.define s name e).trees = st.trees := trees_invalidate ..
  rw [raise, raise, htrees]
  exact h

theorem assign?_raise (st : Store) (bound : Nat) (s : ScopeId) (name : String) (v : Value) :
    (st.raise bound).assign? s name v = (st.assign? s name v).map (·.raise bound) := by
  rw [raise, assign?_withTrees]
  cases h : st.assign? s name v with
  | none => rfl
  | some st' => rw [Option.map_some, Option.map_some, raise, trees_assign? h]

theorem withBuiltins_raise {st : Store} (hT : st.trees.size ≠ 0) (bound maxDepth : Nat) :
    (st.raise bound).withBuiltins maxDepth = (st.withBuiltins maxDepth).raise bound := by
  have hfresh : (st.raise bound).fresh = st.fresh := rfl
  have hsize : (st.raise bound).scopes.size = st.scopes.size := rfl
  unfold withBuiltins
  rw [addOrphan_raise hT, hfresh, hsize]
  generalize Root.standardValues st.fresh = values
  exact update_raise { (st.addOrphan maxDepth).2 with fresh := st.fresh + Root.actions.length } bound _ values

theorem addRoot_raise {st : Store} (hT : st.trees.size ≠ 0) (bound maxDepth : Nat) :
    (st.raise bound).addRoot maxDepth = ((st.addRoot maxDepth).1, (st.addRoot maxDepth).2.raise bound) := by
  rw [addRoot_eq, addRoot_eq, withBuiltins_raise hT]
  generalize st.withBuiltins maxDepth = base
  rfl

theorem sweepRounds_withTrees (host : List ScopeId) (T : Array Tree) : ∀ (rounds : Nat) (st : Store),
    sweepRounds host rounds (st.withTrees T) = (sweepRounds host rounds st).withTrees T
  | 0, _ => rfl
  | rounds + 1, st => by
    have hkeep : (st.withTrees T).keepHeld host = (st.keepHeld host).withTrees T := rfl
    rw [sweepRounds, sweepRounds, hkeep]
    show (if (st.keepHeld host).liveCount = st.liveCount then _ else _) = _
    split
    · rfl
    · exact sweepRounds_withTrees host T rounds _

theorem sweep_withTrees (host : List ScopeId) (T : Array Tree) (st : Store) :
    (st.withTrees T).sweep host = (st.sweep host).withTrees T :=
  congrArg forgetDead (sweepRounds_withTrees host T st.liveCount st)

end Store

/-! ## Evaluations -/

namespace Eval

variable {α : Type}

/-- What is done with the evaluator that a store admits goes the same way where a tree admits more. -/
theorem raise_withEvaluator (h : low ≤ high) {body : Evaluator → Eval α} {st : Store}
    (hT : st.trees[0]? = some ⟨low, 0⟩)
    (hbody : ∀ ev ev', Deeper EvalError.OfDepth st.trees (raised high st.trees) ev ev' →
      Deepens EvalError.OfDepth st.trees (raised high st.trees) (body ev) (body ev')) :
    (withEvaluator body st).2.trees = st.trees ∧
    ((∃ e, EvalError.OfDepth e ∧ (withEvaluator body st).1 = .error e) ∨
      withEvaluator body (st.raise high) = ((withEvaluator body st).1, (withEvaluator body st).2.raise high)) := by
  have hev : Deeper EvalError.OfDepth st.trees (raised high st.trees) (evaluateWithin st.depthLeft)
      (evaluateWithin (st.raise high).depthLeft) :=
    evaluateWithin_deepens (Store.depthLeft_raise h hT) (roomier_raised h hT)
  obtain ⟨htrees, hrun⟩ := hbody _ _ hev st rfl
  rw [withEvaluator_apply, withEvaluator_apply]
  refine ⟨htrees, hrun.imp id fun hrun => hrun.trans ?_⟩
  unfold Store.raise
  rw [htrees]

end Eval

/-! ## Steps -/

/-- Whether a step was answered that the bound on nested evaluations was hit. -/
def Answer.hitsBound : Answer → Bool
  | .failed (.depthLimit _) => true
  | _ => false

namespace Session

variable {α β : Type} {n : Session}

/-- A session of which the first root has another bound. -/
def raise (bound : Nat) (n : Session) : Session := { n with store := n.store.raise bound }

namespace Act

/-- **What goes the same way under a higher bound**, unless the lower one is hit. -/
def Raises (low high : Nat) (x : Act α) : Prop := ∀ n : Session, n.store.trees[0]? = some ⟨low, 0⟩ →
  (x n).2.store.trees[0]? = some ⟨low, 0⟩ ∧
    ((∃ a, (x n).1 = .error a ∧ a.hitsBound = true) ∨ x (n.raise high) = ((x n).1, (x n).2.raise high))

namespace Raises

variable {x : Act α} {f : α → Act β}

theorem pure (a : α) : Raises low high (pure a) := fun _ hT => ⟨hT, .inr rfl⟩

theorem throw (a : Answer) : Raises low high (throw a : Act α) := fun _ hT => ⟨hT, .inr rfl⟩

theorem bind (hx : Raises low high x) (hf : ∀ a, Raises low high (f a)) : Raises low high (x >>= f) := by
  intro n hT
  obtain ⟨hT₁, hx⟩ := hx n hT
  rw [bind_apply, bind_apply]
  rcases hr : x n with ⟨r, n₁⟩
  rw [hr] at hT₁ hx
  rcases hx with ⟨a, ha, hhit⟩ | hx
  · dsimp only at ha
    subst ha
    exact ⟨hT₁, .inl ⟨a, rfl, hhit⟩⟩
  · rw [hx]
    cases r with
    | error a => exact ⟨hT₁, .inr rfl⟩
    | ok a => exact hf a n₁ hT₁

/-- What reads the session may read anything but the bound. -/
theorem get {f : Session → Act β} (h : ∀ n, f (n.raise high) = f n) (hf : ∀ n, Raises low high (f n)) :
    Raises low high (MonadState.get >>= f) := by
  intro n hT
  have hget : (MonadState.get >>= f : Act β) (n.raise high) = f n (n.raise high) := congrFun (h n) _
  rw [hget]
  exact hf n n hT

theorem modify {g : Session → Session} (hT : ∀ n, (g n).store.trees = n.store.trees)
    (hg : ∀ n, g (n.raise high) = (g n).raise high) : Raises low high (modify g) := by
  intro n h
  refine ⟨(congrArg (·[0]?) (hT n)).trans h, .inr ?_⟩
  show (Except.ok PUnit.unit, g (n.raise high)) = _
  rw [hg]
  rfl

theorem modifyStore {g : Store → Store} (hT : ∀ st, (g st).trees = st.trees)
    (hg : ∀ st, g (st.raise high) = (g st).raise high) : Raises low high (modifyStore g) :=
  .modify (fun n => hT n.store) fun n => congrArg (Session.mk · _ _) (hg n.store)

theorem modifyGetStore {g : Store → α × Store}
    (h : ∀ st, st.trees[0]? = some ⟨low, 0⟩ → (g st).2.trees[0]? = some ⟨low, 0⟩ ∧
      g (st.raise high) = ((g st).1, (g st).2.raise high)) : Raises low high (modifyGetStore g) := by
  intro n hT
  obtain ⟨hT', hg⟩ := h n.store hT
  refine ⟨hT', .inr ?_⟩
  show (Except.ok (g (n.store.raise high)).1, ({ n with store := (g (n.store.raise high)).2 } : Session)) = _
  rw [hg]
  rfl

theorem ite {c : Prop} [Decidable c] {x y : Act α} (hx : Raises low high x) (hy : Raises low high y) :
    Raises low high (if c then x else y) := by
  split
  · exact hx
  · exact hy

theorem mapM {f : α → Act β} (hf : ∀ a, Raises low high (f a)) : ∀ l : List α, Raises low high (l.mapM f)
  | [] => pure _
  | a :: l => by
    rw [List.mapM_cons]
    exact (hf a).bind fun _ => (mapM hf l).bind fun _ => pure _

theorem scope (handle : String) : Raises low high (Act.scope handle) := by
  refine .get (fun _ => rfl) fun n => ?_
  cases n.handles.get? handle with
  | some s => exact pure s
  | none => exact throw _

theorem register (name : String) : Raises low high (Act.register name) := by
  refine .get (fun _ => rfl) fun n => ?_
  cases n.registers.get? name with
  | some v => exact pure v
  | none => exact throw _

mutual
theorem operand : ∀ o : Operand, Raises low high (Act.operand o)
  | .number _ | .bool _ | .symbol _ | .unspecified => by rw [Act.operand]; exact pure _
  | .list items => by rw [Act.operand]; exact (operands items).bind fun _ => pure _
  | .register name => by rw [Act.operand]; exact register name

theorem operands : ∀ os : List Operand, Raises low high (Act.operands os)
  | [] => by rw [Act.operands]; exact pure _
  | o :: os => by
    rw [Act.operands]
    exact (operand o).bind fun _ => (operands os).bind fun _ => pure _
end

theorem bindings (values : List (String × Operand)) : Raises low high (Act.bindings values) := by
  refine mapM (fun x => ?_) values
  exact (operand x.2).bind fun _ => pure _

theorem read (text : String) (grammar : Option Grammar) : Raises low high (Act.read text grammar) := by
  unfold Act.read
  dsimp only
  have hlog : ∀ e : Event, Raises low high (Act.modifyStore (·.record e)) := fun e =>
    .modifyStore (fun _ => rfl) fun _ => rfl
  generalize (grammar.getD (.detect text.toList)).read text.toList = r
  cases r with
  | ok e => exact .ite (.bind (hlog _) fun _ => pure e) (pure e)
  | error e => exact .ite (.bind (hlog _) fun _ => throw _) (throw _)

theorem nameScope (handle : String) (s : ScopeId) : Raises low high (Act.nameScope handle s) :=
  .modify (fun _ => rfl) fun _ => rfl

theorem nameValue (register : String) (v : Value) : Raises low high (Act.nameValue register v) :=
  .modify (fun _ => rfl) fun _ => rfl

theorem answer (keep : Option String) (v : Value) : Raises low high (Act.answer keep v) := by
  cases keep with
  | none => exact pure _
  | some register => exact .bind (nameValue register v) fun _ => pure _

/-- An evaluation goes the same way, and so does the step that asks for it. -/
theorem eval {x : Eval α} (h : ∀ st, st.trees[0]? = some ⟨low, 0⟩ → (x st).2.trees = st.trees ∧
    ((∃ e, EvalError.OfDepth e ∧ (x st).1 = .error e) ∨ x (st.raise high) = ((x st).1, (x st).2.raise high))) :
    Raises low high (Act.eval x) := by
  intro n hT
  obtain ⟨htrees, hx⟩ := h n.store hT
  have hrun : ∀ n : Session, Act.eval x n =
      ((x n.store).1.mapError Answer.failed, { n with store := (x n.store).2 }) := by
    intro n
    have hget : Act.modifyGetStore x.run n = (.ok (x n.store).1, { n with store := (x n.store).2 }) := rfl
    rw [Act.eval, bind_apply, hget]
    cases (x n.store).1 <;> rfl
  rw [hrun, hrun]
  have hstore : (n.raise high).store = n.store.raise high := rfl
  rw [hstore]
  rcases hr : x n.store with ⟨r, st⟩
  rw [hr] at htrees hx
  have hT' : st.trees[0]? = some ⟨low, 0⟩ := (congrArg (·[0]?) htrees).trans hT
  rcases hx with ⟨_, ⟨limit, rfl⟩, hx⟩ | hx
  · dsimp only at hx
    subst hx
    exact ⟨hT', .inl ⟨_, rfl, rfl⟩⟩
  · rw [hx]
    cases r with
    | ok a => exact ⟨hT', .inr rfl⟩
    | error e => exact ⟨hT', .inr rfl⟩

end Raises
end Act

open Act

theorem raises_act (h : low ≤ high) (s : Step) : Raises low high (act s) := by
  have hsize : ∀ {st : Store}, st.trees[0]? = some ⟨low, 0⟩ → st.trees.size ≠ 0 := by
    intro st hT hz
    rw [Array.getElem?_eq_none (Nat.le_of_eq hz)] at hT
    cases hT
  have hpush : ∀ {st st' : Store} {t : Tree}, st.trees[0]? = some ⟨low, 0⟩ → st'.trees = st.trees.push t →
      st'.trees[0]? = some ⟨low, 0⟩ := by
    intro st st' t hT ht
    rw [ht, Array.getElem?_push, if_neg (Ne.symm (hsize hT)), hT]
  cases s with
  | root handle maxDepth bare =>
    refine .bind (.modifyGetStore fun st hT => ?_) fun s => .bind (.nameScope handle s) fun _ => .pure _
    cases bare with
    | true => exact ⟨hpush hT rfl, Store.addOrphan_raise (hsize hT) high maxDepth⟩
    | false => exact ⟨hpush hT (Store.trees_addRoot ..), Store.addRoot_raise (hsize hT) high maxDepth⟩
  | child parent handle values =>
    exact .bind (.scope parent) fun s => .bind (.bindings values) fun values =>
      .bind (.modifyGetStore fun st hT => ⟨hT, rfl⟩) fun t => .bind (.nameScope handle t) fun _ => .pure _
  | parent child handle =>
    refine .get (fun _ => rfl) fun n => .bind (.scope child) fun s => ?_
    cases (n.store.scope s).parent? with
    | none => exact .pure _
    | some p =>
      cases handle with
      | none => exact .pure _
      | some handle => exact .bind (.nameScope handle p) fun _ => .pure _
  | dropHandle handle =>
    exact .get (fun _ => rfl) fun n => .bind (.modify (fun _ => rfl) fun _ => rfl) fun _ => .pure _
  | dropRegister register =>
    exact .get (fun _ => rfl) fun n => .bind (.modify (fun _ => rfl) fun _ => rfl) fun _ => .pure _
  | host register action =>
    exact .bind (.modifyGetStore fun st hT => ⟨hT, rfl⟩) fun id => .bind (.nameValue register _) fun _ => .pure _
  | callCount name =>
    refine .bind (.register name) fun v => ?_
    cases v with
    | builtin b => exact .get (fun _ => rfl) fun n => .pure _
    | number | bool | symbol | list | procedure | unspecified => exact .pure _
  | define handle name text grammar =>
    exact .bind (.scope handle) fun s => .bind (.read text grammar) fun e =>
      .bind (.modifyStore (fun st => st.trees_define s name e) fun st => st.define_raise high s name e) fun _ => .pure _
  | evaluate handle text grammar keep =>
    refine .bind (.scope handle) fun s => .bind (.read text grammar) fun e => .bind (.eval fun st hT => ?_)
      (.answer keep)
    have hchild : (st.addChild s []).2.trees[0]? = some ⟨low, 0⟩ := hT
    exact Eval.raise_withEvaluator h hchild fun ev ev' hev => hev e _
  | evaluateIn handle text grammar keep =>
    refine .bind (.scope handle) fun s => .bind (.read text grammar) fun e => .bind (.eval fun st hT => ?_)
      (.answer keep)
    exact Eval.raise_withEvaluator h hT fun ev ev' hev => hev e s
  | lookup handle name keep =>
    refine .bind (.scope handle) fun s => .bind (.eval fun st hT => ?_) (.answer keep)
    exact Eval.raise_withEvaluator h hT fun ev ev' hev => lookup_deepens hev s name
  | assign handle name value =>
    refine .bind (.scope handle) fun s => .bind (.operand value) fun v => fun n hT => ?_
    have hassign := n.store.assign?_raise high s name v
    have hstore : (n.raise high).store = n.store.raise high := rfl
    rw [get_apply, get_apply]
    dsimp only
    rw [hstore, hassign]
    cases ha : n.store.assign? s name v with
    | none => exact ⟨hT, .inr rfl⟩
    | some st => exact ⟨(congrArg (·[0]?) (Store.trees_assign? ha)).trans hT, .inr rfl⟩
  | add handle name value =>
    exact .bind (.scope handle) fun s => .bind (.operand value) fun v =>
      .bind (.modifyStore (fun st => st.trees_update s _) fun st => st.update_raise high s _) fun _ => .pure _
  | update handle values =>
    exact .bind (.scope handle) fun s => .bind (.bindings values) fun values =>
      .bind (.modifyStore (fun st => st.trees_update s _) fun st => st.update_raise high s _) fun _ => .pure _
  | contains handle name => exact .get (fun _ => rfl) fun n => .bind (.scope handle) fun s => .pure _
  | hasValue handle name => exact .get (fun _ => rfl) fun n => .bind (.scope handle) fun s => .pure _
  | definition handle name => exact .get (fun _ => rfl) fun n => .bind (.scope handle) fun s => .pure _
  | listenerCount handle => exact .get (fun _ => rfl) fun n => .bind (.scope handle) fun s => .pure _
  | inspectScope handle => exact .get (fun _ => rfl) fun n => .bind (.scope handle) fun s => .pure _
  | call f args keep =>
    refine .bind (.operand f) fun f => .bind (.operands args) fun args => .bind (.eval fun st hT => ?_) (.answer keep)
    exact Eval.raise_withEvaluator h hT fun ev ev' hev => callBelow_deepens hev _ f args
  | equal a b => exact .bind (.operand a) fun v => .bind (.operand b) fun w => .pure _
  | inspectValue value => exact .bind (.operand value) fun v => .pure _

theorem sweep_raise (n : Session) : (n.raise high).sweep = n.sweep.raise high := by
  have hstore : (n.store.raise high).sweep n.held = (n.store.sweep n.held).raise high := by
    rw [Store.raise, Store.sweep_withTrees, Store.raise, Store.trees_sweep]
  exact congrArg (Session.mk · _ _) hstore

/-- **One step under a higher bound**: the answer, what was logged and the session are the same, but for the bound. -/
theorem step_raise (h : low ≤ high) (hT : n.store.trees[0]? = some ⟨low, 0⟩) (s : Step) :
    (n.step s).2.2.store.trees[0]? = some ⟨low, 0⟩ ∧ ((n.step s).1.hitsBound = true ∨
      (n.raise high).step s = ((n.step s).1, (n.step s).2.1, (n.step s).2.2.raise high)) := by
  have hstep : ∀ {n n₁ : Session} {a : Answer}, act s n = (.ok a, n₁) ∨ act s n = (.error a, n₁) →
      n.step s = (a, n₁.store.log.reverse, sweep { n₁ with store := { n₁.store with log := [] } }) := by
    intro n n₁ a hr
    have hrun : (act s).run n = act s n := rfl
    rw [step, hrun]
    rcases hr with hr | hr <;> rw [hr]
  obtain ⟨hT', hact⟩ := raises_act h s n hT
  rcases hr : act s n with ⟨r, n₁⟩
  rw [hr] at hT' hact
  dsimp only at hT' hact
  obtain ⟨a, ha⟩ : ∃ a, r = .ok a ∨ r = .error a := by
    cases r with
    | ok a => exact ⟨a, .inl rfl⟩
    | error a => exact ⟨a, .inr rfl⟩
  rw [hstep (hr ▸ ha.imp (congrArg (·, n₁)) (congrArg (·, n₁)))]
  refine ⟨(congrArg (·[0]?) (Store.trees_sweep ..)).trans hT', ?_⟩
  rcases hact with ⟨b, hb, hhit⟩ | hact
  · subst hb
    rcases ha with ha | ha
    · cases ha
    · cases ha
      exact .inl hhit
  · refine .inr ((hstep (hact ▸ ha.imp (congrArg (·, n₁.raise high)) (congrArg (·, n₁.raise high)))).trans ?_)
    exact congrArg (fun n => (_, _, n)) (sweep_raise { n₁ with store := { n₁.store with log := [] } })

/-- The answers to a part of the steps are part of the answers. -/
theorem run_take (steps : List Step) (k : Nat) : ∀ n : Session,
    (n.run (steps.take k)).1 = (n.run steps).1.take k := by
  induction steps generalizing k with
  | nil => intro n; simp [run]
  | cons s steps ih =>
    intro n
    cases k with
    | zero => rfl
    | succ k => exact congrArg (_ :: ·) (ih k _)

theorem run_raise (h : low ≤ high) : ∀ (steps : List Step) {n : Session}, n.store.trees[0]? = some ⟨low, 0⟩ →
    (∀ a ∈ (n.run steps).1, a.1.hitsBound = false) →
      (n.raise high).run steps = ((n.run steps).1, (n.run steps).2.raise high)
  | [], _, _, _ => rfl
  | s :: steps, n, hT, hno => by
    obtain ⟨hT', hstep⟩ := step_raise h hT s
    have hrun : ∀ n : Session, n.run (s :: steps) =
        (((n.step s).1, (n.step s).2.1) :: ((n.step s).2.2.run steps).1, ((n.step s).2.2.run steps).2) := fun _ => rfl
    rw [hrun] at hno
    have hfirst := hno _ List.mem_cons_self
    rw [hrun, hrun, hstep.resolve_left (by simp [hfirst])]
    have hrest := run_raise h steps hT' fun a ha => hno a (List.mem_cons_of_mem _ ha)
    rw [hrest]

theorem start_raise (low high : Nat) (bare : Bool) :
    (start low bare).store.trees[0]? = some ⟨low, 0⟩ ∧ (start low bare).raise high = start high bare := by
  cases bare with
  | true => exact ⟨rfl, rfl⟩
  | false =>
    have hbuiltins : Store.empty.withBuiltins high = (Store.empty.withBuiltins low).raise high := by
      unfold Store.withBuiltins
      generalize Root.standardValues Store.empty.fresh = values
      exact Store.update_raise { (Store.empty.addOrphan low).2 with fresh := Root.actions.length } high 0 values
    have htrees : (Store.empty.withBuiltins low).trees = #[⟨low, 0⟩] := Store.trees_withBuiltins ..
    have hroot : ∀ maxDepth, start maxDepth false =
        let st := ((Store.empty.withBuiltins maxDepth).addChild 0 []).2
        ⟨{ st with log := [] }, .ofList [("root", (Store.empty.withBuiltins maxDepth).scopes.size)], .empty⟩ := by
      intro maxDepth
      rw [start, addRoot, if_neg (by simp), Store.addRoot_eq]
      generalize Store.empty.withBuiltins maxDepth = st
      rfl
    rw [hroot, hroot, hbuiltins]
    generalize Store.empty.withBuiltins low = st at htrees ⊢
    have hfirst : st.trees[0]? = some ⟨low, 0⟩ := by simp [htrees]
    have hchild : (st.addChild 0 []).2.trees = st.trees := st.trees_addChild 0 []
    exact ⟨by rw [← hfirst, ← hchild], rfl⟩

/-- **Raising the bound on nested evaluations only removes failures for this bound.** The steps are taken in a session
with a bound and in one with a higher bound. Before the first step that fails for the lower bound, the answers and what
the steps logged are the same, and so are the sessions: the same scopes with the same definitions, values, kinds of
values and listeners, and the same handles and registers. -/
theorem higher_bound_agrees {low high : Nat} (h : low ≤ high) (bare : Bool) (steps : List Step) (k : Nat)
    (hno : ∀ a ∈ ((start low bare).run steps).1.take k, a.1.hitsBound = false) :
    ((start high bare).run steps).1.take k = ((start low bare).run steps).1.take k ∧
      let n := ((start low bare).run (steps.take k)).2
      let n' := ((start high bare).run (steps.take k)).2
      n'.store.scopes = n.store.scopes ∧ n'.handles = n.handles ∧ n'.registers = n.registers ∧
        n' = n.raise high := by
  obtain ⟨hT, hstart⟩ := start_raise low high bare
  rw [← run_take] at hno
  have hrun := run_raise h (steps.take k) hT hno
  rw [hstart] at hrun
  rw [← run_take, ← run_take, hrun]
  exact ⟨rfl, rfl, rfl, rfl, rfl⟩

/-- Two definitions read a value, and a third one reads the second. The first and the third one are forced. -/
def reading : List Step :=
  [.define "root" "x" "y" (some .algebraic), .define "root" "z" "y" (some .algebraic),
    .define "root" "w" "z" (some .algebraic), .add "root" "y" (.number (.int 1)), .lookup "root" "x" none,
    .lookup "root" "w" none]

/-- The bound 1 admits one evaluation but none within it. So the first definition is forced and memoized there as it is
under the bound 2, and only the last look-up fails. -/
theorem higher_bound_of_reading :
    (∀ a ∈ ((start 1 true).run reading).1.take 5, a.1.hitsBound = false) ∧
      ((start 2 true).run reading).1.take 5 = ((start 1 true).run reading).1.take 5 ∧
      ((start 2 true).run (reading.take 5)).2.store.scopes = ((start 1 true).run (reading.take 5)).2.store.scopes ∧
      ((((start 1 true).run (reading.take 5)).2.store.scope 0).slots.get? "x").map Slot.kind = some .derived ∧
      ((start 1 true).run reading).1.map (·.1.hitsBound) = [false, false, false, false, false, true] ∧
      ((start 2 true).run reading).1.map (·.1.hitsBound) = [false, false, false, false, false, false] := by
  have hno : ∀ a ∈ ((start 1 true).run reading).1.take 5, a.1.hitsBound = false := by decide +kernel
  obtain ⟨hanswers, hscopes, -⟩ := higher_bound_agrees (Nat.le_succ 1) true reading 5 hno
  exact ⟨hno, hanswers, hscopes, by decide +kernel, by decide +kernel, by decide +kernel⟩

end Session
end LazyFormula
