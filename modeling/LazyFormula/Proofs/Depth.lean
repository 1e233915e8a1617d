import LazyFormula.Proofs.Computations
/-!
# The bound on nesting

After an evaluation, also a failed one, as many evaluations are in progress as before it. And the bound on them matters
only where it is hit: an evaluation that does not fail for its depth goes the same way wherever more evaluations can be
nested (`evaluateWithin_deepens`). Each function of the evaluator goes the same way as long as the nested evaluations
do, whatever the failures are that excuse them.
-/
namespace LazyFormula

namespace Store

/-- A store with other counts of the evaluations in progress. -/
def withTrees (st : Store) (T : Array Tree) : Store := { st with trees := T }

variable (st : Store) (T : Array Tree)

theorem withTrees_trees {st : Store} (h : st.trees = T) : st.withTrees T = st := by rw [← h]; rfl

theorem reachDown_withTrees :
    ∀ (levels : Nat) (s : ScopeId), (st.withTrees T).reachDown levels s = st.reachDown levels s
  | 0, _ => rfl
  | levels + 1, s => by
    rw [reachDown, reachDown]
    have ih : (st.withTrees T).reachDown levels = st.reachDown levels := funext (reachDown_withTrees levels)
    rw [ih]
    rfl

theorem foldl_modify_withTrees {α : Type} (g : α → ScopeId × (Scope → Scope)) : ∀ (l : List α) (st : Store),
    l.foldl (fun st a => st.modify (g a).1 (g a).2) (st.withTrees T) =
      (l.foldl (fun st a => st.modify (g a).1 (g a).2) st).withTrees T
  | [], _ => rfl
  | a :: l, st => foldl_modify_withTrees g l (st.modify (g a).1 (g a).2)

theorem invalidate_withTrees (s : ScopeId) (reach : Reach) (written : List String) :
    (st.withTrees T).invalidate s reach written = (st.invalidate s reach written).withTrees T := by
  unfold invalidate Store.reach
  rw [reachDown_withTrees]
  have h := foldl_modify_withTrees T (fun t => (t, Scope.clear reach)) (st.reachDown st.scopes.size s) st
  exact congrArg (Store.record · (.invalidation s reach written)) h

theorem update_withTrees (s : ScopeId) (values : List (String × Value)) :
    (st.withTrees T).update s values = (st.update s values).withTrees T := by
  unfold update
  rw [invalidate_withTrees]
  exact foldl_modify_withTrees T (fun x : String × Value => (s, Scope.put x.1 ⟨x.2.detach s, .bound⟩)) values _

theorem assignable?_withTrees (name : String) : ∀ scopes : List ScopeId,
    (st.withTrees T).assignable? name scopes = st.assignable? name scopes
  | [] => rfl
  | s :: up => by
    rw [assignable?, assignable?, assignable?_withTrees name up]
    rfl

theorem assign?_withTrees (s : ScopeId) (name : String) (v : Value) :
    (st.withTrees T).assign? s name v = (st.assign? s name v).map (·.withTrees T) := by
  unfold assign?
  rw [assignable?_withTrees, Option.map_map]
  refine congrArg (Option.map · _) (funext fun ⟨target, slot⟩ => ?_)
  exact congrArg (·.put target name v slot.kind) (invalidate_withTrees (st.record _) T target .derived [name])

theorem trees_foldl_modify {α : Type} (g : α → ScopeId × (Scope → Scope)) : ∀ (l : List α) (st : Store),
    (l.foldl (fun st a => st.modify (g a).1 (g a).2) st).trees = st.trees
  | [], _ => rfl
  | a :: l, st => trees_foldl_modify g l (st.modify (g a).1 (g a).2)

theorem trees_invalidate (s : ScopeId) (reach : Reach) (written : List String) :
    (st.invalidate s reach written).trees = st.trees :=
  trees_foldl_modify (fun t => (t, Scope.clear reach)) _ st

theorem trees_update (s : ScopeId) (values : List (String × Value)) : (st.update s values).trees = st.trees :=
  (trees_foldl_modify (fun x : String × Value => (s, Scope.put x.1 ⟨x.2.detach s, .bound⟩)) values _).trans
    (trees_invalidate st s .derived _)

theorem trees_define (s : ScopeId) (name : String) (e : Expr) : (st.define s name e).trees = st.trees :=
  trees_invalidate ..

theorem trees_addChild (parent : ScopeId) (values : List (String × Value)) :
    (st.addChild parent values).2.trees = st.trees := rfl

theorem trees_assign? {st st' : Store} {s : ScopeId} {name : String} {v : Value} (h : st.assign? s name v = some st') :
    st'.trees = st.trees := by
  obtain ⟨⟨t, slot⟩, -, rfl⟩ := Option.map_eq_some_iff.1 h
  exact trees_invalidate (st.record _) t .derived [name]

end Store

/-! ## Room -/

/-- How many more evaluations a tree admits. -/
def Tree.room (t : Tree) : Nat := t.maxDepth - t.depth

/-- The room of one of the trees. -/
def roomAt (T : Array Tree) (i : Nat) : Nat := (T[i]?.getD default).room

/-- The room of some trees together. -/
def totalRoom : List Tree → Nat
  | [] => 0
  | t :: trees => t.room + totalRoom trees

theorem foldl_room : ∀ (trees : List Tree) (n : Nat),
    trees.foldl (fun n t => n + (t.maxDepth - t.depth)) n = n + totalRoom trees
  | [], _ => rfl
  | t :: trees, n => by rw [List.foldl_cons, foldl_room trees, totalRoom, Tree.room, Nat.add_assoc]

theorem Store.depthLeft_eq (st : Store) : st.depthLeft = totalRoom st.trees.toList := by
  rw [depthLeft, ← Array.foldl_toList, foldl_room, Nat.zero_add]

theorem room_le_totalRoom {t : Tree} : ∀ {trees : List Tree}, t ∈ trees → t.room ≤ totalRoom trees
  | u :: trees, h => by
    rcases List.mem_cons.1 h with rfl | h
    · exact Nat.le_add_right ..
    · exact Nat.le_trans (room_le_totalRoom h) (Nat.le_add_left ..)

theorem roomAt_le_depthLeft (st : Store) (i : Nat) : roomAt st.trees i ≤ st.depthLeft := by
  unfold roomAt
  cases h : st.trees[i]? with
  | none => exact Nat.zero_le _
  | some t =>
    rw [Store.depthLeft_eq]
    exact room_le_totalRoom (Array.mem_toList_iff.2 (Array.mem_of_getElem? h))

theorem roomAt_pos {st : Store} {s : ScopeId} :
    0 < roomAt st.trees (st.scope s).tree ↔ (st.treeOf s).depth < (st.treeOf s).maxDepth := Nat.sub_pos_iff_lt

/-- **More evaluations can be nested**, in whatever tree. -/
def Roomier (T T' : Array Tree) : Prop := ∀ i, roomAt T i ≤ roomAt T' i

theorem Roomier.refl (T : Array Tree) : Roomier T T := fun _ => Nat.le_refl _

/-- The counts with one more evaluation in progress. -/
def entered (T : Array Tree) (i : Nat) : Array Tree := T.modify i fun t => { t with depth := t.depth + 1 }

theorem leave_entered (T : Array Tree) (i : Nat) :
    (entered T i).modify i (fun t => { t with depth := t.depth - 1 }) = T := by
  refine Array.ext_getElem? fun j => ?_
  rw [Array.getElem?_modify, entered, Array.getElem?_modify]
  by_cases h : i = j
  · rw [if_pos h, if_pos h]
    cases T[j]? <;> rfl
  · rw [if_neg h, if_neg h]

theorem setDepth_entered {st st₁ : Store} {i : Nat} (h : st₁.trees = entered st.trees i) :
    st₁.setDepth i (· - 1) = st₁.withTrees st.trees := by
  refine congrArg st₁.withTrees ?_
  rw [h]
  exact leave_entered ..

theorem roomAt_entered (T : Array Tree) (i j : Nat) :
    roomAt (entered T i) j = if i = j then roomAt T j - 1 else roomAt T j := by
  unfold roomAt entered
  rw [Array.getElem?_modify]
  by_cases h : i = j
  · rw [if_pos h, if_pos h]
    cases T[j]? with
    | none => rfl
    | some t => exact Nat.sub_add_eq _ _ _
  · rw [if_neg h, if_neg h]

theorem Roomier.entered {T T' : Array Tree} (h : Roomier T T') (i : Nat) : Roomier (entered T i) (entered T' i) := by
  intro j
  rw [roomAt_entered, roomAt_entered]
  split
  · exact Nat.sub_le_sub_right (h j) 1
  · exact h j

namespace Eval

variable {α β : Type}

theorem child_apply (p : ScopeId) (values : List (String × Value)) (f : ScopeId → Eval β) (st : Store) :
    (child p values >>= f) st = f (st.addChild p values).1 (st.addChild p values).2 := rfl

theorem withEvaluator_apply (body : Evaluator → Eval α) (st : Store) :
    withEvaluator body st = body (evaluateWithin st.depthLeft) st := rfl

theorem lookup_apply (s : ScopeId) (name : String) (st : Store) :
    lookup s name st = lookupAlong (evaluateWithin st.depthLeft) name (st.chain s) st := by
  rw [lookup, withEvaluator_apply, LazyFormula.lookup, get_apply]

theorem nested_eq_ok {x : Eval α} {s : ScopeId} {st st' : Store} {a : α} (h : nested s x st = (.ok a, st')) :
    ∃ st₁, x (st.setDepth (st.scope s).tree (· + 1)) = (.ok a, st₁) ∧
      st' = st₁.setDepth (st.scope s).tree (· - 1) := by
  unfold nested at h
  dsimp only at h
  split at h
  · rcases hr : x (st.setDepth (st.scope s).tree (· + 1)) with ⟨r, st₁⟩
    rw [hr] at h
    cases h
    exact ⟨st₁, rfl, rfl⟩
  · cases h

/-! ## Going the same way under other counts -/

/-- **A computation and one under other counts**: the count of evaluations in progress is as before, and the second one
ends as the first, unless that had a failure which excuses it. -/
def Deepens (excused : EvalError → Prop) (T T' : Array Tree) (x y : Eval α) : Prop := ∀ st, st.trees = T →
  (x st).2.trees = T ∧
    ((∃ e, excused e ∧ (x st).1 = .error e) ∨ y (st.withTrees T') = ((x st).1, (x st).2.withTrees T'))

namespace Deepens

variable {excused : EvalError → Prop} {T T' : Array Tree} {x y : Eval α} {f g : α → Eval β}

theorem pure (a : α) : Deepens excused T T' (pure a) (pure a) := fun _ ht => ⟨ht, .inr rfl⟩

theorem throw (e : EvalError) : Deepens excused T T' (throw e : Eval α) (throw e) := fun _ ht => ⟨ht, .inr rfl⟩

theorem ofExcept (r : Except EvalError α) : Deepens excused T T' (Eval.ofExcept r) (Eval.ofExcept r) := by
  cases r with
  | ok a => exact pure a
  | error e => exact throw e

theorem bind (hx : Deepens excused T T' x y) (hf : ∀ a, Deepens excused T T' (f a) (g a)) :
    Deepens excused T T' (x >>= f) (y >>= g) := by
  intro st ht
  obtain ⟨ht₁, hx⟩ := hx st ht
  rw [bind_apply, bind_apply]
  rcases hr : x st with ⟨r, st₁⟩
  rw [hr] at ht₁ hx
  rcases hx with ⟨e, he, hx⟩ | hx
  · dsimp only at hx
    subst hx
    exact ⟨ht₁, .inl ⟨e, he, rfl⟩⟩
  · rw [hx]
    cases r with
    | error e => exact ⟨ht₁, .inr rfl⟩
    | ok a => exact hf a st₁ ht₁

/-- What reads the store may read anything but the counts. -/
theorem get {f g : Store → Eval β} (h : ∀ st, st.trees = T → Deepens excused T T' (f st) (g (st.withTrees T'))) :
    Deepens excused T T' (MonadState.get >>= f) (MonadState.get >>= g) := fun st ht => h st ht st ht

theorem modifyGet {g : Store → α × Store} (ht : ∀ st, (g st).2.trees = st.trees)
    (hg : ∀ st, g (st.withTrees T') = ((g st).1, (g st).2.withTrees T')) :
    Deepens excused T T' (modifyGet g) (modifyGet g) := by
  intro st h
  refine ⟨(ht st).trans h, .inr ?_⟩
  show (Except.ok (g (st.withTrees T')).1, (g (st.withTrees T')).2) = _
  rw [hg]
  rfl

theorem modify {g : Store → Store} (ht : ∀ st, (g st).trees = st.trees)
    (hg : ∀ st, g (st.withTrees T') = (g st).withTrees T') : Deepens excused T T' (modify g) (modify g) :=
  .modifyGet ht fun st => by rw [hg]

theorem ite {c : Prop} [Decidable c] {x' y' : Eval α} (h : Deepens excused T T' x y)
    (h' : Deepens excused T T' x' y') :
    Deepens excused T T' (if c then x else x') (if c then y else y') := by
  split
  · exact h
  · exact h'

theorem mapM {f g : α → Eval β} (hf : ∀ a, Deepens excused T T' (f a) (g a)) : ∀ l : List α,
    Deepens excused T T' (l.mapM f) (l.mapM g)
  | [] => pure _
  | a :: l => by
    rw [List.mapM_cons, List.mapM_cons]
    exact (hf a).bind fun _ => (mapM hf l).bind fun _ => pure _

theorem record (e : Event) : Deepens excused T T' (Eval.record e) (Eval.record e) := .modify (fun _ => rfl) fun _ => rfl

theorem child (p : ScopeId) (values : List (String × Value)) :
    Deepens excused T T' (Eval.child p values) (Eval.child p values) := .modifyGet (fun _ => rfl) fun _ => rfl

/-- A computation as one more evaluation in progress. Where there is no room for it, the failure is excused or there is
no room under the other counts either. -/
theorem nested_at {st : Store} {s : ScopeId} (ht : st.trees = T) (hT : Roomier T T')
    (hfull : (∀ limit, excused (.depthLimit limit)) ∨ T' = T)
    (hx : 0 < roomAt T (st.scope s).tree →
      Deepens excused (entered T (st.scope s).tree) (entered T' (st.scope s).tree) x y) :
    (Eval.nested s x st).2.trees = T ∧ ((∃ e, excused e ∧ (Eval.nested s x st).1 = .error e) ∨
      Eval.nested s y (st.withTrees T') = ((Eval.nested s x st).1, (Eval.nested s x st).2.withTrees T')) := by
  subst ht
  unfold Eval.nested
  by_cases hlt : (st.treeOf s).depth < (st.treeOf s).maxDepth
  · have hroom := roomAt_pos.2 hlt
    have hlt' : ((st.withTrees T').treeOf s).depth < ((st.withTrees T').treeOf s).maxDepth :=
      roomAt_pos.1 (Nat.lt_of_lt_of_le hroom (hT _))
    rw [if_pos hlt, if_pos hlt']
    obtain ⟨ht₁, hx⟩ := hx hroom (st.setDepth (st.scope s).tree (· + 1)) rfl
    rcases hr : x (st.setDepth (st.scope s).tree (· + 1)) with ⟨r, st₁⟩
    rw [hr] at ht₁ hx
    dsimp only at ht₁ hx ⊢
    refine ⟨?_, hx.imp id fun hx => ?_⟩
    · rw [Store.setDepth, ht₁]
      exact leave_entered ..
    · have hy : y ((st.withTrees T').setDepth ((st.withTrees T').scope s).tree (· + 1)) =
          (r, st₁.withTrees (entered T' (st.scope s).tree)) := hx
      rw [hy]
      exact congrArg (fun T => (r, st₁.withTrees T)) (leave_entered ..)
  · rw [if_neg hlt]
    refine ⟨rfl, hfull.imp (fun hfull => ⟨_, hfull _, rfl⟩) ?_⟩
    rintro rfl
    exact if_neg hlt

end Deepens
end Eval

/-- One evaluation without its place among those in progress. -/
def evaluateBody (ev : Evaluator) (e : Expr) (s : ScopeId) : Eval Value :=
  match e with
  | .number n => return .number n
  | .symbol name => LazyFormula.lookup ev s name
  | .list items => do evaluateForm ev s (← Eval.ofExcept (Form.ofItems items))

/-- An evaluator and one under other counts. -/
def Deeper (excused : EvalError → Prop) (T T' : Array Tree) (ev ev' : Evaluator) : Prop :=
  ∀ e s, Eval.Deepens excused T T' (ev e s) (ev' e s)

section
variable {excused : EvalError → Prop} {T T' : Array Tree} {ev ev' : Evaluator} (hev : Deeper excused T T' ev ev')
include hev

open Eval

theorem force_deepens (s : ScopeId) (name : String) (e : Expr) :
    Deepens excused T T' (force ev s name e) (force ev' s name e) :=
  .bind (.record _) fun _ => .bind (.child s []) fun scratch => .bind (hev e scratch) fun _ =>
    .get fun _ _ => .pure _

omit hev in
theorem memoize_deepens (s : ScopeId) (name : String) (generation : Nat) (v : Value) :
    Deepens excused T T' (memoize s name generation v) (memoize s name generation v) := by
  refine .modify (fun st => ?_) fun st => ?_
  · split <;> rfl
  · have hscope : (st.withTrees T').scope s = st.scope s := rfl
    rw [hscope]
    split <;> rfl

theorem lookupAlong_deepens (name : String) : ∀ scopes : List ScopeId,
    Deepens excused T T' (lookupAlong ev name scopes) (lookupAlong ev' name scopes)
  | [] => .throw _
  | s :: up => by
    rw [lookupAlong, lookupAlong]
    refine .get fun st _ => ?_
    have hscope : (st.withTrees T').scope s = st.scope s := rfl
    simp only [hscope]
    cases (st.scope s).slots.get? name with
    | some slot => exact .bind (.record _) fun _ => .get fun _ _ => .pure _
    | none =>
      have hfound : ∀ v, Deepens excused T T' (do memoize s name (st.scope s).generation v; return v)
          (do memoize s name (st.scope s).generation v; return v) := fun v =>
        .bind (memoize_deepens s name _ v) fun _ => .pure v
      cases (st.scope s).definitions.get? name with
      | some e => exact .bind (force_deepens hev s name e) hfound
      | none => exact .bind (lookupAlong_deepens name up) hfound

theorem lookup_deepens (s : ScopeId) (name : String) : Deepens excused T T' (lookup ev s name) (lookup ev' s name) :=
  .get fun st _ => lookupAlong_deepens hev name (st.chain s)

theorem callProcedure_deepens (p : Procedure) (args : List Value) :
    Deepens excused T T' (callProcedure ev p args) (callProcedure ev' p args) := by
  have hbody : Deepens excused T T' (Eval.child p.scope (p.lambda.params.zip args) >>= ev p.lambda.body)
      (Eval.child p.scope (p.lambda.params.zip args) >>= ev' p.lambda.body) :=
    .bind (.child _ _) fun t => hev p.lambda.body t
  have hrest : Deepens excused T T'
      (do
        if p.hold = .weak && !(← get).alive p.scope then throw .scopeGone
        ev p.lambda.body (← Eval.child p.scope (p.lambda.params.zip args)))
      (do
        if p.hold = .weak && !(← get).alive p.scope then throw .scopeGone
        ev' p.lambda.body (← Eval.child p.scope (p.lambda.params.zip args))) :=
    .get fun _ _ => .ite (.bind (.throw _) fun _ => hbody) hbody
  exact .ite (.bind (.throw _) fun _ => hrest) hrest

omit hev in
theorem callBuiltin_deepens {call call' : Value → List Value → Eval Value}
    (hcall : ∀ f args, Deepens excused T T' (call f args) (call' f args)) (b : Builtin) (args : List Value) :
    Deepens excused T T' (callBuiltin call b args) (callBuiltin call' b args) := by
  unfold callBuiltin
  cases b.action with
  | primitive p => exact .ofExcept _
  | map =>
    exact .bind (.ofExcept _) fun x => .bind (.ofExcept _) fun vs => .bind (.mapM (fun v => hcall x.1 [v]) vs) fun _ =>
      .pure _
  | count => exact .bind (.modify (fun _ => rfl) fun _ => rfl) fun _ => .pure _
  | fail => exact .throw _
  | forward =>
    cases args with
    | nil => exact .pure _
    | cons f args => exact hcall f args

theorem callBelow_deepens : ∀ n f args, Deepens excused T T' (callBelow ev n f args) (callBelow ev' n f args)
  | 0, _, _ => .throw _
  | n + 1, f, args => by
    rw [callBelow.eq_def, callBelow.eq_def]
    cases f with
    | procedure p => exact callProcedure_deepens hev p args
    | builtin b => exact callBuiltin_deepens (callBelow_deepens n) b args
    | number | bool | symbol | list | unspecified => exact .throw _

theorem evaluateForm_deepens (s : ScopeId) (form : Form) :
    Deepens excused T T' (evaluateForm ev s form) (evaluateForm ev' s form) := by
  cases form with
  | nil => exact .pure _
  | quote e => exact .pure _
  | conditional test consequent alternative =>
    refine .bind (hev test s) fun v => ?_
    split
    · exact hev consequent s
    · exact hev alternative s
  | define name e =>
    refine .bind (hev e s) fun v => .bind (.modify (fun st => st.trees_update s _) fun st => ?_) fun _ => .pure _
    exact st.update_withTrees T' s [(name, v)]
  | assign name e =>
    refine .bind (hev e s) fun v => fun st ht => ?_
    rw [get_apply, get_apply, st.assign?_withTrees T' s name v]
    cases ha : st.assign? s name v with
    | none => exact ⟨ht, .inr rfl⟩
    | some st' => exact ⟨(Store.trees_assign? ha).trans ht, .inr rfl⟩
  | lambda params body => exact .bind (.modifyGet (fun _ => rfl) fun _ => rfl) fun _ => .pure _
  | apply callee args =>
    exact .bind (hev callee s) fun f => .bind (.mapM (fun a => hev a s) args) fun vs => callBelow_deepens hev _ f vs

/-- What is evaluated goes the same way as what is evaluated for it. -/
theorem evaluateBody_deepens (e : Expr) (s : ScopeId) :
    Deepens excused T T' (evaluateBody ev e s) (evaluateBody ev' e s) := by
  cases e with
  | number n => exact .pure _
  | symbol name => exact lookup_deepens hev s name
  | list items => exact .bind (.ofExcept _) fun form => evaluateForm_deepens hev s form

end

/-- The failures of evaluations that are nested too deep. -/
def EvalError.OfDepth (e : EvalError) : Prop := ∃ limit, e = .depthLimit limit

/-- **With more room an evaluation goes the same way**, unless it failed for its depth. -/
theorem evaluateWithin_deepens : ∀ {depth depth' : Nat} {T T' : Array Tree}, depth ≤ depth' → Roomier T T' →
    Deeper EvalError.OfDepth T T' (evaluateWithin depth) (evaluateWithin depth')
  | 0, _, _, _, _, _ => fun _ _ _ ht => ⟨ht, .inl ⟨_, ⟨_, rfl⟩, rfl⟩⟩
  | _ + 1, _ + 1, _, _, h, hT => fun e s _ ht =>
    Eval.Deepens.nested_at ht hT (.inl fun limit => ⟨limit, rfl⟩) fun _ =>
      evaluateBody_deepens (evaluateWithin_deepens (Nat.le_of_succ_le_succ h) (hT.entered _)) e s

theorem roomier_entered (T : Array Tree) (i : Nat) : Roomier (entered T i) T := by
  intro j
  rw [roomAt_entered]
  split
  · exact Nat.sub_le ..
  · exact Nat.le_refl _

/-- A value that an evaluation in progress has is the one that it has by itself. -/
theorem evaluateWithin_of_entered {depth depth' : Nat} (hd : depth ≤ depth') {st st₁ : Store} {i : Nat} {e : Expr}
    {s : ScopeId} {v : Value} (h : evaluateWithin depth e s (st.setDepth i (· + 1)) = (.ok v, st₁)) :
    evaluateWithin depth' e s st = (.ok v, st₁.withTrees st.trees) ∧ st₁.trees = entered st.trees i := by
  obtain ⟨ht, hr⟩ := evaluateWithin_deepens hd (roomier_entered st.trees i) e s (st.setDepth i (· + 1)) rfl
  rw [h] at ht hr
  exact ⟨hr.resolve_left (by rintro ⟨_, _, hc⟩; cases hc), ht⟩

/-- **After an evaluation as many are in progress as before it.** -/
theorem trees_evaluateWithin (depth : Nat) (e : Expr) (s : ScopeId) (st : Store) :
    (evaluateWithin depth e s st).2.trees = st.trees :=
  (evaluateWithin_deepens (Nat.le_refl depth) (.refl st.trees) e s st rfl).1

theorem Eval.trees_lookup (s : ScopeId) (name : String) (st : Store) : (Eval.lookup s name st).2.trees = st.trees := by
  rw [Eval.lookup_apply]
  exact (lookupAlong_deepens (evaluateWithin_deepens (Nat.le_refl _) (.refl st.trees)) name _ st rfl).1

theorem Eval.trees_call (f : Value) (args : List Value) (st : Store) : (Eval.call f args st).2.trees = st.trees :=
  (callBelow_deepens (evaluateWithin_deepens (Nat.le_refl _) (.refl st.trees)) _ f args st rfl).1

end LazyFormula
