import LazyFormula.Proofs.Depth
import LazyFormula.Proofs.Evolution
/-!
# Evaluations are moves

A computation yields what a condition says if the stores before and after it are in a relation that evaluations keep to,
what it returns satisfies the condition, and it does not fail for want of a scope. There is one rule for each way in
which computations are put together and one fact for each function of the evaluator; that an evaluation yields a value
whose procedures hold living scopes (`evaluateWithin_sound`) follows by induction on the nesting. The relation that says
the least is that there are moves from one store to the other.
-/
namespace LazyFormula

variable {L : Fragment} {own own' : ScopeId → Prop} {M : Store → Store → Prop} {st st' : Store} {s : ScopeId}
  {α β : Type}

namespace Store

/-- **A store that an evaluation can start from**: it is formed, and scopes that are made from now on may be written. -/
structure Ready (L : Fragment) (own : ScopeId → Prop) (st : Store) : Prop where
  formed : st.Formed L
  owned {t : ScopeId} : st.scopes.size ≤ t → own t

theorem Moves.ready (hm : Moves L own st st') (h : st.Ready L own) : st'.Ready L own := by
  obtain ⟨events, he⟩ := hm.evolves
  exact ⟨hm.formed h.formed, fun ht => h.owned (Nat.le_trans he.size ht)⟩

theorem Moves.alive (hm : Moves L own st st') (hs : st.alive s = true) : st'.alive s = true := by
  obtain ⟨events, he⟩ := hm.evolves
  exact he.alive hs

theorem Moves.supports (hm : Moves L own st st') {v : Value} (hv : st.Supports L v) : st'.Supports L v :=
  hv.mono fun _ => hm.alive

/-- **What a look-up through some scopes finds.** The first of them that has a value of the name or defines it decides,
and its value comes before its definition. -/
inductive Finds (st : Store) (name : String) (v : Value) : List ScopeId → Prop
  | value {s : ScopeId} {up : List ScopeId} {slot : Slot} (hslot : (st.scope s).slots.get? name = some slot)
      (hv : v = slot.value.attach st.alive) : Finds st name v (s :: up)
  | definition {s : ScopeId} {up : List ScopeId} {e : Expr} (hslot : (st.scope s).slots.get? name = none)
      (hdef : (st.scope s).definitions.get? name = some e) : Finds st name v (s :: up)
  | up {s : ScopeId} {up : List ScopeId} (hslot : (st.scope s).slots.get? name = none)
      (hdef : (st.scope s).definitions.get? name = none) (h : Finds st name v up) : Finds st name v (s :: up)

/-- **A relation between stores that evaluations keep to.** It says at least that there are moves. A definition is
forced where no value was found; a value is memoized where none was when its look-up began, if it was found from there
and the scope dropped nothing meanwhile. -/
class Invariant (L : outParam Fragment) (own : outParam (ScopeId → Prop)) (M : Store → Store → Prop) : Prop where
  moves {st st' : Store} : M st st' → Moves L own st st'
  refl (st : Store) : M st st
  trans {st st₁ st' : Store} : M st st₁ → M st₁ st' → M st st'
  cacheHit (st : Store) (s : ScopeId) (name : String) : M st (st.record (.cacheHit s name))
  forcing {st : Store} {s : ScopeId} {name : String} {e : Expr} (hs : st.alive s = true)
    (hslot : (st.scope s).slots.get? name = none) (hdef : (st.scope s).definitions.get? name = some e) :
    M st (st.record (.forcing s name e))
  child {st : Store} {p : ScopeId} {values : List (String × Value)} (hst : st.Ready L own) (hp : st.alive p = true)
    (hv : ∀ x ∈ values, st.Supports L x.2) : M st (st.addChild p values).2
  memoize {st st' : Store} {s : ScopeId} {name : String} {v : Value} (hm : M st st') (hs : st.alive s = true)
    (hslot : (st.scope s).slots.get? name = none) (hfound : st.Finds name v (st.chain s))
    (hg : (st'.scope s).generation = (st.scope s).generation) (hv : st'.Supports L v)
    (hb : (st'.scope s).bound? name = none) : M st (st'.put s name v .derived)
  bind {st : Store} {s : ScopeId} {name : String} {v : Value} (hst : st.Ready L own) (hs : st.alive s = true)
    (ho : own s) (hv : st.Supports L v) : M st (st.add s name v)
  assign {st st' : Store} {s : ScopeId} {name : String} {v : Value} (hst : st.Ready L own) (hs : st.alive s = true)
    (hL : L.assigns) (hv : st.Supports L v) (h : st.assign? s name v = some st') : M st st'
  count (st : Store) (b : Builtin) : M st (st.countCall b)
  fresh (st : Store) : M st st.takeFresh.2
  depth (st : Store) (tree : Nat) (f : Nat → Nat) : M st (st.setDepth tree f)

@[default_instance]
instance : Invariant L own (Moves L own) where
  moves := id
  refl := .refl
  trans := .trans
  cacheHit _ _ _ := (Move.record fun _ _ => id).moves
  forcing _ _ _ := (Move.record fun _ _ => id).moves
  child _ hp hv := (Move.child hp hv).moves
  memoize hm hs _ _ _ hv hb := hm.trans (Move.memoize (hm.alive hs) hv hb).moves
  bind _ hs ho hv := (Move.bind hs ho hv).moves
  assign _ hs hL hv h := (Move.assign hs hL hv h).moves
  count _ b := (Move.count b).moves
  fresh _ := Move.fresh.moves
  depth _ tree f := (Move.depth tree f).moves

namespace Invariant

variable [hM : Invariant L own M]
include hM

theorem ready (hm : M st st') (h : st.Ready L own) : st'.Ready L own := (moves hm).ready h

theorem alive (hm : M st st') (hs : st.alive s = true) : st'.alive s = true := (moves hm).alive hs

theorem supports (hm : M st st') {v : Value} (hv : st.Supports L v) : st'.Supports L v := (moves hm).supports hv

end Invariant

end Store

open Store

namespace Eval

/-- **A computation yields** a condition on what it returns and on the store that it ends in. -/
def Yields (M : Store → Store → Prop) (st : Store) (x : Eval α) (P : α → Store → Prop) : Prop :=
  M st (x st).2 ∧
    match (x st).1 with
    | .ok a => P a (x st).2
    | .error e => e ≠ .scopeGone

namespace Yields

variable {x : Eval α} {f : α → Eval β} {P : α → Store → Prop} {Q : β → Store → Prop}

/-- What reads the store goes on with the store. -/
theorem get {f : Store → Eval β} (h : Yields M st (f st) Q) : Yields M st (MonadState.get >>= f) Q := h

theorem modify {g : Store → Store} {P : Unit → Store → Prop} (hm : M st (g st)) (h : P () (g st)) :
    Yields M st (modify g) P := ⟨hm, h⟩

theorem imp {Q : α → Store → Prop} (hx : Yields M st x P) (h : ∀ a st', P a st' → Q a st') :
    Yields M st x Q := by
  obtain ⟨hm, hp⟩ := hx
  refine ⟨hm, ?_⟩
  rcases hr : x st with ⟨r, st₁⟩
  rw [hr] at hp
  cases r with
  | error e => exact hp
  | ok a => exact h a st₁ hp

theorem modifyGet {g : Store → α × Store} (hm : M st (g st).2) (h : P (g st).1 (g st).2) :
    Yields M st (modifyGet g) P := ⟨hm, h⟩

variable [hM : Invariant L own M]
include hM

theorem pure {a : α} (h : P a st) : Yields M st (pure a) P := ⟨Invariant.refl _, h⟩

theorem throw {e : EvalError} (h : e ≠ .scopeGone) : Yields M st (throw e) P := ⟨Invariant.refl _, h⟩

theorem bind (hx : Yields M st x P) (hf : ∀ a st', M st st' → P a st' → Yields M st' (f a) Q) :
    Yields M st (x >>= f) Q := by
  obtain ⟨hm, h⟩ := hx
  rw [Yields, bind_apply]
  rcases hr : x st with ⟨r, st₁⟩
  rw [hr] at hm h
  cases r with
  | error e => exact ⟨hm, h⟩
  | ok a =>
    obtain ⟨hm', h'⟩ := hf a st₁ hm h
    exact ⟨Invariant.trans hm hm', h'⟩

theorem ofExcept {r : Except EvalError α} (he : ∀ e, r = .error e → e ≠ .scopeGone)
    (h : ∀ a, r = .ok a → P a st) :
    Yields M st (Eval.ofExcept r) P := by
  cases r with
  | ok a => exact pure (h a rfl)
  | error e => exact throw (he e rfl)

/-- What fails for its arguments does not fail for want of a scope. -/
theorem ofBlames {r : Except EvalError α} (hr : Primitive.Blames r) (h : ∀ a, r = .ok a → P a st) :
    Yields M st (Eval.ofExcept r) P := by
  refine .ofExcept (fun e he hgone => ?_) h
  have := hr e he
  rw [hgone] at this
  cases this

/-- One computation for each item of a list, in this order. -/
theorem mapM {f : α → Eval Value} : ∀ {l : List α} {st : Store},
    (∀ a ∈ l, ∀ st', M st st' → Yields M st' (f a) fun v st'' => st''.Supports L v) →
      Yields M st (l.mapM f) fun vs st' => ∀ v ∈ vs, st'.Supports L v
  | [], st, _ => pure nofun
  | a :: l, st, hf => by
    rw [List.mapM_cons]
    refine (hf a List.mem_cons_self st (Invariant.refl _)).bind fun v st₁ hm hv => ?_
    refine Yields.bind
      (mapM fun b hb st₂ hm₂ => hf b (List.mem_cons_of_mem _ hb) st₂ (Invariant.trans hm hm₂)) ?_
    intro vs st₂ hm₂ hvs
    refine pure fun w hw => ?_
    rcases List.mem_cons.1 hw with rfl | hw
    · exact Invariant.supports hm₂ hv
    · exact hvs w hw

theorem nested {x : Eval α} (hx : Yields M (st.setDepth (st.scope s).tree (· + 1)) x P)
    (hp : ∀ a st' f, P a st' → P a (st'.setDepth (st.scope s).tree f)) :
    Yields M st (Eval.nested s x) P := by
  unfold Eval.nested
  by_cases hlt : (st.treeOf s).depth < (st.treeOf s).maxDepth
  · rw [Yields, if_pos hlt]
    obtain ⟨hm, h⟩ := hx
    rcases hr : x (st.setDepth (st.scope s).tree (· + 1)) with ⟨r, st₁⟩
    rw [hr] at hm h
    refine ⟨Invariant.trans (Invariant.depth ..)
      (Invariant.trans hm (Invariant.depth _ (st.scope s).tree (· - 1))), ?_⟩
    cases r with
    | error e => exact h
    | ok a => exact hp a st₁ (· - 1) h
  · rw [Yields, if_neg hlt]
    exact ⟨Invariant.refl _, nofun⟩

/-- A new scope may be written. -/
theorem child (hr : st.Ready L own) {p : ScopeId} (hp : st.alive p = true) {values : List (String × Value)}
    (hv : ∀ x ∈ values, st.Supports L x.2) :
    Yields M st (Eval.child p values) fun s st' => st'.alive s = true ∧ own s :=
  .modifyGet (Invariant.child hr hp hv) ⟨alive_addChild_size hp values, hr.owned (Nat.le_refl _)⟩

/-- A value that was found is memoized only where nothing was dropped since the look-up began, so where nothing was
written. -/
theorem memoized (hs : st.alive s = true) {name : String} (hslot : (st.scope s).slots.get? name = none)
    {x : Eval Value} (hx : Yields M st x fun v st' => st'.Supports L v ∧ st.Finds name v (st.chain s)) :
    Yields M st (do let v ← x; memoize s name (st.scope s).generation v; return v) fun v st' =>
      st'.Supports L v ∧ st.Finds name v (st.chain s) := by
  obtain ⟨hm, h⟩ := hx
  rw [Yields, bind_apply]
  rcases hr : x st with ⟨r, st₁⟩
  rw [hr] at hm h
  cases r with
  | error e => exact ⟨hm, h⟩
  | ok v =>
    have hrun : (do memoize s name (st.scope s).generation v; return v : Eval Value) st₁ = (.ok v,
        if (st₁.scope s).generation = (st.scope s).generation then st₁.put s name v .derived else st₁) := rfl
    dsimp only at hm h ⊢
    rw [hrun]
    by_cases hg : (st₁.scope s).generation = (st.scope s).generation
    · rw [if_pos hg]
      obtain ⟨events, he⟩ := (Invariant.moves hm).evolves
      obtain ⟨c', hc', hev⟩ := he.scope (scope?_eq_of_alive hs)
      have hb : (st₁.scope s).bound? name = none := by
        rw [scope_of_scope? hc'] at hg ⊢
        rw [hev.bound?_eq hg, Scope.bound?_eq_none hslot]
      have hput := Invariant.memoize hm hs hslot h.2 hg h.1 hb
      exact ⟨hput, h.1.mono fun t ht => (alive_put ..).trans ht, h.2⟩
    · rw [if_neg hg]
      exact ⟨hm, h⟩

end Yields
end Eval

/-- **An evaluator that is sound**: evaluations in living scopes that may be written yield values whose procedures hold
living scopes. -/
def Sound (L : Fragment) (own : ScopeId → Prop) (M : Store → Store → Prop) (ev : Evaluator) : Prop :=
  ∀ {e : Expr} {s : ScopeId} {st : Store}, st.Ready L own → L.Mem e → st.alive s = true → own s →
    Eval.Yields M st (ev e s) fun v st' => st'.Supports L v

section
variable [hM : Invariant L own M] {ev : Evaluator} (hev : Sound L own M ev)
include hM hev

/-! ## Names -/

theorem force_yields (hr : st.Ready L own) (hs : st.alive s = true) {name : String} {e : Expr}
    (hslot : (st.scope s).slots.get? name = none) (hdef : (st.scope s).definitions.get? name = some e) :
    Eval.Yields M st (force ev s name e) fun v st' => st'.Supports L v := by
  have he := hr.formed.definitions (scope?_eq_of_alive hs) hdef
  have hlogged : Eval.Yields M st (Eval.record (.forcing s name e)) fun _ _ => True :=
    .modify (Invariant.forcing hs hslot hdef) trivial
  refine hlogged.bind fun _ st₁ hm₁ _ => ?_
  refine Eval.Yields.bind (.child (Invariant.ready hm₁ hr) (Invariant.alive hm₁ hs) nofun) ?_
  rintro scratch st₂ hm₂ ⟨ha, ho⟩
  refine Eval.Yields.bind (hev (Invariant.ready hm₂ (Invariant.ready hm₁ hr)) he ha ho) fun v st₃ hm₃ hv => ?_
  refine .get (.pure ?_)
  split
  · exact hv.recapture (Invariant.alive hm₃ (Invariant.alive hm₂ (Invariant.alive hm₁ hs))) _
  · exact hv

theorem lookupAlong_yields (hr : st.Ready L own) (name : String) : ∀ {scopes : List ScopeId},
    (∀ s ∈ scopes.head?, st.alive s = true ∧ scopes = st.chain s) →
      Eval.Yields M st (lookupAlong ev name scopes) fun v st' => st'.Supports L v ∧ st.Finds name v scopes
  | [], _ => .throw nofun
  | s :: up, hscopes => by
    obtain ⟨hs, hchain⟩ := hscopes s rfl
    have hc := scope?_eq_of_alive hs
    rw [lookupAlong]
    refine .get ?_
    cases hslot : (st.scope s).slots.get? name with
    | some slot =>
      simp only [hslot]
      have hlogged : Eval.Yields M st (Eval.record (.cacheHit s name)) fun _ st' => st'.alive = st.alive :=
        .modify (Invariant.cacheHit ..) rfl
      refine hlogged.bind fun _ st₁ hm₁ ha => .get (.pure ⟨?_, .value hslot (congrArg slot.value.attach ha)⟩)
      exact ((hr.formed.slots hc hslot).mono fun _ => Invariant.alive hm₁).attach
    | none =>
      simp only [hslot]
      rw [hchain]
      cases hdef : (st.scope s).definitions.get? name with
      | some e =>
        exact .memoized hs hslot
          ((force_yields hev hr hs hslot hdef).imp fun v st' hv => ⟨hv, .definition hslot hdef⟩)
      | none =>
        have hup : ∀ p ∈ up.head?, st.alive p = true ∧ up = st.chain p := by
          intro p hp
          obtain ⟨rest, hrest⟩ := List.head?_eq_some_iff.1 hp
          have hanc : (st.scope s).ancestors = p :: rest := (List.cons.inj hchain).2.symm.trans hrest
          refine ⟨(hr.formed.parented hc hanc).2.1, (List.cons.inj (hchain.trans (hr.formed.chain_eq hc hanc))).2⟩
        refine .memoized hs hslot ((lookupAlong_yields hr name hup).imp fun v st' hv => ⟨hv.1, ?_⟩)
        rw [← hchain]
        exact .up hslot hdef hv.2

theorem lookup_yields (hr : st.Ready L own) (hs : st.alive s = true) (name : String) :
    Eval.Yields M st (lookup ev s name) fun v st' => st'.Supports L v := by
  refine .get ((lookupAlong_yields hev hr name ?_).imp fun v st' hv => hv.1)
  rintro t ht
  cases ht
  exact ⟨hs, rfl⟩

/-! ## Calls -/

theorem callProcedure_yields (hr : st.Ready L own) {p : Procedure} (hp : st.Supports L (.procedure p))
    {args : List Value} (ha : ∀ v ∈ args, st.Supports L v) :
    Eval.Yields M st (callProcedure ev p args) fun v st' => st'.Supports L v := by
  obtain ⟨hb, hs, hh⟩ := hp p (List.mem_singleton_self _)
  have hargs : ∀ x ∈ p.lambda.params.zip args, st.Supports L x.2 := fun x hx => ha x.2 (List.of_mem_zip hx).2
  unfold callProcedure
  by_cases hl : args.length ≠ p.lambda.params.length
  · rw [if_pos hl]
    exact .bind (P := fun _ _ => False) (.throw nofun) nofun
  · rw [if_neg hl]
    refine .get ?_
    simp only [hh, reduceCtorEq, decide_false, Bool.false_and, Bool.false_eq_true, if_false]
    refine Eval.Yields.bind (.child hr hs hargs) ?_
    rintro t st₁ hm ⟨ht, ho⟩
    exact hev (Invariant.ready hm hr) hb ht ho

/-- How values are called. -/
def SoundCall (L : Fragment) (own : ScopeId → Prop) (M : Store → Store → Prop)
    (call : Value → List Value → Eval Value) : Prop :=
  ∀ {st : Store} {f : Value} {args : List Value}, st.Ready L own → st.Supports L f →
    (∀ v ∈ args, st.Supports L v) →
    Eval.Yields M st (call f args) fun v st' => st'.Supports L v

omit hev in
theorem callBuiltin_yields {call : Value → List Value → Eval Value} (hcall : SoundCall L own M call) (b : Builtin)
    (hr : st.Ready L own) {args : List Value} (ha : ∀ v ∈ args, st.Supports L v) :
    Eval.Yields M st (callBuiltin call b args) fun v st' => st'.Supports L v := by
  unfold callBuiltin
  cases b.action with
  | primitive p =>
    refine .ofBlames (Primitive.blames_run p args) fun v hv q hq => ?_
    obtain ⟨a, haa, hqa⟩ := Primitive.run_procedures hv hq
    exact ha a haa q hqa
  | map =>
    refine Eval.Yields.bind (P := fun x st' => st'.Supports L x.1 ∧ st'.Supports L x.2) ?_ ?_
    · refine .ofBlames (.two .map args) fun x hx => ?_
      rw [Primitive.two_eq_ok hx] at ha
      exact ⟨ha _ List.mem_cons_self, ha _ (by simp)⟩
    rintro ⟨f, vs⟩ st₁ hm ⟨hf, hvs⟩
    refine Eval.Yields.bind (P := fun vs st' => st'.Supports L f ∧ ∀ v ∈ vs, st'.Supports L v) ?_ ?_
    · refine .ofBlames (.items .map vs) fun ws hws => ?_
      rw [Primitive.items_eq_ok hws] at hvs
      exact ⟨hf, supports_list.1 hvs⟩
    rintro ws st₂ hm₂ ⟨hf, hws⟩
    refine Eval.Yields.bind (.mapM fun w hw st₃ hm₃ => ?_) fun rs st₃ _ hrs => .pure (supports_list.2 hrs)
    have hr₃ := Invariant.ready hm₃ (Invariant.ready hm₂ (Invariant.ready hm hr))
    refine hcall hr₃ (Invariant.supports hm₃ hf) fun v hv => ?_
    rw [List.mem_singleton.1 hv]
    exact Invariant.supports hm₃ (hws w hw)
  | count =>
    refine .bind (P := fun _ _ => True) (.modify (Invariant.count ..) trivial) fun _ st₁ hm _ => .pure ?_
    cases args with
    | nil => exact nofun
    | cons a args => exact Invariant.supports hm (ha a List.mem_cons_self)
  | fail => exact .throw nofun
  | forward =>
    cases args with
    | nil => exact .pure nofun
    | cons f args =>
      exact hcall hr (ha f List.mem_cons_self) fun v hv => ha v (List.mem_cons_of_mem _ hv)

theorem callBelow_yields : ∀ n, SoundCall L own M (callBelow ev n)
  | 0, _, _, _, _, _, _ => .throw fun h => by cases h
  | n + 1, st, f, args, hr, hf, ha => by
    rw [callBelow.eq_def]
    cases f with
    | procedure p => exact callProcedure_yields hev hr hf ha
    | builtin b => exact callBuiltin_yields (callBelow_yields n) b hr ha
    | number | bool | symbol | list | unspecified => exact .throw fun h => by cases h

theorem callValue_yields : SoundCall L own M (callValue ev) := fun hr hf ha => callBelow_yields hev _ hr hf ha

/-! ## Expressions -/

theorem evaluateForm_yields (hr : st.Ready L own) (hs : st.alive s = true) (ho : own s) {items : List Expr}
    (he : L.Mem (.list items)) {form : Form} (hform : Form.ofItems items = .ok form) :
    Eval.Yields M st (evaluateForm ev s form) fun v st' => st'.Supports L v := by
  have hparts := L.parts he hform
  cases form with
  | nil => exact .pure nofun
  | quote e => exact .pure (supports_of_procedures_eq_nil (Value.procedures_ofExpr e))
  | conditional test consequent alternative =>
    refine Eval.Yields.bind (hev hr (hparts test (by simp [Form.parts])) hs ho) fun t st₁ hm _ => ?_
    split
    · exact hev (Invariant.ready hm hr) (hparts consequent (by simp [Form.parts])) (Invariant.alive hm hs) ho
    · exact hev (Invariant.ready hm hr) (hparts alternative (by simp [Form.parts])) (Invariant.alive hm hs) ho
  | define name e =>
    refine Eval.Yields.bind (hev hr (hparts e (by simp [Form.parts])) hs ho) fun v st₁ hm hv => ?_
    have hbind : M st₁ (st₁.add s name v) := Invariant.bind (Invariant.ready hm hr) (Invariant.alive hm hs) ho hv
    exact .bind (P := fun _ _ => True) (.modify hbind trivial) fun _ _ _ _ => .pure nofun
  | assign name e =>
    refine Eval.Yields.bind (hev hr (hparts e (by simp [Form.parts])) hs ho) fun v st₁ hm hv => .get ?_
    cases ha : st₁.assign? s name v with
    | none => exact .bind (P := fun _ _ => False) (.throw nofun) nofun
    | some st₂ =>
      have hassign : M st₁ st₂ :=
        Invariant.assign (Invariant.ready hm hr) (Invariant.alive hm hs) (L.assigning he hform) hv ha
      exact .bind (P := fun _ _ => True) (.modify hassign trivial) fun _ _ _ _ => .pure nofun
  | lambda params body =>
    refine Eval.Yields.bind (P := fun _ st' => st'.alive s = true) (.modifyGet (Invariant.fresh st) hs) ?_
    intro id st₁ hm hs
    refine .pure fun p hp => ?_
    rw [List.mem_singleton.1 hp]
    exact ⟨hparts body (by simp [Form.parts]), hs, rfl⟩
  | apply callee args =>
    refine Eval.Yields.bind (hev hr (hparts callee (by simp [Form.parts])) hs ho) fun f st₁ hm hf => ?_
    refine Eval.Yields.bind (.mapM fun a ha st₂ hm₂ => ?_) fun vs st₂ hm₂ hvs => ?_
    · have hr₂ := Invariant.ready hm₂ (Invariant.ready hm hr)
      exact hev hr₂ (hparts a (List.mem_cons_of_mem _ ha)) (Invariant.alive hm₂ (Invariant.alive hm hs)) ho
    · exact callValue_yields hev (Invariant.ready hm₂ (Invariant.ready hm hr)) (Invariant.supports hm₂ hf) hvs

theorem evaluateStep_sound : Sound L own M (evaluateStep ev) := by
  intro e s st hr he hs ho
  have hm : M st (st.setDepth (st.scope s).tree (· + 1)) := Invariant.depth ..
  have hr₁ := Invariant.ready hm hr
  refine .nested ?_ fun _ _ _ h => h
  cases e with
  | number n => exact .pure nofun
  | symbol name => exact lookup_yields hev hr₁ hs name
  | list items =>
    refine Eval.Yields.bind (P := fun form st' => Form.ofItems items = .ok form) ?_ ?_
    · refine .ofExcept (fun e he => ?_) fun form h => h
      obtain ⟨form, rfl⟩ := Form.ofItems_eq_error he
      exact nofun
    · intro form st₁ hm₁ hform
      exact evaluateForm_yields hev (Invariant.ready hm₁ hr₁) (Invariant.alive hm₁ hs) ho he hform

end

section
variable [hM : Invariant L own M]
include hM

/-- **An evaluation yields a value whose procedures hold living scopes**, and never fails for want of a scope. -/
theorem evaluateWithin_sound : ∀ depth, Sound L own M (evaluateWithin depth)
  | 0 => fun _ _ _ _ => .get (.throw nofun)
  | depth + 1 => evaluateStep_sound (evaluateWithin_sound depth)

/-! ## What a host asks for -/

namespace Eval

theorem evaluateIn_yields (hr : st.Ready L own) {e : Expr} (he : L.Mem e) (hs : st.alive s = true) (ho : own s) :
    Yields M st (evaluateIn e s) fun v st' => st'.Supports L v := .get (evaluateWithin_sound _ hr he hs ho)

theorem evaluate_yields (hr : st.Ready L own) {e : Expr} (he : L.Mem e) (hs : st.alive s = true) :
    Yields M st (evaluate e s) fun v st' => st'.Supports L v := by
  refine Yields.bind (.child hr hs nofun) ?_
  rintro t st₁ hm ⟨ht, ho⟩
  exact evaluateIn_yields (Invariant.ready hm hr) he ht ho

theorem lookup_yields (hr : st.Ready L own) (hs : st.alive s = true) (name : String) :
    Yields M st (lookup s name) fun v st' => st'.Supports L v :=
  .get (LazyFormula.lookup_yields (evaluateWithin_sound _) hr hs name)

theorem call_yields (hr : st.Ready L own) {f : Value} (hf : st.Supports L f) {args : List Value}
    (ha : ∀ v ∈ args, st.Supports L v) : Yields M st (call f args) fun v st' => st'.Supports L v :=
  .get (callValue_yields (evaluateWithin_sound _) hr hf ha)

end Eval
end
end LazyFormula
