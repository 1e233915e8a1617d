import LazyFormula.Proofs.TwinSkips
/-!
# Evaluations side by side

Evaluations of one expression in twin scopes end alike (`parallel_evaluateWithin`): one fact for each function of the
evaluator, and an induction on the nesting.
-/
namespace LazyFormula

open Scene (Aligned SlotTwins)
open Store

variable {S : Scene} {O : ScopeId → Prop} {W W' : Twinning} {st st₁ st' su su₁ su' : Store} {s t u : ScopeId}
  {name : String}
  {e : Expr} {v w : Value} {vs ws : List Value} {ev ev' : Evaluator} {p q : Procedure} {α β : Type}

/-! ## What goes on after a computation -/

/-- **A computation that grows a store**: whenever it starts, it writes in given scopes and in new ones alone. -/
def Grows (O : ScopeId → Prop) (st : Store) (x : Eval Value) : Prop :=
  ∀ ⦃base : Nat⦄ ⦃st₁ : Store⦄, base ≤ st₁.scopes.size → st₁.Formed .unassigning →
    (∀ t, st.alive t = true → st₁.alive t = true) →
    Eval.Yields (Spares O base) st₁ x fun v st₂ => st₂.Supports .unassigning v

namespace Grows

variable {x : Eval Value} {f : β → Eval Value} {l : List β}

theorem evaluation (hev : Sparing ev) (hs : st.alive s = true) (ho : O s) (he : Fragment.unassigning.Mem e) :
    Grows O st (ev e s) := fun _ _ hb hf ha => hev O _ (ready_spares hf hb) he (ha s hs) (.inl ho)

theorem mapM (h : ∀ b ∈ l, Grows O st (f b)) {base : Nat} (hb : base ≤ st₁.scopes.size)
    (hf : st₁.Formed .unassigning) (ha : ∀ t, st.alive t = true → st₁.alive t = true) :
    Eval.Yields (Spares O base) st₁ (l.mapM f) fun vs st₂ => ∀ v ∈ vs, st₂.Supports .unassigning v :=
  .mapM fun b hbl st₂ hm => by
    obtain ⟨events, he⟩ := hm.moves.evolves
    exact h b hbl (Nat.le_trans hb he.size) (hm.moves.formed hf) fun t ht => he.alive (ha t ht)

/-- A value that was computed, and the store in which it goes on. -/
theorem next (h : Grows O st x) (hf : st.Formed .unassigning) (hr : x st = (.ok v, st')) :
    st'.Formed .unassigning ∧ st'.Supports .unassigning v ∧ ∀ t, st.alive t = true → st'.alive t = true := by
  obtain ⟨hm, hv⟩ := h (Nat.le_refl _) hf fun _ => id
  rw [hr] at hm hv
  exact ⟨hm.moves.formed hf, hv, fun _ => hm.moves.alive⟩

end Grows

/-- What returns a function of a value writes nothing. -/
theorem store_return (x : Eval α) (f : α → β) (st : Store) : ((x >>= fun a => pure (f a)) st).2 = (x st).2 := by
  rw [bind_apply]
  rcases x st with ⟨r, st₁⟩
  cases r <;> rfl

/-- **One computation after the other for the items of a list, on both sides.** -/
theorem Twin.mapM {f g : β → Eval Value} : ∀ {l : List β} {W : Twinning} {st su : Store}, Twinned S W st su →
    (∀ b ∈ l, Grows O st (f b)) →
    (∀ b ∈ l, ∀ W₁ st₁ su₁, Leads S W st su W₁ st₁ su₁ → Twinned S W₁ st₁ su₁ →
      (∀ t, st.alive t = true → st₁.alive t = true) →
        Twin S O W₁ st₁ su₁ (f b) (g b) fun W' _ v w => W'.Twins v w) →
    Twin S O W st su (l.mapM f) (l.mapM g) fun W' _ vs ws => W'.Twins (.list vs) (.list ws)
  | [], _, _, _, h, _, _ => .pure h (Twinning.twins_of_procedures_eq_nil rfl)
  | b :: l, W, st, su, h, hgrow, hfg => by
    have hfirst := hgrow b List.mem_cons_self
    have hrest : ∀ c ∈ l, Grows O st (f c) := fun c hc => hgrow c (List.mem_cons_of_mem _ hc)
    rw [List.mapM_cons, List.mapM_cons]
    refine (hfg b List.mem_cons_self W st su (.refl ..) h fun _ => id).bind (fun v st₁ hr => ?_) ?_
    · obtain ⟨hf₁, -, ha₁⟩ := hfirst.next h.first hr
      rw [store_return]
      exact (Grows.mapM hrest (Nat.le_refl _) hf₁ ha₁).1
    · intro W₁ st₁ su₁ v w hr hl h₁ hvw
      obtain ⟨hf₁, -, ha₁⟩ := hfirst.next h.first hr
      have hgrow₁ : ∀ c ∈ l, Grows O st₁ (f c) :=
        fun c hc _ _ hb hf ha => hrest c hc hb hf fun t ht => ha t (ha₁ t ht)
      refine Twin.bind (Twin.mapM h₁ hgrow₁ fun c hc W₂ st₂ su₂ hl₂ h₂ ha₂ => ?_)
        (fun vs st₂ hr₂ => ?_) ?_
      · exact hfg c (List.mem_cons_of_mem _ hc) W₂ st₂ su₂ (hl.trans hl₂) h₂ fun t ht => ha₂ t (ha₁ t ht)
      · exact Invariant.refl _
      · intro W₂ st₂ su₂ vs ws _ hl₂ h₂ hvs
        exact .pure h₂ ((hvw.mono hl₂.le).cons hvs)

/-! ## Calls -/

theorem callProcedure_apply (hh : p.hold = .strong) (args : List Value) (st : Store) : callProcedure ev p args st =
    if args.length ≠ p.lambda.params.length then (.error (.parameterCount p.lambda.params args.length), st)
    else ev p.lambda.body st.scopes.size (st.addChild p.scope (p.lambda.params.zip args)).2 := by
  rw [callProcedure]
  by_cases hl : args.length ≠ p.lambda.params.length
  · rw [if_pos hl, if_pos hl]
    rfl
  · rw [if_neg hl, if_neg hl]
    refine (get_apply _ st).trans ?_
    simp only [hh, reduceCtorEq, decide_false, Bool.false_and, Bool.false_eq_true, if_false]
    rfl

/-- **Procedures that run below ways up which go side by side are called side by side.** -/
theorem callProcedure_aligned (hev : Parallel S ev ev') (h : Twinned S W st su) (hc : Clear S O W st)
    (hparams : p.lambda.params = q.lambda.params) (hbody : p.lambda.body = q.lambda.body)
    (he : Fragment.unassigning.Mem q.lambda.body) (hp : p.hold = .strong) (hq : q.hold = .strong)
    (ha : st.alive p.scope = true) (hb : su.alive q.scope = true)
    (halign : Aligned S.Hidden W (st.chain p.scope) (su.chain q.scope))
    (htree : (st.scope p.scope).tree = (su.scope q.scope).tree) (hargs : W.Twins (.list vs) (.list ws)) :
    Twin S O W st su (callProcedure ev p vs) (callProcedure ev' q ws) fun W' _ v w => W'.Twins v w := by
  obtain ⟨rfl, hws⟩ := Twinning.twins_list.1 hargs
  intro hA
  rw [callProcedure_apply hp, hparams, hbody, List.length_map] at hA
  rw [callProcedure_apply hp, callProcedure_apply hq, hparams, hbody, List.length_map]
  by_cases hl : ws.length ≠ q.lambda.params.length
  · rw [if_pos hl, if_pos hl]
    exact .failed (.refl ..) h (.refl _)
  · rw [if_neg hl] at hA
    rw [if_neg hl, if_neg hl]
    have hrun :=
      hev.child h hc (q.lambda.params.zip (ws.map (Value.rename W.twin))) (q.lambda.params.zip ws) ha hb halign
      htree (List.zip_map_right ..) (fun x hx => hws x.2 (List.of_mem_zip hx).2) he
    exact (hrun fun hf => (hA hf).mono fun _ => .inl).after (leads_child h p.scope hb _ _)

/-- **Calls side by side.** -/
def ParallelCall (S : Scene) (call call' : Value → List Value → Eval Value) : Prop :=
  ∀ ⦃O : ScopeId → Prop⦄ ⦃W : Twinning⦄ ⦃st su : Store⦄ ⦃v w : Value⦄ ⦃vs ws : List Value⦄,
    Twinned S W st su →
    Clear S O W st → W.Twins v w → W.Twins (.list vs) (.list ws) →
      Twin S O W st su (call v vs) (call' w ws) fun W' _ v w => W'.Twins v w

/-- A way to call values that writes in new scopes alone. -/
def SparingCall (call : Value → List Value → Eval Value) : Prop :=
  ∀ (O : ScopeId → Prop) (base : Nat), SoundCall .unassigning (fun t => O t ∨ base ≤ t) (Spares O base) call

theorem SparingCall.grows {call : Value → List Value → Eval Value} (hcall : SparingCall call)
    (hv : st.Supports .unassigning v) (hvs : ∀ x ∈ vs, st.Supports .unassigning x) : Grows O st (call v vs) :=
  fun _ _ hb hf ha => hcall O _ (ready_spares hf hb) (hv.mono ha) fun x hx => (hvs x hx).mono ha

theorem callProcedure_twin (hev : Parallel S ev ev') (h : Twinned S W st su) (hc : Clear S O W st)
    (hp : W.Twins (.procedure p) (.procedure q)) (hargs : W.Twins (.list vs) (.list ws)) :
    Twin S O W st su (callProcedure ev p vs) (callProcedure ev' q ws) fun W' _ v w => W'.Twins v w := by
  have hmem : q ∈ (Value.procedure q).procedures := List.mem_singleton_self _
  obtain ⟨hbody, hhold⟩ := hp.holds q hmem
  have hscope := (hp.knows q hmem).1
  obtain rfl : p = W.twin.procedure q := Value.procedure.inj hp.eq
  exact callProcedure_aligned hev h hc rfl rfl hbody rfl hhold (h.alive hscope).1 (h.alive hscope).2 (h.aligned hscope)
    (h.tree hscope) hargs

/-- Evaluators count no calls but by their actions. -/
theorem countCall_twin (h : Twinned S W st su) (b : Builtin) :
    Twinned S W (st.countCall b) (su.countCall b) ∧ Leads S W st su W (st.countCall b) (su.countCall b) :=
  ⟨h.drift (drifts_of_scope? rfl (Nat.le_refl _) fun _ => rfl) (drifts_of_scope? rfl (Nat.le_refl _) fun _ => rfl)
    (h.first.congr rfl fun _ => rfl) (h.second.congr rfl fun _ => rfl) h.trees,
    .of_scope? rfl rfl (Nat.le_refl _) (Nat.le_refl _) (List.suffix_refl _) fun _ => rfl⟩

theorem callBuiltin_twin {call call' : Value → List Value → Eval Value} (hcall : ParallelCall S call call')
    (hspare : SparingCall call) (b : Builtin) (h : Twinned S W st su) (hc : Clear S O W st)
    (hargs : W.Twins (.list vs) (.list ws)) :
    Twin S O W st su (callBuiltin call b vs) (callBuiltin call' b ws) fun W' _ v w => W'.Twins v w := by
  obtain ⟨rfl, hws⟩ := Twinning.twins_list.1 hargs
  unfold callBuiltin
  cases b.action with
  | primitive f =>
    refine .ofExcept h (Primitive.run_rename h.separates f fun w hw => (hws w hw).knows) fun v w hvw hw => ?_
    have hfrom : ∀ r ∈ w.procedures, ∃ a ∈ ws, r ∈ a.procedures := fun r => Primitive.run_procedures hw
    exact ⟨fun r hr => let ⟨a, ha, hra⟩ := hfrom r hr; (hws a ha).knows r hra,
      fun r hr => let ⟨a, ha, hra⟩ := hfrom r hr; (hws a ha).holds r hra, hvw⟩
  | map =>
    have htwo := Primitive.Agrees.two (ρ := W.twin) .map ws
    generalize Primitive.two .map (ws.map (Value.rename W.twin)) = x at htwo ⊢
    generalize Primitive.two .map ws = y at htwo ⊢
    cases htwo with
    | error he => exact fun _ => .failed (.refl ..) h he
    | @ok _ y hxy =>
      obtain ⟨f, l⟩ := y
      obtain ⟨rfl, rfl⟩ := hxy
      have hf : W.Twins (f.rename W.twin) f := hws f (by simp)
      have hl : W.Twins (l.rename W.twin) l := hws l (by simp)
      have hitems := Primitive.Agrees.items (ρ := W.twin) .map l
      show Twin S O W st su
        (do
          let vs ← Eval.ofExcept (Primitive.items .map (l.rename W.twin))
          return Value.list (← vs.mapM fun v => call (f.rename W.twin) [v]))
        (do
          let ws ← Eval.ofExcept (Primitive.items .map l)
          return Value.list (← ws.mapM fun w => call' f [w])) _
      generalize Primitive.items .map (l.rename W.twin) = x at hitems ⊢
      generalize hy : Primitive.items .map l = y at hitems ⊢
      cases hitems with
      | error he => exact fun _ => .failed (.refl ..) h he
      | @ok _ ws hx =>
        subst hx
        have hws := (Twinning.twins_list.1 (Primitive.items_eq_ok hy ▸ hl)).2
        show Twin S O W st su
          ((ws.map (Value.rename W.twin)).mapM (fun v => call (f.rename W.twin) [v]) >>= fun rs => pure (Value.list rs))
          (ws.mapM (fun w => call' f [w]) >>= fun rs => pure (Value.list rs)) _
        rw [List.mapM_map]
        refine Twin.bind (Twin.mapM h (fun w hw => ?_) fun w hw W₁ st₁ su₁ hl₁ h₁ _ => ?_)
          (fun _ _ _ => Invariant.refl _)
          fun W₁ st₁ su₁ rs rs' _ _ h₁ hrs => .pure h₁ hrs
        · refine hspare.grows (h.supports_first hf) fun x hx => ?_
          rw [List.mem_singleton.1 hx]
          exact h.supports_first (hws w hw)
        · have hw₁ := (hws w hw).mono hl₁.le
          exact hcall h₁ (hc.lead hl₁ h₁) (hf.mono hl₁.le)
            (hw₁.cons (Twinning.twins_of_procedures_eq_nil rfl))
  | count =>
    obtain ⟨h₁, hl⟩ := countCall_twin h b
    refine .ok (a := (ws.map (Value.rename W.twin)).head?.getD .nil) (b := ws.head?.getD .nil) rfl rfl hl h₁ ?_
    cases ws with
    | nil => exact Twinning.twins_of_procedures_eq_nil rfl
    | cons w ws => exact hws w List.mem_cons_self
  | fail =>
    rw [List.length_map]
    exact .throw h (.refl _)
  | forward =>
    cases ws with
    | nil => exact .pure h (Twinning.twins_of_procedures_eq_nil rfl)
    | cons w ws =>
      exact hcall h hc (hws w List.mem_cons_self)
        (Twinning.twins_list.2 ⟨rfl, fun x hx => hws x (List.mem_cons_of_mem _ hx)⟩)

section
variable (hev : Parallel S ev ev') (hspare : Sparing ev)
include hev hspare

theorem callBelow_twin : ∀ n, ParallelCall S (callBelow ev n) (callBelow ev' n)
  | 0 => by
    intro O W st su v w vs ws h _ hv _
    rw [callBelow.eq_def, callBelow.eq_def, hv.eq]
    exact .throw h (EvalError.alike_notCallable w)
  | n + 1 => by
    intro O W st su v w vs ws h hc hv hargs
    obtain rfl := hv.eq
    rw [callBelow.eq_def, callBelow.eq_def]
    have hfail : (EvalError.notCallable (w.rename W.twin)).Alike (.notCallable w) := EvalError.alike_notCallable w
    cases w with
    | procedure q => exact callProcedure_twin hev h hc hv hargs
    | builtin b =>
      exact callBuiltin_twin (callBelow_twin n) (fun O base => callBelow_yields (hspare O base) n) b h hc hargs
    | list ws =>
      rw [Value.rename_list] at hfail ⊢
      exact .throw h hfail
    | number | bool | symbol | unspecified => exact .throw h hfail

theorem callValue_twin : ParallelCall S (callValue ev) (callValue ev') := by
  intro O W st su v w vs ws h hc hv hargs
  have hlength : vs.length = ws.length := by rw [(Twinning.twins_list.1 hargs).1, List.length_map]
  rw [callValue, callValue, hlength]
  exact callBelow_twin hev hspare _ h hc hv hargs

end

/-! ## Expressions -/

theorem leads_update (h : Twinned S W st su) (hs : W.scopes s) (hfloor : S.floor ≤ s)
    (values values' : List (String × Value)) :
    Leads S W st su W (st.update (W.twin.scope s) values) (su.update s values') := by
  refine .of_same (Nat.le_of_eq (size_update ..).symm) (size_update ..) (Nat.le_of_eq (fresh_update ..).symm)
    (Nat.le_of_eq (fresh_update ..).symm) (log_update .. ▸ List.suffix_cons ..) fun {t} ht hta _ _ =>
      ⟨(alive_update ..).trans hta, ?_⟩
  obtain ⟨htree, hanc, hdef⟩ := (reslots_update h.second (h.alive hs).2 values').frame hta
  exact ⟨htree, hanc, hdef, h.second.slot_update_of_lt (h.alive hs).2 hta (Nat.lt_of_lt_of_le ht hfloor) values'⟩

theorem leads_lambda (h : Twinned S W st su) :
    Leads S W st su (W.addLambda su.fresh st.fresh) st.takeFresh.2 su.takeFresh.2 where
  le := Twinning.le_addLambda (fun hl => Nat.lt_irrefl _ (h.lambda_lt hl).2) _
  size := ⟨Nat.le_refl _, Nat.le_refl _⟩
  fresh := ⟨Nat.le_succ _, Nat.le_succ _⟩
  scopes := .inl
  lambdas _ hl := hl.imp_right fun he => .inl (Nat.le_of_eq he.symm)
  apart _ hu _ _ := ⟨hu, .refl _⟩
  covered _ hle hlt := absurd hlt (Nat.not_lt_of_le hle)
  log := List.suffix_refl _

section
variable (hp : Paired S ev ev') (h : Twinned S W st su) (hs : Stands S O W st s)
include hp h hs

theorem evaluateForm_twin {items : List Expr} (he : Fragment.unassigning.Mem (.list items)) {form : Form}
    (hform : Form.ofItems items = .ok form) :
    Twin S O W st su (evaluateForm ev (W.twin.scope s) form) (evaluateForm ev' s form) fun W' _ v w =>
      W'.Twins v w := by
  have hparts := Fragment.unassigning.parts he hform
  obtain ⟨ha, hb⟩ := h.alive hs.known
  cases form with
  | nil => exact .pure h (Twinning.twins_of_procedures_eq_nil rfl)
  | quote e => exact .pure h (Twinning.twins_of_procedures_eq_nil (Value.procedures_ofExpr e))
  | conditional test consequent alternative =>
    have htest := hparts test (by simp [Form.parts])
    have hconsequent := hparts consequent (by simp [Form.parts])
    have halternative := hparts alternative (by simp [Form.parts])
    refine Twin.bind (hp.parallel h hs htest) (fun v st₁ hr => ?_) fun W₁ st₁ su₁ v w hr hl h₁ hvw => ?_
    · obtain ⟨hf₁, -, ha₁⟩ := (Grows.evaluation hp.first ha hs.active htest).next h.first hr
      split
      · exact (Grows.evaluation hp.first ha hs.active hconsequent (Nat.le_refl _) hf₁ ha₁).1
      · exact (Grows.evaluation hp.first ha hs.active halternative (Nat.le_refl _) hf₁ ha₁).1
    · rw [hvw.eq, Value.truthy_rename, ← (hl.le.scope hs.known).2]
      split
      · exact hp.parallel h₁ (hs.lead hl h₁) hconsequent
      · exact hp.parallel h₁ (hs.lead hl h₁) halternative
  | define name e =>
    have he := hparts e (by simp [Form.parts])
    refine Twin.bind (hp.parallel h hs he) (fun v st₁ hr => ?_) fun W₁ st₁ su₁ v w hr hl h₁ hvw => ?_
    · obtain ⟨hf₁, hv, ha₁⟩ := (Grows.evaluation hp.first ha hs.active he).next h.first hr
      exact Spares.bind hf₁ (ha₁ _ ha) (.inl hs.active) hv name
    · have hs₁ := hs.lead hl h₁
      have hvalues : [(name, v)] = [(name, w)].map fun x => (x.1, x.2.rename W₁.twin) := by rw [hvw.eq]; rfl
      have htwins : ∀ x ∈ [(name, w)], W₁.Twins (x.2.rename W₁.twin) x.2 := fun x hx => by
        rw [List.mem_singleton.1 hx]
        exact hvw.eq ▸ hvw
      rw [← (hl.le.scope hs.known).2]
      exact .ok rfl rfl (leads_update h₁ hs₁.known hs₁.floor _ _)
        (h₁.update hs₁.known hs₁.floor hvalues htwins) (Twinning.twins_of_procedures_eq_nil rfl)
  | assign name e => exact (Fragment.unassigning.assigning he hform).elim
  | lambda params body =>
    refine .ok rfl rfl (leads_lambda h) h.lambda ?_
    have hknows : (W.addLambda su.fresh st.fresh).Knows ⟨⟨su.fresh, params, body⟩, s, .strong⟩ :=
      ⟨hs.known, .inr rfl⟩
    have htwins := Twinning.twins_procedure hknows (hparts body (by simp [Form.parts])) rfl
    rwa [Renaming.procedure, Twinning.addLambda_self] at htwins
  | apply callee args =>
    have hcallee := hparts callee (by simp [Form.parts])
    have hargs : ∀ a ∈ args, Fragment.unassigning.Mem a := fun a ha => hparts a (List.mem_cons_of_mem _ ha)
    have hgrow : ∀ a ∈ args, Grows O st (ev a (W.twin.scope s)) := fun a haa =>
      Grows.evaluation hp.first ha hs.active (hargs a haa)
    have hcalls : SparingCall (callValue ev) := fun O base => callValue_yields (hp.first O base)
    refine Twin.bind (hp.parallel h hs hcallee) (fun f st₁ hr => ?_) fun W₁ st₁ su₁ f g hr hl h₁ hfg => ?_
    · obtain ⟨hf₁, hv, ha₁⟩ := (Grows.evaluation hp.first ha hs.active hcallee).next h.first hr
      refine (Eval.Yields.bind (Q := fun v st' => st'.Supports .unassigning v)
        (Grows.mapM hgrow (Nat.le_refl _) hf₁ ha₁) fun vs st₂ hm hvs => ?_).1
      obtain ⟨events, hev⟩ := hm.moves.evolves
      exact hcalls.grows (hv.mono fun _ => hm.moves.alive) hvs hev.size (hm.moves.formed hf₁) fun _ => id
    · obtain ⟨hf₁, hv, ha₁⟩ := (Grows.evaluation hp.first ha hs.active hcallee).next h.first hr
      have hs₁ := hs.lead hl h₁
      have hgrow₁ : ∀ a ∈ args, Grows O st₁ (ev a (W.twin.scope s)) := fun a haa _ _ hb hf ha =>
        hgrow a haa hb hf fun t ht => ha t (ha₁ t ht)
      refine Twin.bind (Twin.mapM h₁ hgrow₁ fun a haa W₂ st₂ su₂ hl₂ h₂ _ => ?_)
        (fun vs st₂ hr₂ => ?_)
        fun W₂ st₂ su₂ vs ws hr₂ hl₂ h₂ hvs => ?_
      · rw [← (hl.le.scope hs.known).2, ← (hl₂.le.scope hs₁.known).2]
        exact hp.parallel h₂ (hs₁.lead hl₂ h₂) (hargs a haa)
      · obtain ⟨hm, hvs⟩ := Grows.mapM hgrow (Nat.le_refl _) hf₁ ha₁
        rw [hr₂] at hm hvs
        exact (hcalls.grows (hv.mono fun _ => hm.moves.alive) hvs (Nat.le_refl _) (hm.moves.formed hf₁) fun _ => id).1
      · exact callValue_twin hp.parallel hp.first h₂ (hs₁.lead hl₂ h₂).toClear (hfg.mono hl₂.le) hvs

theorem evaluateBody_twin (he : Fragment.unassigning.Mem e) :
    Twin S O W st su (evaluateBody ev e (W.twin.scope s)) (evaluateBody ev' e s) fun W' _ v w => W'.Twins v w := by
  obtain ⟨ha, hb⟩ := h.alive hs.known
  cases e with
  | number n => exact .pure h (Twinning.twins_of_procedures_eq_nil rfl)
  | symbol name =>
    refine .get ((lookupAlong_twin hp h hs.toClear name (h.aligned hs.known) (fun t ht => ?_) fun t ht => ?_).imp
      fun _ _ _ _ => And.left)
    · cases ht
      exact ⟨ha, rfl⟩
    · cases ht
      exact ⟨hb, rfl⟩
  | list items =>
    cases hform : Form.ofItems items with
    | error e =>
      intro _
      rw [evaluateBody, evaluateBody, hform]
      exact .failed (.refl ..) h (.refl e)
    | ok form =>
      have := evaluateForm_twin hp h hs he hform
      rw [evaluateBody, evaluateBody, hform]
      exact this

end

/-- **One evaluation on both sides**, with those nested in it. -/
theorem evaluateStep_twin (hp : Paired S ev ev') : Parallel S (evaluateStep ev) (evaluateStep ev') := by
  intro O W st su e t h hs he
  exact .nested h hs.known (fun st₁ su₁ h₁ hl _ => evaluateBody_twin hp h₁ (hs.lead hl h₁) he)
    fun _ _ _ _ _ _ => id

/-! ## All evaluations -/

/-- **A scene in which evaluations go side by side** that may nest so deep. -/
structure Scene.Admits (S : Scene) (depth depth' : Nat) : Prop where
  strict : S.strict → depth' = depth
  site {x : Site} : S.site = some x → S.strict ∧ depth ≤ S.bound
  hidden : S.hidden → ¬ S.follows
  gap {g : Gap} : S.gap = some g → ¬ g.unread → ∀ depth, Bridges S (evaluateWithin depth)

theorem Scene.admits_plain (n depth : Nat) : (Scene.plain n).Admits depth depth :=
  ⟨fun _ => rfl, nofun, fun _ => id, nofun⟩

/-- **Evaluations go side by side** in twin stores, if definitions are evaluated unselfishly. -/
theorem parallel_evaluateWithin : ∀ {depth depth' : Nat} {S : Scene},
    (∀ d < depth, Unselfish (evaluateWithin d)) → S.Admits depth depth' →
      Parallel S (evaluateWithin depth) (evaluateWithin depth')
  | 0, depth', S, _, hS => by
    intro O W st su e t h hs _ _
    by_cases hstrict : S.strict
    · obtain rfl := hS.strict hstrict
      have htree : st.treeOf (W.twin.scope t) = su.treeOf t := by rw [treeOf, treeOf, h.tree hs.known, h.trees hstrict]
      rw [evaluateWithin_of_full (.inl rfl), evaluateWithin_of_full (.inl rfl), htree]
      exact .failed (.refl ..) h (.refl _)
    · exact .limitFirst hstrict
  | depth + 1, 0, S, _, hS => fun _ _ _ _ _ _ _ _ _ _ =>
    .limitSecond fun hstrict => absurd (hS.strict hstrict) (Nat.succ_ne_zero depth).symm
  | depth + 1, depth' + 1, S, hunselfish, hS => by
    have hlower : ∀ d < depth, Unselfish (evaluateWithin d) := fun d hd => hunselfish d (Nat.lt_succ_of_lt hd)
    have hplain : ∀ n, Paired (Scene.plain n) (evaluateWithin depth) (evaluateWithin depth) := fun n =>
      { parallel := parallel_evaluateWithin hlower (Scene.admits_plain n depth)
        first := sparing_evaluateWithin depth
        second := sparing_evaluateWithin depth
        unselfish := hunselfish depth (Nat.lt_succ_self depth)
        site := fun hx => (by cases hx)
        hidden := fun _ => id
        skips := False.elim
        gap := fun hg => (by cases hg) }
    refine evaluateStep_twin
      { parallel := parallel_evaluateWithin hlower ⟨fun hs => Nat.succ.inj (hS.strict hs), fun hx =>
          ⟨(hS.site hx).1, Nat.le_of_succ_le (hS.site hx).2⟩, hS.hidden, hS.gap⟩
        first := sparing_evaluateWithin depth
        second := sparing_evaluateWithin depth'
        unselfish := hunselfish depth (Nat.lt_succ_self depth)
        site := fun hx => ?_
        hidden := hS.hidden
        skips := fun hf => skips_evaluateWithin hplain fun hl => hS.hidden hl hf
        gap := fun hg hu => hS.gap hg hu depth' }
    obtain ⟨hstrict, hbound⟩ := hS.site hx
    obtain rfl := Nat.succ.inj (hS.strict hstrict)
    exact ⟨hunselfish _ (Nat.lt_succ_self _), hstrict, _, hbound, rfl, rfl⟩

end LazyFormula
