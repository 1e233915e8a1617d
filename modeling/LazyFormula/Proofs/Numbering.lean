import LazyFormula.Proofs.Hosts
import LazyFormula.Proofs.Replays
import LazyFormula.Proofs.Resting
/-!
# Numbers that were given out

Every lambda gets a number when it is made. So the lambdas that a host meets, in the scopes of the store and in the
values that it holds, have numbers that were given out before (`Host.Reachable.numbered`), and what is made next is none
of them: the living scopes of a store that a host can get to are a region of it.
-/
namespace LazyFormula

open Store

variable {L : Fragment} {S : Scene} {O : ScopeId → Prop} {W W' : Twinning} {st st₁ st' su su' : Store}
  {s t : ScopeId} {name : String} {v : Value} {n : Nat}

/-- A value whose lambdas have numbers below a bound. -/
def Value.Below (n : Nat) (v : Value) : Prop := ∀ p ∈ v.procedures, p.lambda.id < n

theorem Value.Below.detach (h : v.Below n) (s : ScopeId) : (v.detach s).Below n := fun p hp => by
  obtain ⟨q, hq, -, hl⟩ := (Value.agrees_detach v s).procedures hp
  exact hl ▸ h q hq

theorem Value.below_of_procedures_eq_nil (h : v.procedures = []) : v.Below n := by simp [Value.Below, h]

namespace Store

/-- **A store whose lambdas have numbers that were given out.** -/
structure Numbered (st : Store) : Prop where
  slots {t : ScopeId} {c : Scope} {name : String} {slot : Slot} :
    st.scope? t = some c → c.slots.get? name = some slot → slot.value.Below st.fresh

/-- The living scopes are a region. -/
theorem Numbered.region (h : st.Numbered) (hf : st.Formed L) :
    Region (fun t => st.alive t = true) (· < st.fresh) st where
  alive := id
  above ht hu := (hf.alive_of_mem_chain ht (List.mem_cons_of_mem _ hu)).1
  slots ht hs p hp := ⟨((hf.slots (scope?_eq_of_alive ht) hs) p hp).2.1, h.slots (scope?_eq_of_alive ht) hs p hp⟩
  lambda_lt := id

theorem Numbered.of_slots (h : st.Numbered) (hfresh : st.fresh ≤ st'.fresh)
    (hs : ∀ {t c' n slot}, st'.scope? t = some c' → c'.slots.get? n = some slot →
      (∃ c, st.scope? t = some c ∧ c.slots.get? n = some slot) ∨ slot.value.Below st'.fresh) : st'.Numbered := by
  refine ⟨fun {t c' n slot} hc' hslot => ?_⟩
  rcases hs hc' hslot with ⟨c, hc, hslot⟩ | hv
  · exact fun p hp => Nat.lt_of_lt_of_le (h.slots hc hslot p hp) hfresh
  · exact hv

theorem Numbered.congr (h : st.Numbered) (hfresh : st.fresh ≤ st'.fresh) (hs : ∀ t, st'.scope? t = st.scope? t) :
    st'.Numbered := h.of_slots hfresh fun {_ c' _ _} hc' hslot => .inl ⟨c', hs _ ▸ hc', hslot⟩

theorem Numbered.addChild (h : st.Numbered) {p : ScopeId} {values : List (String × Value)} (hp : st.alive p = true)
    (hv : ∀ x ∈ values, x.2.Below st.fresh) : (st.addChild p values).2.Numbered := by
  refine h.of_slots (Nat.le_refl _) fun {t c' n slot} hc' hslot => ?_
  by_cases ht : t = st.scopes.size
  · subst ht
    cases eq_newborn_of_addChild hp hc'
    obtain ⟨x, hx, -, rfl⟩ := newborn_slot hslot
    exact .inr (hv x hx)
  · obtain ⟨c, hc, rfl⟩ := exists_of_addChild hp ht hc'
    exact .inl ⟨c, hc, hslot⟩

theorem Numbered.update (h : st.Numbered) (hf : st.Formed L) {values : List (String × Value)} (hs : st.alive s = true)
    (hv : ∀ x ∈ values, x.2.Below st.fresh) : (st.update s values).Numbered := by
  refine h.of_slots (Nat.le_of_eq (fresh_update ..).symm) fun {t c' n slot} hc' hslot => ?_
  have ht : st.alive t = true := (alive_update ..).symm.trans (alive_of_scope? hc')
  rw [← scope_of_scope? hc', hf.slot_update hs ht] at hslot
  have hold : (st.scope t).slots.get? n = some slot → ∃ c, st.scope? t = some c ∧ c.slots.get? n = some slot :=
    fun hs => ⟨_, scope?_eq_of_alive ht, hs⟩
  split at hslot
  · rcases Option.or_eq_some_iff.1 hslot with hslot | ⟨-, hslot⟩
    · split at hslot
      · obtain ⟨v, hl, rfl⟩ := Option.map_eq_some_iff.1 hslot
        refine .inr ?_
        rw [fresh_update]
        exact (hv _ (mem_of_lookup_reverse hl)).detach s
      · cases hslot
    · exact .inl (hold (Option.filter_eq_some_iff.1 hslot).1)
  · exact .inl (hold hslot)

theorem Numbered.define (h : st.Numbered) (s : ScopeId) (name : String) (e : Expr) : (st.define s name e).Numbered := by
  have hput : ((st.record (.defining s name e)).modify s (·.putDefinition name e)).Numbered := by
    refine h.of_slots (Nat.le_refl _) fun {t c' n slot} hc' hslot => .inl ?_
    rcases scope_of_modify hc' with ⟨c, hc, -, rfl⟩ | ⟨-, hc⟩
    · exact ⟨c, hc, hslot⟩
    · exact ⟨c', hc, hslot⟩
  have hfresh : ∀ st : Store, (st.invalidate s .everything [name]).fresh = st.fresh :=
    fun st => fresh_foldl_modify (fun t => (t, Scope.clear .everything)) _ st
  refine hput.of_slots (Nat.le_of_eq (hfresh _).symm) fun {t c' n slot} hc' hslot => .inl ?_
  by_cases ht : t ∈ ((st.record (.defining s name e)).modify s (·.putDefinition name e)).reach s
  · obtain ⟨c, hc⟩ := alive_iff.1 ((alive_invalidate _ s .everything [name] t).symm.trans (alive_of_scope? hc'))
    obtain ⟨c'', hc'', hd⟩ := dropped_of_mem_reach ht hc .everything [name]
    cases hc''.symm.trans hc'
    rw [hd.slots] at hslot
    cases hslot
  · rw [Store.define, scope?_invalidate_of_not_mem ht] at hc'
    exact ⟨c', hc', hslot⟩

theorem fresh_define (st : Store) (s : ScopeId) (name : String) (e : Expr) : (st.define s name e).fresh = st.fresh :=
  fresh_foldl_modify (fun t => (t, Scope.clear .everything)) _ _

theorem Numbered.fade (h : st.Numbered) {held : List ScopeId} (hf : Fades held st st') (hfresh : st'.fresh = st.fresh) :
    st'.Numbered := by
  refine h.of_slots (Nat.le_of_eq hfresh.symm) fun {t c' n slot} hc' hslot => .inl ?_
  obtain ⟨c, l, hc, rfl, -⟩ := hf.scope hc'
  exact ⟨c, hc, hslot⟩

theorem Numbered.addRoot (h : st.Numbered) (hf : st.Formed L) (maxDepth : Nat) (bare : Bool) :
    (Session.addRoot st maxDepth bare).2.Numbered := by
  have horphan : (st.addOrphan maxDepth).2.Numbered := by
    refine h.of_slots (Nat.le_refl _) fun {t c' n slot} hc' hslot => ?_
    rw [scope?_addOrphan] at hc'
    split at hc'
    · cases hc'
      cases hslot
    · exact .inl ⟨c', hc', hslot⟩
  cases bare with
  | true => exact horphan
  | false =>
    have hnumbered : Store.Numbered { (st.addOrphan maxDepth).2 with fresh := st.fresh + Root.actions.length } :=
      horphan.congr (Nat.le_add_right ..) fun _ => rfl
    have hformed : Store.Formed L { (st.addOrphan maxDepth).2 with fresh := st.fresh + Root.actions.length } :=
      (hf.addOrphan maxDepth).congr rfl fun _ => rfl
    have hbuiltins : (st.withBuiltins maxDepth).Numbered :=
      hnumbered.update hformed (alive_addOrphan_size st maxDepth) fun x hx =>
        Value.below_of_procedures_eq_nil (procedures_standardValues _ x hx)
    exact hbuiltins.addChild (alive_withBuiltins_size st maxDepth) nofun

theorem le_fresh_addRoot (st : Store) (maxDepth : Nat) (bare : Bool) :
    st.fresh ≤ (Session.addRoot st maxDepth bare).2.fresh := by
  cases bare with
  | true => exact Nat.le_refl _
  | false =>
    have hchild : ∀ st' : Store, (st'.addChild st.scopes.size []).2.fresh = st'.fresh := fun _ => rfl
    rw [Session.addRoot, if_neg Bool.false_ne_true, addRoot_eq, hchild, withBuiltins, fresh_update]
    exact Nat.le_add_right ..

/-! ## Evaluations -/

/-- No scope that died comes back. -/
theorem Moves.alive_of_lt {own : ScopeId → Prop} (h : Moves L own st st') (ht : t < st.scopes.size)
    (ha : st'.alive t = true) : st.alive t = true := by
  induction h with
  | refl => exact ha
  | head hm _ ih =>
    obtain ⟨events, he⟩ := hm.moves.evolves
    have ha₁ := ih (Nat.lt_of_lt_of_le ht he.size) ha
    cases hm with
    | child hp hv =>
      rw [alive_addChild hp] at ha₁
      simpa [Nat.ne_of_lt ht] using ha₁
    | memoize => exact (alive_put ..).symm.trans ha₁
    | bind => exact (alive_update ..).symm.trans ha₁
    | assign _ _ _ h => exact (alive_assign? h t).symm.trans ha₁
    | record | count | fresh | depth => exact ha₁

/-- The living scopes and the numbers that were given out, with themselves as twins. -/
def whole (st : Store) : Twinning := .self (fun t => st.alive t = true) (· < st.fresh)

theorem Numbered.twinned (h : st.Numbered) (hf : st.Formed .unassigning) (hn : n ≤ st.scopes.size) :
    Twinned (Scene.plain n) st.whole st st := (h.region hf).twinned hf hn

/-- **An evaluation beside itself** leaves a store whose lambdas have numbers, and so has its value. -/
theorem numbered_of_outcome {own : ScopeId → Prop} {r : Except EvalError Value} (hm : Moves L own st st')
    (hrun : Outcome (Scene.plain 0) st.whole st st (fun W _ v w => W.Twins v w) (r, st') (r, st')) :
    st'.Numbered ∧ ∀ v, r = .ok v → v.Below st'.fresh := by
  have hall : ∀ {W'}, Leads (Scene.plain 0) st.whole st st W' st' st' → Twinned (Scene.plain 0) W' st' st' →
      st'.Numbered := by
    intro W' hl h'
    refine ⟨fun {t c name slot} hc hslot p hp => ?_⟩
    have ht : W'.scopes t := by
      by_cases hlt : t < st.scopes.size
      · exact (hl.le.scope (hm.alive_of_lt hlt (alive_of_scope? hc))).1
      · exact hl.covered rfl (Nat.le_of_not_lt hlt) (lt_size_of_alive (alive_of_scope? hc))
    have hregion := h'.region_second id fun _ hh => hh.1
    exact hregion.lambda_lt (hregion.slots ht (by rwa [scope_of_scope? hc]) p hp).2
  cases r with
  | ok v =>
    cases hrun with
    | read hg => cases hg
    | ok hl h' hv =>
      refine ⟨hall hl h', fun w hw p hp => ?_⟩
      cases hw
      exact (h'.lambda_lt (hv.knows p hp).2).2
  | error e =>
    refine ⟨?_, nofun⟩
    cases hrun with
    | failed hl h' => exact hall hl h'
    | limitFirst hs => exact absurd trivial hs
    | limitSecond hs => exact absurd trivial hs
    | behind hf => exact hf.elim
    | astray _ ha => exact absurd rfl ha.site_ne_none
    | caught hx => cases hx
    | read hg => cases hg

end Store

/-- Two evaluators that are the same one. -/
theorem paired_plain (n depth : Nat) : Paired (Scene.plain n) (evaluateWithin depth) (evaluateWithin depth) where
  parallel := parallel_evaluateWithin (fun d _ => unselfish_evaluateWithin d) (Scene.admits_plain n depth)
  first := sparing_evaluateWithin depth
  second := sparing_evaluateWithin depth
  unselfish := unselfish_evaluateWithin depth
  site := nofun
  hidden := fun _ => id
  skips := False.elim
  gap := nofun

/-! ## Hosts -/

namespace Host

variable {h h' : Host}

/-- **A host whose lambdas have numbers that were given out.** -/
structure Numbered (h : Host) : Prop where
  store : h.store.Numbered
  values {v : Value} : v ∈ h.values → v.Below h.store.fresh

theorem Numbered.knows (hn : h.Numbered) {v : Value} (hv : h.Knows v) : v.Below h.store.fresh := by
  intro p hp
  obtain ⟨w, hw, hpw⟩ := hv p hp
  exact hn.values hw p hpw

/-- A host whose store changed. -/
theorem Numbered.change (hn : h.Numbered) {st : Store} {scopes : List ScopeId} (hst : st.Numbered)
    (hfresh : h.store.fresh ≤ st.fresh) : Numbered ⟨st, scopes, h.values⟩ :=
  ⟨hst, fun hv p hp => Nat.lt_of_lt_of_le (hn.values hv p hp) hfresh⟩

/-- A host after a computation that goes beside itself. -/
theorem Numbered.after {base : Nat} (hn : h.Numbered) {x : Eval Value}
    (hx : Eval.Yields (Spares O base) h.store x fun v st => st.Supports .unassigning v)
    (hrun : Outcome (Scene.plain 0) h.store.whole h.store h.store (fun W _ v w => W.Twins v w)
      (x h.store) (x h.store)) : (h.after (x h.store)).Numbered := by
  obtain ⟨hm, -⟩ := hx
  have hafter := numbered_of_outcome hm.moves hrun
  have hchange : Numbered ⟨(x h.store).2, h.scopes, h.values⟩ := hn.change hafter.1 hm.fresh
  refine ⟨hchange.store, fun {v} hv => ?_⟩
  unfold Host.after at hv ⊢
  dsimp only at hv ⊢
  cases hr : (x h.store).1 with
  | error e =>
    rw [hr] at hv
    exact hchange.values hv
  | ok w =>
    rw [hr] at hv
    rcases List.mem_cons.1 hv with rfl | hv
    · exact hafter.2 v hr
    · exact hchange.values hv

section
variable (hn : h.Numbered) (hf : h.Formed .unassigning)
include hn hf

theorem Numbered.evaluate {e : Expr} (hs : h.store.alive s = true) (he : Fragment.unassigning.Mem e) :
    (h.after (Eval.evaluate e s h.store)).Numbered := by
  have hself := hn.store.twinned hf.store (Nat.zero_le _)
  have hready : h.store.Ready .unassigning (fun t => False ∨ h.store.scopes.size ≤ t) :=
    ready_spares hf.store (Nat.le_refl _)
  refine hn.after (Eval.evaluate_yields hready he hs) ?_
  have hrun := (paired_plain 0 h.store.depthLeft).parallel.child hself (.nowhere ..) [] [] hs hs
    (hself.aligned hs) rfl rfl nofun he
  exact (hrun False.elim).after (leads_child hself s hs [] [])

theorem Numbered.evaluateIn {e : Expr} (hs : h.store.alive s = true) (he : Fragment.unassigning.Mem e) :
    (h.after (Eval.evaluateIn e s h.store)).Numbered := by
  have hself := hn.store.twinned hf.store (Nat.zero_le _)
  have hstands : Stands (Scene.plain 0) (· = s) h.store.whole h.store s :=
    { made := fun hu => hu ▸ lt_size_of_alive hs
      apart := fun _ ho => ho.1.elim
      known := hs
      floor := Nat.zero_le _
      active := rfl }
  have hready : h.store.Ready .unassigning (fun t => t = s ∨ h.store.scopes.size ≤ t) :=
    ready_spares hf.store (Nat.le_refl _)
  exact hn.after (Eval.evaluateIn_yields hready he hs (.inl rfl))
    ((paired_plain 0 h.store.depthLeft).parallel hself hstands he False.elim)

theorem Numbered.lookup (hs : h.store.alive s = true) (name : String) :
    (h.after (Eval.lookup s name h.store)).Numbered := by
  have hself := hn.store.twinned hf.store (Nat.zero_le _)
  have hready : h.store.Ready .unassigning (fun t => False ∨ h.store.scopes.size ≤ t) :=
    ready_spares hf.store (Nat.le_refl _)
  have hchain : ∀ t ∈ (h.store.chain s).head?, h.store.alive t = true ∧ h.store.chain s = h.store.chain t := by
    intro t ht
    cases ht
    exact ⟨hs, rfl⟩
  have hrun :=
    lookupAlong_twin (paired_plain 0 h.store.depthLeft) hself (.nowhere ..) name (hself.aligned hs) hchain hchain
  refine hn.after (Eval.lookup_yields hready hs name) ?_
  rw [Eval.lookup_apply]
  exact (hrun False.elim).imp fun _ _ _ _ hfound => hfound.1

theorem Numbered.call {f : Value} {args : List Value} (hk : h.Knows f) (ha : ∀ v ∈ args, h.Knows v) :
    (h.after (Eval.call f args h.store)).Numbered := by
  have hself := hn.store.twinned hf.store (Nat.zero_le _)
  have hready : h.store.Ready .unassigning (fun t => False ∨ h.store.scopes.size ≤ t) :=
    ready_spares hf.store (Nat.le_refl _)
  have htwins : ∀ {v}, h.Knows v → h.store.whole.Twins v v := fun hv =>
    ⟨fun p hp => ⟨(hf.knows hv p hp).2.1, hn.knows hv p hp⟩, fun p hp =>
      ⟨(hf.knows hv p hp).1, (hf.knows hv p hp).2.2⟩,
      (Value.mapProcedures_eq_self fun p hp => by
        rw [Renaming.procedure, ← (hf.knows hv p hp).2.2]
        rfl).symm⟩
  have hargs : h.store.whole.Twins (.list args) (.list args) := by
    refine Twinning.twins_list.2 ⟨?_, fun v hv => (htwins (ha v hv)).eq ▸ htwins (ha v hv)⟩
    exact (List.map_id' args).symm.trans (List.map_congr_left fun v hv => (htwins (ha v hv)).eq)
  refine hn.after (Eval.call_yields hready (hf.knows hk) fun v hv => hf.knows (ha v hv)) ?_
  exact callValue_twin (paired_plain 0 h.store.depthLeft).parallel (sparing_evaluateWithin _) hself (.nowhere ..)
    (htwins hk) hargs False.elim

end

theorem Step.numbered (hs : Step .unassigning h h') (hf : h.Formed .unassigning) (hn : h.Numbered) : h'.Numbered := by
  cases hs with
  | root maxDepth bare =>
    exact hn.change (hn.store.addRoot hf.store maxDepth bare) (le_fresh_addRoot ..)
  | child hs hv => exact hn.change (hn.store.addChild (hf.scopes hs) fun x hx => hn.knows (hv x hx)) (Nat.le_refl _)
  | parent => exact ⟨hn.store, hn.values⟩
  | fresh => exact hn.change (hn.store.congr (Nat.le_succ _) fun _ => rfl) (Nat.le_succ _)
  | define name hs he => exact hn.change (hn.store.define _ name _) (Nat.le_of_eq (fresh_define ..).symm)
  | update hs hv =>
    exact hn.change (hn.store.update hf.store (hf.scopes hs) fun x hx => hn.knows (hv x hx))
      (Nat.le_of_eq (fresh_update ..).symm)
  | assign _ hL => exact hL.elim
  | evaluate hs he => exact hn.evaluate hf (hf.scopes hs) he
  | evaluateIn hs he => exact hn.evaluateIn hf (hf.scopes hs) he
  | lookup name hs => exact hn.lookup hf (hf.scopes hs) name
  | call hk ha => exact hn.call hf hk ha
  | drop hs hv => exact ⟨hn.store, fun hw => hn.values (hv hw)⟩
  | sweep =>
    exact hn.change (hn.store.fade (fades_sweep h.held h.store) (Memoryless.fresh_sweep ..))
      (Nat.le_of_eq (Memoryless.fresh_sweep ..).symm)
  | log events => exact hn.change (hn.store.congr (Nat.le_refl _) fun _ => rfl) (Nat.le_refl _)

/-- **Whatever a host does, the lambdas that it meets have numbers that were given out.** -/
theorem Reachable.numbered (hr : Reachable .unassigning h) : h.Numbered := by
  induction hr with
  | init => exact ⟨⟨fun hc => by cases hc⟩, nofun⟩
  | step hr hs ih => exact hs.numbered hr.formed ih

end Host
end LazyFormula
