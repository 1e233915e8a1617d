import LazyFormula.Proofs.Regions
import LazyFormula.Proofs.Resolving
import LazyFormula.Proofs.TwinRuns
/-!
# Definitions forced side by side

What two evaluators have to do with each other for their look-ups to go side by side (`Paired`), and the two steps of a
look-up that misses: a definition is forced, and the value is memoized.
-/
namespace LazyFormula

open Scene (Aligned SlotTwins)
open Store

variable {S : Scene} {O : ScopeId → Prop} {W W' : Twinning} {st st₁ st' su su' : Store} {s t u : ScopeId}
  {name : String}
  {e : Expr} {v w : Value} {ev ev' : Evaluator} {a b : ScopeId} {values values' : List (String × Value)}

/-! ## Scopes that hold nothing but memoized values -/

theorem Bindings.isEmpty_iff {α : Type} {b : Bindings α} : b.isEmpty = true ↔ ∀ name, b.get? name = none := by
  rw [Bindings.isEmpty, List.isEmpty_iff, List.eq_nil_iff_forall_not_mem]
  constructor
  · intro h name
    refine Option.eq_none_iff_forall_ne_some.2 fun x hx => h _ (Bindings.get?_eq_some.1 hx)
  · rintro h ⟨name, x⟩ hx
    rw [← Bindings.get?_eq_some, h] at hx
    cases hx

theorem Scope.holdsOnlyDerived_iff {c : Scope} : c.holdsOnlyDerived = true ↔
    (∀ name, c.definitions.get? name = none) ∧
    ∀ name slot, c.slots.get? name = some slot → slot.kind = .derived := by
  rw [Scope.holdsOnlyDerived, Bool.and_eq_true, Bindings.isEmpty_iff, List.all_eq_true]
  refine and_congr_right fun _ => ⟨fun h name slot hs => ?_, fun h slot hs => ?_⟩
  · exact beq_iff_eq.1 (h slot (Bindings.mem_values.2 ⟨name, hs⟩))
  · obtain ⟨name, hs⟩ := Bindings.mem_values.1 hs
    exact beq_iff_eq.2 (h name slot hs)

/-- **Twin scopes hold nothing but memoized values at the same time.** -/
theorem Store.Twinned.holdsOnlyDerived_eq (h : Twinned S W st su) (ht : W.scopes t) (ho : ¬ S.Old t)
    (hsite : ∀ x, S.site = some x → x.scope ≠ t) :
    (st.scope (W.twin.scope t)).holdsOnlyDerived = (su.scope t).holdsOnlyDerived := by
  have hm := h.matched ht ho
  rw [Bool.eq_iff_iff, Scope.holdsOnlyDerived_iff, Scope.holdsOnlyDerived_iff]
  refine and_congr (forall_congr' fun n => ?_) (forall_congr' fun n => (hm.slots n).derived_iff)
  rcases hm.definitions n with hd | ⟨x, hx, hxs, -⟩
  · rw [hd]
  · exact absurd hxs (hsite x hx)

/-! ## Where the first evaluation writes -/

/-- **The first evaluation writes in no scope from before it ended**, but for those that it has no twin of. -/
structure Clear (S : Scene) (O : ScopeId → Prop) (W : Twinning) (st : Store) : Prop where
  made {u : ScopeId} : O u → u < st.scopes.size
  apart {u : ScopeId} : W.scopes u → S.Old u → ¬ O u

/-- The scopes written in, with the next one that is made. -/
def entering (O : ScopeId → Prop) (st : Store) (u : ScopeId) : Prop := O u ∨ u = st.scopes.size

namespace Clear

theorem nowhere (S : Scene) (W : Twinning) (st : Store) : Clear S (fun _ => False) W st :=
  ⟨False.elim, fun _ _ => id⟩

theorem lead (h : Clear S O W st) (hl : Leads S W st su W' st' su') (ht : Twinned S W' st' su') : Clear S O W' st' where
  made hO := Nat.lt_of_lt_of_le (h.made hO) hl.size.1
  apart {u} hu ho hO := by
    rcases hl.scopes hu with hu' | ⟨hle, -⟩
    · exact h.apart hu' ho hO
    · rw [(ht.settled hu ho).self] at hle
      exact Nat.not_le_of_lt (h.made hO) hle

theorem avoids (h : Clear S O W st) (ht : Twinned S W st su) (hs : W.scopes s) (ho : S.Old s) : st.Avoids O s := by
  intro u hu
  rcases List.mem_cons.1 hu with rfl | hu
  · exact h.apart hs ho
  · obtain ⟨hW, hold⟩ := ht.old_above hs ho hu
    exact h.apart hW hold

theorem enter (h : Clear S O W st) (ht : Twinned S W st su) (values : List (String × Value)) :
    Clear S (entering O st) (W.addScope su.scopes.size st.scopes.size) (st.addChild a values).2 where
  made hO := by
    rw [size_addChild]
    rcases hO with hO | rfl
    · exact Nat.lt_succ_of_lt (h.made hO)
    · exact Nat.lt_succ_self _
  apart {u} hu ho hO := by
    rcases hu with hu | rfl
    · rcases hO with hO | rfl
      · exact h.apart hu ho hO
      · have hself := (ht.settled hu ho).self
        exact Nat.lt_irrefl _ (hself ▸ (ht.lt_size hu).1)
    · exact Nat.not_lt_of_le (Nat.le_trans ht.floor.1 ht.floor.2) ho.2

end Clear

/-- **Where an evaluation stands**: in a scope that was made meanwhile and that the first evaluation may write in. -/
structure Stands (S : Scene) (O : ScopeId → Prop) (W : Twinning) (st : Store) (t : ScopeId) : Prop
    extends Clear S O W st where
  known : W.scopes t
  floor : S.floor ≤ t
  active : O (W.twin.scope t)

theorem Stands.lead (h : Stands S O W st t) (hl : Leads S W st su W' st' su') (ht : Twinned S W' st' su') :
    Stands S O W' st' t where
  toClear := h.toClear.lead hl ht
  known := (hl.le.scope h.known).1
  floor := h.floor
  active := (hl.le.scope h.known).2 ▸ h.active

/-! ## Evaluators -/

/-- **Evaluators side by side.** -/
def Parallel (S : Scene) (ev ev' : Evaluator) : Prop :=
  ∀ ⦃O : ScopeId → Prop⦄ ⦃W : Twinning⦄ ⦃st su : Store⦄ ⦃e : Expr⦄ ⦃t : ScopeId⦄,
    Twinned S W st su → Stands S O W st t →
    Fragment.unassigning.Mem e →
      Twin S O W st su (ev e (W.twin.scope t)) (ev' e t) fun W' _ v w => W'.Twins v w

/-- **An evaluator that spares** the scopes that it is not given to write in. -/
def Sparing (ev : Evaluator) : Prop :=
  ∀ (O : ScopeId → Prop) (base : Nat), Sound .unassigning (fun t => O t ∨ base ≤ t) (Spares O base) ev

theorem sparing_evaluateWithin (depth : Nat) : Sparing (evaluateWithin depth) := fun _ _ => evaluateWithin_sound depth

/-- **The second evaluation finds what the first one looked up**, where this has ended. -/
def Skips (S : Scene) (ev : Evaluator) : Prop :=
  ∀ {O : ScopeId → Prop} {W : Twinning} {st su : Store} {t : ScopeId} {name : String} {v : Value} {st' : Store},
    Twinned S W st su → Clear S O W st → W.scopes t → S.Old t → (st.scope t).slots.get? name = none →
      lookupAlong ev name (st.chain t) st = (.ok v, st') → Ahead S O (Except.ok (ε := EvalError) v, st') →
        ∃ W' slot, Leads S W st su W' st' su ∧ Twinned S W' st' su ∧ (su.scope t).slots.get? name = some slot ∧
          W'.Twins v (slot.value.attach su.alive)

/-- **The second evaluator makes and memoizes what the first store alone has.** -/
def Bridges (S : Scene) (ev' : Evaluator) : Prop :=
  ∀ {g : Gap} {W : Twinning} {st su : Store} {a : Slot}, S.gap = some g → Twinned S W st su →
    (su.scope g.scope).slots.get? g.name = none → (st.scope g.scope).slots.get? g.name = some a →
    a.kind = .derived →
      a.value.Agrees (.procedure g.procedure) →
        Outcome S W st su (fun W' su' _ w => W'.Twins (.procedure g.procedure) w ∧
            ∃ slot, (su'.scope g.scope).slots.get? g.name = some slot ∧ w.Agrees slot.value)
          (Except.ok (ε := EvalError) (), st)
          ((do
            let w ← force ev' g.scope g.name g.body
            memoize g.scope g.name (su.scope g.scope).generation w
            return w : Eval Value) su)

/-- **Two evaluators whose look-ups go side by side.** -/
structure Paired (S : Scene) (ev ev' : Evaluator) : Prop where
  parallel : Parallel S ev ev'
  first : Sparing ev
  second : Sparing ev'
  unselfish : Unselfish ev
  site {x : Site} : S.site = some x → Unselfish ev' ∧ S.strict ∧
    ∃ j < S.bound, ev = evaluateWithin j ∧ ev' = evaluateWithin j
  hidden : S.hidden → ¬ S.follows
  skips : S.follows → Skips S ev
  gap {g : Gap} : S.gap = some g → ¬ g.unread → Bridges S ev'

/-! ## Changes that both make -/

namespace Store.Twinned

/-- Both evaluations log. -/
theorem record (h : Twinned S W st su) (e e' : Event) : Twinned S W (st.record e) (su.record e') :=
  h.drift (drifts_of_scope? rfl (Nat.le_refl _) fun _ => rfl) (drifts_of_scope? rfl (Nat.le_refl _) fun _ => rfl)
    (h.first.congr rfl fun _ => rfl) (h.second.congr rfl fun _ => rfl) h.trees

end Store.Twinned

theorem leads_record (S : Scene) (W : Twinning) (st su : Store) (e e' : Event) :
    Leads S W st su W (st.record e) (su.record e') :=
  .of_scope? rfl rfl (Nat.le_refl _) (Nat.le_refl _) (List.suffix_cons ..) fun _ => rfl

theorem leads_child (h : Twinned S W st su) (a : ScopeId) (hb : su.alive b = true)
    (values values' : List (String × Value)) :
    Leads S W st su (W.addScope su.scopes.size st.scopes.size) (st.addChild a values).2 (su.addChild b values').2 where
  le := Twinning.le_addScope (fun hs => Nat.lt_irrefl _ (h.lt_size hs).2) _
  size := ⟨by simp, by simp⟩
  fresh := ⟨Nat.le_refl _, Nat.le_refl _⟩
  scopes {t} ht := by
    rcases ht with ht | rfl
    · exact .inl ht
    · rw [Twinning.addScope_self]
      exact .inr ⟨Nat.le_refl _, .inl (Nat.le_refl _)⟩
  lambdas _ := .inl
  apart _ ha _ _ := (drifts_addChild hb values').scope ha
  covered {t} _ hle hlt := by
    rw [size_addChild] at hlt
    exact .inr (Nat.le_antisymm (Nat.le_of_lt_succ hlt) hle)
  log := List.suffix_refl _

/-- **Evaluations in new scopes go side by side.** -/
theorem Parallel.child (hev : Parallel S ev ev') (h : Twinned S W st su) (hc : Clear S O W st)
    (values values' : List (String × Value)) (ha : st.alive a = true) (hb : su.alive b = true)
    (halign : Aligned S.Hidden W (st.chain a) (su.chain b))
    (htree : (st.scope a).tree = (su.scope b).tree) (hvalues : values = values'.map fun x => (x.1, x.2.rename W.twin))
    (hv : ∀ x ∈ values', W.Twins (x.2.rename W.twin) x.2) (he : Fragment.unassigning.Mem e) :
    Twin S (entering O st) (W.addScope su.scopes.size st.scopes.size) (st.addChild a values).2 (su.addChild b values').2
      (ev e st.scopes.size) (ev' e su.scopes.size) fun W' _ v w => W'.Twins v w := by
  have hstands : Stands S (entering O st) (W.addScope su.scopes.size st.scopes.size) (st.addChild a values).2
      su.scopes.size :=
    { toClear := hc.enter h values
      known := .inr rfl
      floor := h.floor.2
      active := .inr (Twinning.addScope_self ..) }
  have := hev (h.child values values' ha hb halign htree hvalues hv) hstands he
  rwa [Twinning.addScope_self] at this

/-- What a new scope gave is recaptured on both sides, if the scope holds nothing but memoized values. -/
theorem Store.Twinned.recaptured (h : Twinned S W st su) {x : ScopeId} (hs : W.scopes s) (hx : W.scopes x)
    (hnew : S.floor ≤ x) (hvw : W.Twins v w) :
    W.Twins (if (st.scope (W.twin.scope x)).holdsOnlyDerived then v.recapture (W.twin.scope x) (W.twin.scope s) else v)
      (if (su.scope x).holdsOnlyDerived then w.recapture x s else w) := by
  have hold : ¬ S.Old x := fun ho => Nat.not_lt_of_le (Nat.le_trans h.floor.1 hnew) ho.2
  rw [h.holdsOnlyDerived_eq hx hold fun z hz he => Nat.not_le_of_lt ((h.site hz).segment (h.site hz).here).2.1
    (he ▸ hnew)]
  split
  · exact hvw.recapture (fun u hu he => h.scopes hu hx he) hs
  · exact hvw

/-- **A definition is forced on both sides.** -/
theorem force_twin (hev : Parallel S ev ev') (h : Twinned S W st su) (hc : Clear S O W st) (hs : W.scopes s)
    (name : String) (he : Fragment.unassigning.Mem e) :
    Twin S O W st su (force ev (W.twin.scope s) name e) (force ev' s name e) fun W' _ v w => W'.Twins v w := by
  have hrec := h.record (.forcing (W.twin.scope s) name e) (.forcing s name e)
  obtain ⟨ha, hb⟩ := hrec.alive hs
  have hlead := (leads_record S W st su (.forcing (W.twin.scope s) name e) (.forcing s name e)).trans
    (leads_child hrec (W.twin.scope s) hb [] [])
  have hc' : Clear S O W (st.record (.forcing (W.twin.scope s) name e)) := ⟨hc.made, hc.apart⟩
  have hrun := hev.child hrec hc' [] [] ha hb (hrec.aligned hs) (hrec.tree hs) rfl nofun he
  intro hA
  rw [force_apply] at hA
  rw [force_apply, force_apply]
  rw [size_record, size_record] at hrun hlead
  have hrun := hrun fun hf => by
    refine ((hA hf).congr ?_ ?_ ?_ ?_).mono fun _ => .inl
    all_goals
      rcases ev e st.scopes.size _ with ⟨r, st₂⟩
      cases r with
      | ok v => simp
      | error e => simp
  generalize ev e st.scopes.size _ = p at hrun ⊢
  obtain ⟨r, st₂⟩ := p
  cases r with
  | error e =>
    refine Outcome.of_error (hrun.after hlead) fun e' su' hq => ?_
    rw [hq]
  | ok v =>
    generalize ev' e su.scopes.size _ = q at hrun ⊢
    cases hrun with
    | limitSecond hs => exact .limitSecond hs
    | read hg hu hread => exact .read hg hu (hread.after hlead.log)
    | @ok W' st' su' v w hl h' hvw =>
      have hl' := hlead.trans hl
      obtain ⟨hknown, htwin⟩ := hl.le.scope (t := su.scopes.size) (.inr rfl)
      rw [Twinning.addScope_self] at htwin
      have hrecaptured := h'.recaptured (hl'.le.scope hs).1 hknown h.floor.2 hvw
      rw [htwin, (hl'.le.scope hs).2] at hrecaptured
      exact .ok hl' h' hrecaptured

/-! ## Memoizing side by side -/

/-- What is memoized was ahead of the past before. -/
theorem Ahead.of_put {r : Except EvalError Value × Store}
    (hA : Ahead S O (Except.ok (ε := EvalError) v, st₁.put a name w .derived))
    (hnone : (st₁.scope a).slots.get? name = none) (hr : r = (.ok v, st₁)) : Ahead S O r := by
  subst hr
  refine ⟨by simpa [put] using hA.size, hA.fresh, fun {t} ht hav => ?_, nofun⟩
  have ht' : (st₁.put a name w .derived).alive t = true := (alive_put ..).trans ht
  obtain ⟨htree, hanc, hdef⟩ := (reslots_put st₁ a name w .derived).frame ht
  obtain ⟨hpast, hkept⟩ := hA.scope ht' (by rw [Avoids, chain, hanc]; exact hav)
  refine ⟨hpast, hkept.tree.trans htree, hkept.ancestors.trans hanc, hkept.definitions.trans hdef,
    fun {n slot} hslot => ?_⟩
  refine hkept.slots ?_
  rw [slot_put _ ht, if_neg, hslot]
  rintro ⟨rfl, rfl⟩
  rw [hnone] at hslot
  cases hslot

/-- What a value is to be memoized as, where values of parents are. -/
def Lifted (S : Scene) (name : String) (su : Store) (s : ScopeId) (su' : Store) (w : Value) : Prop :=
  S.veiled s → ∀ u ∈ (su.scope s).parent?, ∃ slot, (su'.scope u).slots.get? name = some slot ∧
    w.Agrees slot.value

/-- **What was sought on both sides is memoized on both sides**, in a scope that was made meanwhile. -/
theorem memoized_twin (h : Twinned S W st su) (hs : W.scopes s) (ho : ¬ S.Old s)
    {x y : Eval Value} (hx : Twin S O W st su x y fun W' su' v w => W'.Twins v w ∧ Lifted S name su s su' w)
    (hspare : Spares (fun _ => False) st.scopes.size st (x st).2)
    (hspare' : Spares (fun _ => False) su.scopes.size su (y su).2)
    (hleaves : ((x st).2.scope (W.twin.scope s)).slots.get? name = none)
    (hsite : ∀ z, S.site = some z → z.segment s → z.name = name → ∀ v st', x st ≠ (.ok v, st')) :
    Twin S O W st su
      (do let v ← x; memoize (W.twin.scope s) name (st.scope (W.twin.scope s)).generation v; return v)
      (do let v ← y; memoize s name (su.scope s).generation v; return v)
      fun W' su' v w => W'.Twins v w ∧ ∃ slot, (su'.scope s).slots.get? name = some slot ∧
        w.Agrees slot.value := by
  obtain ⟨ha, hb⟩ := h.alive hs
  obtain ⟨c, hc, hspared⟩ := hspare.all (scope?_eq_of_alive ha)
  obtain ⟨d, hd, hspared'⟩ := hspare'.all (scope?_eq_of_alive hb)
  intro hA
  rw [memoized_apply] at hA
  rw [memoized_apply, memoized_apply]
  have hx := hx fun hf => by
    have hA := hA hf
    rcases hr : x st with ⟨r, st₁⟩
    rw [hr] at hA hc hleaves
    cases r with
    | error e => exact hA
    | ok v =>
      dsimp only at hA hc hleaves
      rw [scope_of_scope? hc, if_pos hspared.generation] at hA
      exact hA.of_put hleaves rfl
  generalize x st = p at hx hc hleaves hsite ⊢
  obtain ⟨r, st₁⟩ := p
  cases r with
  | error e =>
    refine hx.of_error fun e' su' hq => ?_
    rw [hq]
  | ok v =>
    generalize y su = q at hx hd ⊢
    cases hx with
    | limitSecond hs => exact .limitSecond hs
    | read hg hu hread =>
      dsimp only at hc ⊢
      rw [scope_of_scope? hc, if_pos hspared.generation]
      exact .read hg hu hread
    | @ok W₁ _ su₁ _ w hl h₁ hvw =>
      dsimp only at hc hd hleaves ⊢
      obtain ⟨hs₁, htwin⟩ := hl.le.scope hs
      rw [scope_of_scope? hc, scope_of_scope? hd, if_pos hspared.generation, if_pos hspared'.generation]
      have hnone : (su₁.scope s).slots.get? name = none := by
        have hslots := (h₁.matched hs₁ ho).slots name
        rw [htwin, hleaves] at hslots
        generalize (su₁.scope s).slots.get? name = b at hslots
        cases hslots
        rfl
      have hparent : (su₁.scope s).parent? = (su.scope s).parent? := by
        rw [scope_of_scope? hd, Scope.parent?, hspared'.ancestors, Scope.parent?]
      have hmemo := h₁.memoize hs₁ ho hvw.1 hnone (fun hv u hu => hvw.2 hv u (hparent ▸ hu)) fun z hz hseg hn =>
        hsite z hz hseg hn v st₁ rfl
      rw [htwin] at hmemo
      have hput : (su₁.put s name w .derived).scope s = (su₁.scope s).put name ⟨w.detach s, .derived⟩ :=
        scope_of_scope? (by rw [scope?_put, if_pos rfl, scope?_eq_of_alive (h₁.alive hs₁).2, Option.map_some])
      refine .ok
        (hl.trans (.of_same (by simp [put]) (by simp [put]) (Nat.le_refl _) (Nat.le_refl _) (List.suffix_refl _) ?_))
        hmemo
        ⟨hvw.1, _, by rw [hput, Scope.get?_put, if_pos rfl], ?_⟩
      · intro t _ hta _ hold
        refine ⟨(alive_put ..).trans hta, ?_⟩
        have hne : t ≠ s := by
          rintro rfl
          exact ho (hold hs₁)
        rw [scope, scope, scope?_put, if_neg hne]
        exact .refl _
      · exact (Value.agrees_detach w s).symm

end LazyFormula
