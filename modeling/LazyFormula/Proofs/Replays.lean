import LazyFormula.Proofs.TwinEvaluation
/-!
# Evaluations that are done again

An evaluation that ended is followed by the same one in a store that has gone on from there (`Region.replays`): what
the first one memoized is found at once. From this it follows that an evaluator is unselfish
(`unselfish_evaluateWithin`). If a definition that is being forced were forced again and had a value then, this inner
evaluation would not force it once more, by induction on the nesting that is left. But it goes the way of the outer
one, which did.
-/
namespace LazyFormula

open Scene (Aligned SlotTwins)
open Store

variable {S : Scene} {O : ScopeId → Prop} {W W' : Twinning} {R : ScopeId → Prop} {Λ : Nat → Prop}
  {past st st₁ st' su su₁ su' : Store} {s t u : ScopeId} {name : String} {e : Expr} {error : EvalError}
  {v w : Value} {floor depth depth' : Nat} {exact strict : Prop}

/-! ## Following an evaluation that ended -/

/-- **The scene in which an evaluation follows one that ended.** -/
def Scene.replay (past : Store) (floor : Nat) (exact strict : Prop) : Scene where
  past := past
  floor := floor
  follows := True
  exact := exact
  strict := strict
  veiled _ := False
  hidden := False
  gap := none
  site := none
  bound := 0

theorem Scene.admits_replay (past : Store) (floor : Nat) (exact : Prop) (hstrict : strict → depth' = depth) :
    (Scene.replay past floor exact strict).Admits depth depth' :=
  ⟨hstrict, nofun, False.elim, nofun⟩

/-- **A store that kept what was there**, and made more. -/
structure Store.Keeping (st st' : Store) : Prop where
  size : st.scopes.size ≤ st'.scopes.size
  fresh : st.fresh ≤ st'.fresh
  scope {t : ScopeId} : st.alive t = true → st'.alive t = true ∧ (st.scope t).Kept (st'.scope t)

theorem Store.Keeping.refl (st : Store) : st.Keeping st :=
  ⟨Nat.le_refl _, Nat.le_refl _, fun ht => ⟨ht, .refl _⟩⟩

theorem Store.Keeping.empty (st : Store) : Store.empty.Keeping st :=
  ⟨Nat.zero_le _, Nat.zero_le _, fun ha => absurd (lt_size_of_alive ha) (Nat.not_lt_zero _)⟩

theorem Store.Spares.keeping (h : Spares (fun _ => False) st.scopes.size st st') : st.Keeping st' where
  size := let ⟨_, he⟩ := h.moves.evolves; he.size
  fresh := h.fresh
  scope ht := by
    obtain ⟨c, hc, hs⟩ := h.all (scope?_eq_of_alive ht)
    rw [scope_of_scope? hc]
    exact ⟨alive_of_scope? hc, hs.toKept⟩

/-- **Where the evaluation that is followed started**, what was there has itself as its twin. -/
theorem Store.Region.replays (hR : Region R Λ st) (hf : st.Formed .unassigning) (hf' : su.Formed .unassigning)
    (hst : st.Keeping past) (hsu : past.Keeping su) (hfloor : past.scopes.size ≤ floor ∧ floor ≤ su.scopes.size)
    (htrees : strict → st.trees = su.trees)
    (hexact : exact → ∀ t name, past.alive t = true → (past.scope t).slots.get? name = none →
      (su.scope t).slots.get? name = none) :
    Twinned (Scene.replay past floor exact strict) (Twinning.self R Λ) st su where
  first := hf
  second := hf'
  trees := htrees
  floor := hfloor
  fresh := hsu.fresh
  alive ht := ⟨hR.alive ht, (hsu.scope (hst.scope (hR.alive ht)).1).1⟩
  scopes _ _ := id
  lambdas _ _ := id
  lambda_lt hl := ⟨hR.lambda_lt hl, Nat.lt_of_lt_of_le (hR.lambda_lt hl) (Nat.le_trans hst.fresh hsu.fresh)⟩
  oldLambda _ _ := rfl
  settled ht _ :=
    { self := rfl
      kept := (hst.scope (hR.alive ht)).2.trans (hsu.scope (hst.scope (hR.alive ht)).1).2
      ancestors := fun _ hu => hR.above ht hu
      slots := fun hs p hp =>
        have hp := hR.slots ht hs p hp
        ⟨hp, ⟨trivial, Nat.lt_of_lt_of_le (lt_size_of_alive (hR.alive hp.1)) hst.size⟩, trivial,
          Nat.lt_of_lt_of_le (hR.lambda_lt hp.2) hst.fresh⟩ }
  matched ht ho := absurd ⟨trivial, Nat.lt_of_lt_of_le (lt_size_of_alive (hR.alive ht)) hst.size⟩ ho
  veiled := False.elim
  past := hsu.scope
  gap := nofun
  site := nofun
  exact he _ ht hn := hexact he _ _ ht hn

/-- **An evaluation in a new scope follows the same one that ended.** -/
theorem replay_evaluateWithin (hunselfish : ∀ d < depth, Unselfish (evaluateWithin d))
    (hstrict : strict → depth' = depth)
    (h : Twinned (Scene.replay past floor exact strict) W st su) (hs : W.scopes s) (he : Fragment.unassigning.Mem e)
    {r : Except EvalError Value}
    (hr : evaluateWithin depth e st.scopes.size (st.addChild (W.twin.scope s) []).2 = (r, past)) :
    Outcome (Scene.replay past floor exact strict) (W.addScope su.scopes.size st.scopes.size)
      (st.addChild (W.twin.scope s) []).2 (su.addChild s []).2 (fun W' _ v w => W'.Twins v w) (r, past)
      (evaluateWithin depth' e su.scopes.size (su.addChild s []).2) := by
  have hrun :=
    (parallel_evaluateWithin hunselfish (Scene.admits_replay past floor exact hstrict)).child h (.nowhere ..) [] []
    (h.alive hs).1 (h.alive hs).2 (h.aligned hs) (h.tree hs) rfl nofun he
  rw [Twin, hr] at hrun
  exact hrun fun _ => ⟨Nat.le_refl _, Nat.le_refl _, fun ht _ => ⟨ht, .refl _⟩, fun _ _ _ _ hn => hn⟩

/-! ## A definition that is forced while it is forced -/

/-- **The scene in which one definition fails.** -/
def Scene.halting (floor : Nat) (x : Site) (bound : Nat) : Scene :=
  { Scene.plain floor with
    site := some x
    bound := bound }

/-- The scopes of a region in which a look-up of a name comes to a definition. -/
def siteOf (R : ScopeId → Prop) (st : Store) (t : ScopeId) (name : String) (e : Expr) : Site where
  scope := t
  name := name
  body := e
  segment u := R u ∧ Defers st name u t

theorem unassigning_halt : Fragment.unassigning.Mem .halt := by
  show Expr.halt.unassigning = true
  decide

/-- **A store and the same store with a definition that fails** are twins. -/
theorem Store.Region.halts (hR : Region R Λ st) (hf : st.Formed .unassigning) (ht : R t)
    (hslot : (st.scope t).slots.get? name = none) (hdef : (st.scope t).definitions.get? name = some e) :
    Twinned (Scene.halting st.scopes.size (siteOf R st t name e) depth) (Twinning.self R Λ)
      (st.modify t (·.putDefinition name .halt)) st := by
  have halive : ∀ u, (st.modify t (·.putDefinition name .halt)).alive u = st.alive u := fun u => alive_modify ..
  have hscope : ∀ u, st.alive u = true → ∃ d, (st.modify t (·.putDefinition name .halt)).scope u =
      { st.scope u with definitions := d } ∧ (d = (st.scope u).definitions ∨
        u = t ∧ d = (st.scope u).definitions.insert name .halt) := by
    intro u hu
    obtain ⟨c', hc'⟩ := alive_iff.1 ((halive u).trans hu)
    rw [scope_of_scope? hc']
    rcases scope_of_modify hc' with ⟨c, hc, hut, rfl⟩ | ⟨-, hc⟩
    · rw [scope_of_scope? hc]
      exact ⟨_, rfl, .inr ⟨hut, rfl⟩⟩
    · rw [scope_of_scope? hc]
      exact ⟨_, rfl, .inl rfl⟩
  have hplain := hR.twinned hf (Nat.le_refl _)
  refine
    { first := hf.putDefinition unassigning_halt t name
      second := hf
      trees := fun _ => rfl
      floor := hplain.floor
      fresh := hplain.fresh
      alive := fun {u} hu => ⟨(halive u).trans (hR.alive hu), hR.alive hu⟩
      scopes := hplain.scopes
      lambdas := hplain.lambdas
      lambda_lt := hplain.lambda_lt
      oldLambda := fun _ _ => rfl
      settled := fun _ ho => ho.1.elim
      matched := fun {u} hu _ => ?_
      veiled := False.elim
      past := fun hu => absurd (lt_size_of_alive hu) (Nat.not_lt_zero _)
      gap := nofun
      site := fun hx => ?_
      exact := False.elim }
  · have hm := hplain.matched hu fun ho => ho.1
    obtain ⟨d, hd, hcases⟩ := hscope u (hR.alive hu)
    show Scene.Matched _ _ u ((st.modify t (·.putDefinition name .halt)).scope u) (st.scope u)
    rw [hd]
    refine ⟨hm.tree, hm.ancestors, fun n => ?_, fun n => hm.slots n⟩
    rcases hcases with rfl | ⟨rfl, rfl⟩
    · exact .inl rfl
    · by_cases hn : n = name
      · exact .inr ⟨_, rfl, rfl, hn.symm⟩
      · exact .inl ((Bindings.get?_insert ..).trans (if_neg hn))
  · cases hx
    refine ⟨id, rfl, id, ⟨ht, .refl t⟩, ?_, hdef, fun {u} hu =>
      ⟨hu.1, lt_size_of_alive (hR.alive hu.1), hu.2.slot hslot, ?_⟩⟩
    · obtain ⟨d, hd, hcases⟩ := hscope t (hR.alive ht)
      show ((st.modify t (·.putDefinition name .halt)).scope t).definitions.get? name = some .halt
      obtain ⟨c', hc'⟩ := alive_iff.1 ((halive t).trans (hR.alive ht))
      rcases scope_of_modify hc' with ⟨c, hc, -, rfl⟩ | ⟨hne, -⟩
      · rw [scope_of_scope? hc']
        exact (Bindings.get?_insert ..).trans (if_pos rfl)
      · exact absurd rfl hne
    · obtain ⟨hu, hd⟩ := hu
      cases hd with
      | refl => exact .inl rfl
      | up _ hdef' hp hd => exact .inr ⟨hdef', _, hp, hR.above hu (List.mem_of_mem_head? hp), hd⟩

/-- **No evaluation goes astray**: the definition has no value where it is forced while it is forced. -/
theorem not_astray : ∀ {depth : Nat} {x : Site} {W : Twinning} {st su st' : Store} {error : EvalError},
    (∀ d < depth, Unselfish (evaluateWithin d)) → Twinned (Scene.halting floor x depth) W st su →
      evaluateWithin depth x.body st.scopes.size (st.addChild (W.twin.scope x.scope) []).2 = (.error error, st') →
        ¬ error.OfDepth → ¬ (Scene.halting floor x depth).Astray W st' := by
  intro depth
  induction depth using Nat.strongRecOn with
  | _ depth ih =>
    rintro x W st su st' error hunselfish h hr hdepth ⟨_, W₁, su₁, j, w, ⟨⟩, hj, hW, h₁, hw⟩
    have hhalts := h.site rfl
    have hs := (hhalts.segment hhalts.here).1
    have hbody : Fragment.unassigning.Mem x.body :=
      h.second.definitions (scope?_eq_of_alive (h.alive hs).2) hhalts.second
    obtain ⟨hs₁, htwin⟩ := hW.scope hs
    have hspares := h.first.spares_child (h.alive hs).1 hbody depth
    rw [hr] at hspares
    -- the inner evaluation, in the store with the definition that fails
    let st₂ : Store := st'.withTrees su₁.trees
    have hdrift : Twinned { Scene.halting floor x depth with strict := False } W₁ st₂ su₁ :=
      h₁.drift (drifts_of_scope? rfl (Nat.le_refl _) fun _ => rfl) (.refl su₁)
        (h₁.first.congr rfl fun _ => rfl) h₁.second
        False.elim
    have h₂ : Twinned (Scene.halting floor x j) W₁ st₂ su₁ :=
      hdrift.rescene rfl rfl rfl rfl rfl rfl rfl (fun _ => rfl) False.elim
    have hlower : ∀ d < j, Unselfish (evaluateWithin d) := fun d hd => hunselfish d (Nat.lt_trans hd hj)
    have hinner : ∃ v, (evaluateWithin j x.body st₂.scopes.size (st₂.addChild (W.twin.scope x.scope) []).2).1 =
        .ok v := by
      have hadmits : (Scene.halting floor x j).Admits j j :=
        ⟨fun _ => rfl, fun _ => ⟨trivial, Nat.le_refl _⟩, fun _ => id, fun hg => (by cases hg)⟩
      have hrun :=
        (parallel_evaluateWithin hlower hadmits).child h₂ (.nowhere ..) [] []
        (h₂.alive hs₁).1 (h₂.alive hs₁).2
        (h₂.aligned hs₁) (h₂.tree hs₁) rfl (List.forall_mem_nil _) hbody
      rw [← htwin]
      rw [Twin] at hrun
      have hfail : ∀ st' error, evaluateWithin j x.body st₂.scopes.size
          (st₂.addChild (W₁.twin.scope x.scope) []).2 =
          (.error error, st') → ¬ error.OfDepth → ¬ (Scene.halting floor x j).Astray W₁ st' :=
            fun _ _ => ih j hj hlower h₂
      generalize evaluateWithin j x.body st₂.scopes.size (st₂.addChild (W₁.twin.scope x.scope) []).2 = p
        at hrun hfail ⊢
      generalize evaluateWithin j x.body su₁.scopes.size (su₁.addChild x.scope []).2 = q at hrun hw
      cases hrun False.elim with
      | ok => exact ⟨_, rfl⟩
      | failed => cases hw
      | limitFirst hs => exact absurd trivial hs
      | limitSecond hs => exact absurd trivial hs
      | behind hf => exact hf.elim
      | astray he ha =>
        exact absurd (ha.after (leads_child h₂ (W₁.twin.scope x.scope) (h₂.alive hs₁).2 [] []).le)
          (hfail _ _ rfl he)
      | caught => cases hw
      | read hg => cases hg
    obtain ⟨v, hv⟩ := hinner
    -- it follows the outer one, which failed
    have hkept : st'.Keeping st₂ := ⟨Nat.le_refl _, Nat.le_refl _, fun ht => ⟨ht, .refl _⟩⟩
    have hreplays : Twinned (Scene.replay st' st'.scopes.size True False) (Twinning.self _ _) st st₂ :=
      h.region_first.replays h.first (h₁.first.congr rfl fun _ => rfl) hspares.keeping hkept
        ⟨Nat.le_refl _, Nat.le_refl _⟩
        False.elim fun _ _ _ _ => id
    have hrun : Outcome _ _ _ _ (fun W' _ v w => W'.Twins v w) _
        (evaluateWithin j x.body st₂.scopes.size (st₂.addChild (W.twin.scope x.scope) []).2) :=
      replay_evaluateWithin hunselfish False.elim hreplays ⟨_, hs, rfl⟩ hbody hr
    generalize evaluateWithin j x.body st₂.scopes.size (st₂.addChild (W.twin.scope x.scope) []).2 = q at hrun hv
    cases hrun with
    | failed => cases hv
    | limitFirst => exact hdepth ⟨_, rfl⟩
    | limitSecond => cases hv
    | behind _ he => exact he trivial
    | astray _ ha => exact absurd rfl ha.site_ne_none
    | caught hx => cases hx
    | read hg => cases hg

/-- **Evaluations are unselfish.** -/
theorem unselfish_evaluateWithin (depth : Nat) : Unselfish (evaluateWithin depth) := by
  induction depth using Nat.strongRecOn with
  | _ depth ih =>
    intro R Λ st t u name e hf hR ht hslot hdef hu hdefers
    have h : Twinned (Scene.halting st.scopes.size (siteOf R st t name e) depth) _ _ _ := hR.halts hf ht hslot hdef
    have hs : (Twinning.self R Λ).scopes t := ht
    have hadmits : (Scene.halting st.scopes.size (siteOf R st t name e) depth).Admits depth depth :=
      ⟨fun _ => rfl, fun _ => ⟨trivial, Nat.le_refl _⟩, fun _ => id, nofun⟩
    have he : Fragment.unassigning.Mem e := hf.definitions (scope?_eq_of_alive (hR.alive ht)) hdef
    have hsegment : (siteOf R st t name e).segment u := ⟨hu, hdefers⟩
    have hrun := force_twin (parallel_evaluateWithin ih hadmits) h (.nowhere ..) hs name he False.elim
    have hnone : ∀ {W' st₁ su₁},
        Twinned (Scene.halting st.scopes.size (siteOf R st t name e) depth) W' st₁ su₁ →
        (su₁.scope u).slots.get? name = none := fun h' => ((h'.site rfl).segment hsegment).2.2.1
    have hrec := h.record (.forcing t name e) (.forcing t name e)
    have hleft : ∀ {error st'}, force (evaluateWithin depth) t name e (st.modify t (·.putDefinition name .halt)) =
        (.error error, st') →
        evaluateWithin depth e st.scopes.size
          (((st.modify t (·.putDefinition name .halt)).record (.forcing t name e)).addChild t []).2 =
          (.error error, st') := by
      intro error st' hr
      rw [force_apply, size_modify] at hr
      rcases hq : evaluateWithin depth e st.scopes.size
        (((st.modify t (·.putDefinition name .halt)).record (.forcing t name e)).addChild t []).2 with ⟨r, st₁⟩
      rw [hq] at hr
      cases r with
      | ok v => cases hr
      | error e' => cases hr; rfl
    have htwin : (Twinning.self R Λ).twin.scope t = t := rfl
    rw [htwin] at hrun
    generalize hp : force (evaluateWithin depth) t name e (st.modify t (·.putDefinition name .halt)) = p at hrun
    generalize force (evaluateWithin depth) t name e st = q at hrun ⊢
    cases hrun with
    | ok _ h' => exact hnone h'
    | failed _ h' => exact hnone h'
    | limitFirst hs => exact absurd trivial hs
    | limitSecond hs => exact absurd trivial hs
    | behind hf => exact hf.elim
    | astray hd ha =>
      refine absurd ha (not_astray ih hrec ?_ hd)
      rw [size_record, size_modify]
      exact hleft hp
    | caught hx hcaught =>
      cases hx
      exact hcaught u hsegment
    | read hg => cases hg

end LazyFormula
