import LazyFormula.Proofs.TwinChanges
/-!
# Computations side by side

Two computations on twin stores end alike: with twin results on twin stores, or with failures that a host cannot tell
apart (`Outcome`). What else may happen is set by the scene. There is one rule for each way in which computations are
put together.
-/
namespace LazyFormula

open Scene (Aligned SlotTwins)
open Store

variable {S : Scene} {O O' : ScopeId → Prop} {W W₁ W' : Twinning} {st st₁ st' su su₁ su' : Store}
  {s t u : ScopeId} {α β γ δ : Type}

/-! ## What becomes of twin stores -/

/-- **Twin stores later on.** What has a twin keeps it; what got one was made since. -/
structure Leads (S : Scene) (W : Twinning) (st su : Store) (W' : Twinning) (st' su' : Store) : Prop where
  le : W.Le W'
  size : st.scopes.size ≤ st'.scopes.size ∧ su.scopes.size ≤ su'.scopes.size
  fresh : st.fresh ≤ st'.fresh ∧ su.fresh ≤ su'.fresh
  scopes {t : ScopeId} : W'.scopes t →
    W.scopes t ∨ st.scopes.size ≤ W'.twin.scope t ∧ (su.scopes.size ≤ t ∨ S.Old t)
  lambdas {l : Nat} : S.gap = none → W'.lambdas l → W.lambdas l ∨ su.fresh ≤ l ∨ S.OldLambda l
  /-- Scopes that had no twins stay as they are. -/
  apart {t : ScopeId} : t < S.floor → su.alive t = true → ¬ S.Hidden t → (W.scopes t → S.Old t) →
    su'.alive t = true ∧ (su.scope t).Steady (su'.scope t)
  covered {t : ScopeId} : S.gap = none → su.scopes.size ≤ t → t < su'.scopes.size → W'.scopes t
  log : st.log <:+ st'.log

namespace Leads

theorem trans (h : Leads S W st su W₁ st₁ su₁) (h' : Leads S W₁ st₁ su₁ W' st' su') :
    Leads S W st su W' st' su' where
  le := h.le.trans h'.le
  size := ⟨Nat.le_trans h.size.1 h'.size.1, Nat.le_trans h.size.2 h'.size.2⟩
  fresh := ⟨Nat.le_trans h.fresh.1 h'.fresh.1, Nat.le_trans h.fresh.2 h'.fresh.2⟩
  scopes {t} ht := by
    rcases h'.scopes ht with ht | ⟨hlt, ho⟩
    · rw [(h'.le.scope ht).2]
      exact h.scopes ht
    · exact .inr ⟨Nat.le_trans h.size.1 hlt, ho.imp_left (Nat.le_trans h.size.2)⟩
  lambdas hg hl := by
    rcases h'.lambdas hg hl with hl | hl | hl
    · exact h.lambdas hg hl
    · exact .inr (.inl (Nat.le_trans h.fresh.2 hl))
    · exact .inr (.inr hl)
  apart {t} hlt ha hh hold := by
    obtain ⟨ha₁, hs₁⟩ := h.apart hlt ha hh hold
    obtain ⟨ha', hs'⟩ := h'.apart hlt ha₁ hh fun ht =>
      (h.scopes ht).elim hold fun hnew => hnew.2.resolve_left fun hle => Nat.not_lt_of_le hle (lt_size_of_alive ha)
    exact ⟨ha', hs₁.trans hs'⟩
  covered {t} hg hle hlt := by
    by_cases ht : t < su₁.scopes.size
    · exact (h'.le.scope (h.covered hg hle ht)).1
    · exact h'.covered hg (Nat.le_of_not_lt ht) hlt
  log := h.log.trans h'.log

/-- Changes in which nothing gets a twin. -/
theorem of_same (hsize : st.scopes.size ≤ st'.scopes.size) (hsize' : su'.scopes.size = su.scopes.size)
    (hfresh : st.fresh ≤ st'.fresh) (hfresh' : su.fresh ≤ su'.fresh)
    (hlog : st.log <:+ st'.log) (hapart : ∀ {t}, t < S.floor → su.alive t = true → ¬ S.Hidden t →
      (W.scopes t → S.Old t) →
      su'.alive t = true ∧ (su.scope t).Steady (su'.scope t)) : Leads S W st su W st' su' where
  le := .refl W
  size := ⟨hsize, Nat.le_of_eq hsize'.symm⟩
  fresh := ⟨hfresh, hfresh'⟩
  scopes := .inl
  lambdas _ := .inl
  apart := hapart
  covered _ hle hlt := absurd (hsize' ▸ hlt) (Nat.not_lt_of_le hle)
  log := hlog

theorem refl (S : Scene) (W : Twinning) (st su : Store) : Leads S W st su W st su :=
  .of_same (Nat.le_refl _) rfl (Nat.le_refl _) (Nat.le_refl _) (List.suffix_refl _) fun _ ha _ _ => ⟨ha, .refl _⟩

/-- Changes that leave all scopes. -/
theorem of_scope? (hsize : st'.scopes.size = st.scopes.size) (hsize' : su'.scopes.size = su.scopes.size)
    (hfresh : st.fresh ≤ st'.fresh) (hfresh' : su.fresh ≤ su'.fresh) (hlog : st.log <:+ st'.log)
    (hs : ∀ t, su'.scope? t = su.scope? t) : Leads S W st su W st' su' :=
  .of_same (Nat.le_of_eq hsize.symm) hsize' hfresh hfresh' hlog fun {t} _ ha _ _ => by
    rw [Store.alive, Store.scope, Store.scope, hs]
    exact ⟨ha, .refl _⟩

end Leads

/-! ## Outcomes -/

/-- The second evaluation may have a value where the first one failed: it went on from a store that is a twin of the one
left by the failure, and forced the definition there with less room than the whole had. -/
def Scene.Astray (S : Scene) (W : Twinning) (st' : Store) : Prop :=
  ∃ x W₁ su₁ j w, S.site = some x ∧ j < S.bound ∧ W.Le W₁ ∧
    Twinned { S with strict := False } W₁ st' su₁ ∧
      (evaluateWithin j x.body su₁.scopes.size (su₁.addChild x.scope []).2).1 = .ok w

theorem Scene.Astray.after (h : S.Astray W₁ st') (hW : W.Le W₁) : S.Astray W st' := by
  obtain ⟨x, W₂, su₂, j, w, hx, hj, hW₂, h₂⟩ := h
  exact ⟨x, W₂, su₂, j, w, hx, hj, hW.trans hW₂, h₂⟩

theorem Scene.Astray.site_ne_none (h : S.Astray W st') : S.site ≠ none := by
  obtain ⟨x, W₁, su₁, j, w, hx, -⟩ := h
  rw [hx]
  exact Option.some_ne_none x

/-- A value was read where a gap is. -/
def Gap.Read (g : Gap) (st st' : Store) : Prop :=
  ∃ events, st'.log = events ++ st.log ∧ .cacheHit g.scope g.name ∈ events

theorem Gap.Read.after {g : Gap} (h : g.Read st₁ st') (hlog : st.log <:+ st₁.log) : g.Read st st' := by
  obtain ⟨events, he, hm⟩ := h
  obtain ⟨before, hb⟩ := hlog
  exact ⟨events ++ before, by rw [he, ← hb, List.append_assoc], List.mem_append_left _ hm⟩

theorem Gap.Read.before {g : Gap} (h : g.Read st st₁) (hlog : st₁.log <:+ st'.log) : g.Read st st' := by
  obtain ⟨events, he, hm⟩ := h
  obtain ⟨after, ha⟩ := hlog
  exact ⟨after ++ events, by rw [← ha, he, List.append_assoc], List.mem_append_right _ hm⟩

/-- **How two computations end** that start from twin stores. -/
inductive Outcome (S : Scene) (W : Twinning) (st su : Store) (P : Twinning → Store → α → β → Prop) :
    Except EvalError α × Store → Except EvalError β × Store → Prop
  | ok {W' : Twinning} {st' su' : Store} {a : α} {b : β} (hl : Leads S W st su W' st' su') (h : Twinned S W' st' su')
      (hp : P W' su' a b) : Outcome S W st su P (.ok a, st') (.ok b, su')
  | failed {W' : Twinning} {st' su' : Store} {e e' : EvalError} (hl : Leads S W st su W' st' su')
      (h : Twinned S W' st' su') (he : e.Alike e') : Outcome S W st su P (.error e, st') (.error e', su')
  /-- The first evaluation was nested too deep. -/
  | limitFirst {limit : Nat} {st' : Store} {r : Except EvalError β × Store} (hs : ¬ S.strict) :
      Outcome S W st su P (.error (.depthLimit limit), st') r
  | limitSecond {limit : Nat} {su' : Store} {r : Except EvalError α × Store} (hs : ¬ S.strict) :
      Outcome S W st su P r (.error (.depthLimit limit), su')
  /-- The first evaluation failed where the second one has a value. -/
  | behind {e : EvalError} {st' : Store} {r : Except EvalError β × Store} (hf : S.follows) (he : ¬ S.exact) :
      Outcome S W st su P (.error e, st') r
  /-- The first evaluation forced the definition that fails, and the second one has a value. -/
  | astray {e : EvalError} {st' : Store} {r : Except EvalError β × Store} (he : ¬ e.OfDepth) (h : S.Astray W st') :
      Outcome S W st su P (.error e, st') r
  /-- The first evaluation forced the definition that fails, and so it did in the second one. -/
  | caught {x : Site} {e e' : EvalError} {st' su' : Store} (hx : S.site = some x)
      (hnone : ∀ u, x.segment u → (su'.scope u).slots.get? x.name = none) :
      Outcome S W st su P (.error e, st') (.error e', su')
  /-- The first evaluation read the value that it alone has, of which nothing is said. -/
  | read {g : Gap} {r : Except EvalError α × Store} {r' : Except EvalError β × Store} (hg : S.gap = some g)
      (hu : g.unread) (h : g.Read st r.2) : Outcome S W st su P r r'

/-- **The first computation does not go beyond the past**, but for scopes that it still writes in. -/
structure Ahead (S : Scene) (O : ScopeId → Prop) (r : Except EvalError α × Store) : Prop where
  size : r.2.scopes.size ≤ S.past.scopes.size
  fresh : r.2.fresh ≤ S.past.fresh
  scope {t : ScopeId} : r.2.alive t = true → r.2.Avoids O t →
    S.past.alive t = true ∧ (r.2.scope t).Kept (S.past.scope t)
  exact {t : ScopeId} {name : String} {e : EvalError} : S.exact → r.1 = .error e → r.2.alive t = true →
    r.2.Avoids O t →
    (r.2.scope t).slots.get? name = none → (S.past.scope t).slots.get? name = none

/-- **Two computations on twin stores that end alike.** -/
def Twin (S : Scene) (O : ScopeId → Prop) (W : Twinning) (st su : Store) (x : Eval α) (y : Eval β)
    (P : Twinning → Store → α → β → Prop) : Prop :=
  (S.follows → Ahead S O (x st)) → Outcome S W st su P (x st) (y su)

variable {P : Twinning → Store → α → β → Prop} {Q : Twinning → Store → γ → δ → Prop}

theorem Outcome.imp {P' : Twinning → Store → α → β → Prop} {p : Except EvalError α × Store}
    {q : Except EvalError β × Store}
    (h : Outcome S W st su P p q) (hp : ∀ W' su' a b, P W' su' a b → P' W' su' a b) : Outcome S W st su P' p q := by
  cases h with
  | ok hl h hpq => exact .ok hl h (hp _ _ _ _ hpq)
  | failed hl h he => exact .failed hl h he
  | limitFirst hs => exact .limitFirst hs
  | limitSecond hs => exact .limitSecond hs
  | behind hf he => exact .behind hf he
  | astray he h => exact .astray he h
  | caught hx hnone => exact .caught hx hnone
  | read hg hu h => exact .read hg hu h

/-- What was done before. -/
theorem Outcome.after {p : Except EvalError α × Store} {q : Except EvalError β × Store}
    (hl : Leads S W st su W₁ st₁ su₁)
    (h : Outcome S W₁ st₁ su₁ P p q) : Outcome S W st su P p q := by
  cases h with
  | ok hl' h hpq => exact .ok (hl.trans hl') h hpq
  | failed hl' h he => exact .failed (hl.trans hl') h he
  | limitFirst hs => exact .limitFirst hs
  | limitSecond hs => exact .limitSecond hs
  | behind hf he => exact .behind hf he
  | astray he h => exact .astray he (h.after hl.le)
  | caught hx hnone => exact .caught hx hnone
  | read hg hu h => exact .read hg hu (h.after hl.log)

/-- What failed goes on as anything. -/
theorem Outcome.of_error {e : EvalError} {x : Except EvalError β × Store} {y : Except EvalError δ × Store}
    (h : Outcome S W st su P (.error e, st') x) (hy : ∀ e' su', x = (.error e', su') → y = (.error e', su')) :
    Outcome S W st su Q (.error e, st') y := by
  cases h with
  | failed hl h he => exact hy _ _ rfl ▸ .failed hl h he
  | limitFirst hs => exact .limitFirst hs
  | limitSecond hs => exact hy _ _ rfl ▸ .limitSecond hs
  | behind hf he => exact .behind hf he
  | astray he h => exact .astray he h
  | caught hx hnone => exact hy _ _ rfl ▸ .caught hx hnone
  | read hg hu h => exact .read hg hu h

theorem Ahead.mono {r : Except EvalError α × Store} (h : Ahead S O r) (hO : ∀ u, O u → O' u) : Ahead S O' r :=
  ⟨h.size, h.fresh, fun ha hav => h.scope ha fun u hu hOu => hav u hu (hO u hOu),
    fun he hr ha hav => h.exact he hr ha fun u hu hOu => hav u hu (hO u hOu)⟩

theorem Ahead.congr {r : Except EvalError α × Store} {r' : Except EvalError β × Store} (h : Ahead S O r)
    (hsize : r'.2.scopes.size = r.2.scopes.size) (hfresh : r'.2.fresh = r.2.fresh)
    (hs : ∀ t, r'.2.scope? t = r.2.scope? t) (he : ∀ e, r'.1 = .error e → ∃ e', r.1 = .error e') :
    Ahead S O r' := by
  have halive : ∀ t, r'.2.alive t = r.2.alive t := fun t => by rw [Store.alive, hs, Store.alive]
  have hscope : ∀ t, r'.2.scope t = r.2.scope t := fun t => by rw [Store.scope, hs, Store.scope]
  have havoids : ∀ t, r'.2.Avoids O t → r.2.Avoids O t := fun t hav u hu => hav u (by rwa [chain, hscope])
  refine ⟨hsize ▸ h.size, hfresh ▸ h.fresh, fun {t} ha hav => ?_, fun {t n e} hex hr ha hav hn => ?_⟩
  · rw [hscope]
    exact h.scope (halive t ▸ ha) (havoids t hav)
  · obtain ⟨e', hr⟩ := he e hr
    exact h.exact hex hr (halive t ▸ ha) (havoids t hav) (hscope t ▸ hn)

theorem Store.Spares.log {base : Nat} (h : Spares O base st st') : st.log <:+ st'.log := by
  obtain ⟨events, he⟩ := h.moves.evolves
  exact ⟨events, he.log.symm⟩

/-- What a computation spares after a point is there at this point. -/
theorem Ahead.of_spares {r : Except EvalError α × Store} (h : Ahead S O r) {a : β}
    (hs : Spares O st.scopes.size st r.2) : Ahead S O (Except.ok a, st) := by
  obtain ⟨events, he⟩ := hs.moves.evolves
  refine ⟨Nat.le_trans he.size h.size, Nat.le_trans hs.fresh h.fresh, fun {t} ha hav => ?_, nofun⟩
  obtain ⟨c', hc', hspared⟩ := hs.scope (lt_size_of_alive ha) hav (scope?_eq_of_alive ha)
  have hav' : r.2.Avoids O t := by
    rw [Avoids, chain, scope_of_scope? hc', hspared.ancestors]
    exact hav
  obtain ⟨hpast, hkept⟩ := h.scope (alive_of_scope? hc') hav'
  rw [scope_of_scope? hc'] at hkept
  exact ⟨hpast, hspared.toKept.trans hkept⟩

/-! ## Rules -/

namespace Twin

theorem ok {x : Eval α} {y : Eval β} {a : α} {b : β} (hx : x st = (.ok a, st')) (hy : y su = (.ok b, su'))
    (hl : Leads S W st su W' st' su') (h : Twinned S W' st' su') (hp : P W' su' a b) : Twin S O W st su x y P := by
  intro _
  rw [hx, hy]
  exact .ok hl h hp

theorem pure (h : Twinned S W st su) {a : α} {b : β} (hp : P W su a b) : Twin S O W st su (pure a) (pure b) P :=
  .ok rfl rfl (.refl ..) h hp

theorem throw (h : Twinned S W st su) {e e' : EvalError} (he : e.Alike e') :
    Twin S O W st su (throw e : Eval α) (throw e' : Eval β) P := fun _ => .failed (.refl ..) h he

theorem ofExcept (h : Twinned S W st su) {r : α → β → Prop} {x : Except EvalError α} {y : Except EvalError β}
    (hxy : Primitive.Agrees r x y) (hp : ∀ a b, r a b → y = .ok b → P W su a b) :
    Twin S O W st su (Eval.ofExcept x) (Eval.ofExcept y) P := by
  cases hxy with
  | ok hr => exact pure h (hp _ _ hr rfl)
  | error he => exact throw h he

theorem get {f : Store → Eval α} {g : Store → Eval β} (h : Twin S O W st su (f st) (g su) P) :
    Twin S O W st su (MonadState.get >>= f) (MonadState.get >>= g) P := h

theorem imp {P' : Twinning → Store → α → β → Prop} {x : Eval α} {y : Eval β} (h : Twin S O W st su x y P)
    (hp : ∀ W' su' a b, P W' su' a b → P' W' su' a b) : Twin S O W st su x y P' := fun hA => (h hA).imp hp

/-- **One computation after another.** What the first one left is spared by what goes on from there. -/
theorem bind {x : Eval α} {y : Eval β} {f : α → Eval γ} {g : β → Eval δ} (hx : Twin S O W st su x y P)
    (hgrow : ∀ a st₁, x st = (.ok a, st₁) → Spares O st₁.scopes.size st₁ (f a st₁).2)
    (hf : ∀ W₁ st₁ su₁ a b, x st = (.ok a, st₁) → Leads S W st su W₁ st₁ su₁ →
      Twinned S W₁ st₁ su₁ → P W₁ su₁ a b →
      Twin S O W₁ st₁ su₁ (f a) (g b) Q) : Twin S O W st su (x >>= f) (y >>= g) Q := by
  intro hA
  rw [bind_apply] at hA
  rw [bind_apply, bind_apply]
  have hx := hx fun hfo => by
    have hA := hA hfo
    rcases hr : x st with ⟨r, st₁⟩
    rw [hr] at hA
    cases r with
    | error e => exact hA.congr rfl rfl (fun _ => rfl) fun e' _ => ⟨e, rfl⟩
    | ok a => exact hA.of_spares (hgrow a st₁ hr)
  have hf := fun W₁ st₁ su₁ a b hr hl h hp => hf W₁ st₁ su₁ a b hr hl h hp
  generalize x st = p at hx hA hf hgrow ⊢
  generalize y su = q at hx ⊢
  obtain ⟨r, st₁⟩ := p
  cases r with
  | error e =>
    refine hx.of_error fun e' su' hq => ?_
    rw [hq]
  | ok a =>
    cases hx with
    | ok hl h hp => exact (hf _ _ _ _ _ rfl hl h hp hA).after hl
    | limitSecond hs => exact .limitSecond hs
    | read hg hu h => exact .read hg hu (h.before (hgrow a st₁ rfl).log)

/-- **One more evaluation in progress.** -/
theorem nested (h : Twinned S W st su) (hs : W.scopes s) {x : Eval α} {y : Eval β}
    (hxy : ∀ st₁ su₁, Twinned S W st₁ su₁ → Leads S W st su W st₁ su₁ →
      st₁ = st.setDepth (st.scope (W.twin.scope s)).tree (· + 1) → Twin S O W st₁ su₁ x y P)
    (hp : ∀ W' su' a b i f, P W' su' a b → P W' (su'.setDepth i f) a b) :
    Twin S O W st su (Eval.nested (W.twin.scope s) x) (Eval.nested s y) P := by
  have htree := h.tree hs
  intro hA
  unfold Eval.nested at hA ⊢
  dsimp only at hA ⊢
  unfold Store.treeOf at hA ⊢
  rw [htree] at hA ⊢
  generalize (su.scope s).tree = i at hA htree ⊢
  by_cases hlt : (st.trees[i]?.getD default).depth < (st.trees[i]?.getD default).maxDepth
  · rw [if_pos hlt] at hA ⊢
    by_cases hlt' : (su.trees[i]?.getD default).depth < (su.trees[i]?.getD default).maxDepth
    · rw [if_pos hlt']
      have hdeep : ∀ {W' : Twinning} {st su : Store} (f : Nat → Nat), Twinned S W' st su →
          Twinned S W' (st.setDepth i f) (su.setDepth i f) ∧
            Leads S W' st su W' (st.setDepth i f) (su.setDepth i f) := by
        intro W' st su f h
        refine ⟨h.drift (drifts_of_scope? rfl (Nat.le_refl _) fun _ => rfl)
          (drifts_of_scope? rfl (Nat.le_refl _) fun _ => rfl) (h.first.congr rfl fun _ => rfl)
          (h.second.congr rfl fun _ => rfl) fun hs => ?_,
          .of_scope? rfl rfl (Nat.le_refl _) (Nat.le_refl _) (List.suffix_refl _) fun _ => rfl⟩
        rw [setDepth, setDepth, h.trees hs]
      obtain ⟨h₁, hl₁⟩ := hdeep (· + 1) h
      have hrun := hxy _ _ h₁ hl₁ (by rw [htree])
      rcases hr : x (st.setDepth i (· + 1)) with ⟨r, st₂⟩
      rcases hr' : y (su.setDepth i (· + 1)) with ⟨r', su₂⟩
      rw [Twin, hr, hr'] at hrun
      rw [hr] at hA
      have hrun := hrun fun hf => (hA hf).congr rfl rfl (fun _ => rfl) fun e he => ⟨e, he⟩
      dsimp only at hA ⊢
      cases hrun with
      | ok hl h hpq => exact .ok ((hl₁.trans hl).trans (hdeep _ h).2) (hdeep _ h).1 (hp _ _ _ _ _ _ hpq)
      | failed hl h he => exact .failed ((hl₁.trans hl).trans (hdeep _ h).2) (hdeep _ h).1 he
      | limitFirst hs => exact .limitFirst hs
      | limitSecond hs => exact .limitSecond hs
      | behind hf he => exact .behind hf he
      | astray he h =>
        obtain ⟨x, W₁, su₁, j, w, hx, hj, hW, h₁, hw⟩ := h
        refine .astray he ⟨x, W₁, su₁, j, w, hx, hj, hW, ?_, hw⟩
        exact h₁.drift (drifts_of_scope? rfl (Nat.le_refl _) fun _ => rfl) (.refl su₁)
          (h₁.first.congr rfl fun _ => rfl)
          h₁.second False.elim
      | caught hx hnone => exact .caught hx hnone
      | read hg hu h => exact .read hg hu h
    · rw [if_neg hlt']
      exact .limitSecond fun hs => hlt' (h.trees hs ▸ hlt)
  · rw [if_neg hlt]
    by_cases hs : S.strict
    · rw [h.trees hs] at hlt ⊢
      rw [if_neg hlt]
      exact .failed (.refl ..) h (.refl _)
    · exact .limitFirst hs

end Twin
end LazyFormula
