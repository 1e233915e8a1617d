import LazyFormula.Proofs.Numbering
/-!
# Definitions that are evaluated beside a look-up

A look-up forces a definition in a new scope; an evaluation of the same expression in another copy of the store makes
the same scopes, lambdas and values (`evaluateWithin_beside`). What the scopes that were there before lead to
afterwards, the legacy of the old store, does not lead to the new scope (`not_legacy_scratch`).
-/
namespace LazyFormula

open Scene (Aligned SlotTwins)
open Store

variable {S : Scene} {W W' : Twinning} {R : ScopeId → Prop} {Λ : Nat → Prop} {ρ : Renaming}
  {st st' su su' past : Store}
  {s t : ScopeId} {name : String} {e : Expr} {v w : Value} {depth n floor : Nat} {veiled : ScopeId → Prop}

/-! ## What a store leaves to a later one -/

/-- **What the living scopes of a store and the lambdas that were made there lead to in a later store.** -/
def Store.legacy (st su : Store) (ρ : Renaming) : Twinning where
  scopes t := ∀ ⦃R : ScopeId → Prop⦄ ⦃Λ : Nat → Prop⦄, Region R Λ su →
    (∀ u, st.alive u = true → R u) →
    (∀ l, l < st.fresh → Λ l) → R t
  lambdas m := ∀ ⦃R : ScopeId → Prop⦄ ⦃Λ : Nat → Prop⦄, Region R Λ su →
    (∀ u, st.alive u = true → R u) →
    (∀ l, l < st.fresh → Λ l) → Λ m
  twin := ρ

theorem Store.legacy_of_alive (ht : st.alive t = true) : (st.legacy su ρ).scopes t := fun _ _ _ hs _ => hs t ht

/-- The legacy is a region, if it is part of one. -/
theorem Store.Region.legacy (h : Region R Λ su) (hs : ∀ u, st.alive u = true → R u)
    (hl : ∀ l, l < st.fresh → Λ l) :
    Region (st.legacy su ρ).scopes (st.legacy su ρ).lambdas su where
  alive ht := h.alive (ht h hs hl)
  above ht hu _ _ h' hs' hl' := h'.above (ht h' hs' hl') hu
  slots ht hslot p hp :=
    ⟨fun _ _ h' hs' hl' => (h'.slots (ht h' hs' hl') hslot p hp).1,
      fun _ _ h' hs' hl' => (h'.slots (ht h' hs' hl') hslot p hp).2⟩
  lambda_lt hl' := h.lambda_lt (hl' h hs hl)

/-! ## Two evaluations of one expression -/

/-- **The scene in which the memoized values of one scope are those of its parent.** -/
def Scene.veiling (b : ScopeId) : Scene := { Scene.plain 0 with veiled := (· = b) }

theorem Scene.Aligned.imp {hidden hidden' : ScopeId → Prop} {up up' : List ScopeId} (h : Aligned hidden W up up')
    (hh : ∀ t, hidden t → hidden' t)
    (hW : ∀ t ∈ up', W.scopes t → W'.scopes t ∧ W'.twin.scope t = W.twin.scope t) :
    Aligned hidden' W' up up' := by
  induction h with
  | nil => exact .nil
  | @twin t _ _ ht _ ih =>
    obtain ⟨ht', he⟩ := hW t List.mem_cons_self ht
    exact he ▸ .twin ht' (ih fun u hu => hW u (List.mem_cons_of_mem t hu))
  | @hidden t _ _ ht _ ih => exact .hidden (hh t ht) (ih fun u hu => hW u (List.mem_cons_of_mem t hu))

/-- A new scope is there after an evaluation in it. -/
theorem Store.Formed.evolves_scratch (hf : st.Formed .unassigning) (hs : st.alive s = true)
    (he : Fragment.unassigning.Mem e) (depth : Nat) :
    ∃ events, (st.addChild s []).2.Evolves events (evaluateWithin depth e st.scopes.size (st.addChild s []).2).2 := by
  have hready : (st.addChild s []).2.Ready .unassigning
      (fun t => t = st.scopes.size ∨ (st.addChild s []).2.scopes.size ≤ t) :=
    ready_spares (hf.addChild hs nofun) (Nat.le_refl _)
  exact (sparing_evaluateWithin depth (· = st.scopes.size) _ hready he (alive_addChild_size hs [])
    (.inl rfl)).1.moves.evolves

section
variable (hf : st.Formed .unassigning) (hn : st.Numbered) (hs : st.alive s = true) (he : Fragment.unassigning.Mem e)
  (hr : evaluateWithin depth e st.scopes.size (st.addChild s []).2 = (.ok w, past))
include hf hn hs he hr

/-- **An evaluation is followed by one that starts later**, but may nest less deep. -/
theorem replay_whole {depth' : Nat} {strict : Prop} (hstrict : strict → depth' = depth)
    (htrees : strict → st.trees = su.trees) (hf' : su.Formed .unassigning) (hsu : past.Keeping su) :
    Outcome (Scene.replay past su.scopes.size False strict) (st.whole.addScope su.scopes.size st.scopes.size)
      (st.addChild s []).2 (su.addChild s []).2 (fun W' _ v w => W'.Twins v w) (.ok w, past)
      (evaluateWithin depth' e su.scopes.size (su.addChild s []).2) := by
  have hspares := hf.spares_child hs he depth
  rw [hr] at hspares
  have hreplays : Twinned (Scene.replay past su.scopes.size False strict) st.whole st su :=
    (hn.region hf).replays hf hf' hspares.keeping hsu ⟨hsu.size, Nat.le_refl _⟩ htrees False.elim
  exact replay_evaluateWithin (fun d _ => unselfish_evaluateWithin d) hstrict hreplays hs he hr

omit hn in
/-- **The legacy of the old store is what a repeated evaluation finds.** -/
theorem Store.Twinned.legacy_le {floor : Nat} {strict : Prop}
    (h : Twinned (Scene.replay past floor False strict) W past su)
    (hle : st.whole.Le W) : (∀ {t}, (st.legacy past ρ).scopes t → W.scopes t ∧ W.twin.scope t = t) ∧
      ∀ {l}, (st.legacy past ρ).lambdas l → W.lambdas l ∧ W.twin.lambda l = l := by
  have hspares := hf.spares_child hs he depth
  rw [hr] at hspares
  have hsize := hspares.keeping.size
  have hold : ∀ u, st.alive u = true → W.scopes u ∧ (Scene.replay past floor False strict).Old u := fun u hu =>
    ⟨(hle.scope hu).1, trivial, Nat.lt_of_lt_of_le (lt_size_of_alive hu) hsize⟩
  have holdLambda : ∀ l, l < st.fresh → W.lambdas l ∧ (Scene.replay past floor False strict).OldLambda l :=
    fun l hl => ⟨(hle.lambda hl).1, trivial, Nat.lt_of_lt_of_le hl hspares.fresh⟩
  refine ⟨fun ht => ?_, fun hl => ?_⟩
  · obtain ⟨hW, ho⟩ := ht h.region_old hold holdLambda
    exact ⟨hW, (h.settled hW ho).self⟩
  · obtain ⟨hW, ho⟩ := hl h.region_old hold holdLambda
    exact ⟨hW, h.oldLambda hW ho⟩

/-- **The scope in which the expression was evaluated is no part of the legacy.** -/
theorem not_legacy_scratch (hpast : past.Formed .unassigning) : ¬ (st.legacy past ρ).scopes st.scopes.size := by
  intro hlegacy
  have htrees : st.trees = past.trees := by
    have := trees_evaluateWithin depth e st.scopes.size (st.addChild s []).2
    rw [hr] at this
    exact this.symm
  have hrun : Outcome (Scene.replay past past.scopes.size False True) _ _ _ (fun W' _ v w => W'.Twins v w) _ _ :=
    replay_whole hf hn hs he hr (fun _ => rfl) (fun _ => htrees) hpast (.refl past)
  generalize evaluateWithin depth e past.scopes.size (past.addChild s []).2 = q at hrun
  cases hrun with
  | limitSecond hs => exact hs trivial
  | read hg => cases hg
  | @ok W' _ su' _ v hl h' hvw =>
    obtain ⟨events, hev⟩ := hf.evolves_scratch hs he depth
    have hlt : st.scopes.size < past.scopes.size := by
      have := hev.size
      rwa [size_addChild, hr] at this
    have hnew : ¬ st.whole.scopes past.scopes.size := fun ha => Nat.lt_asymm hlt (lt_size_of_alive ha)
    obtain ⟨hscratch, htwin⟩ :=
      hl.le.scope (.inr rfl : (st.whole.addScope past.scopes.size st.scopes.size).scopes past.scopes.size)
    rw [Twinning.addScope_self] at htwin
    obtain ⟨hknown, hself⟩ := (h'.legacy_le hf hs he hr ((Twinning.le_addScope hnew _).trans hl.le)).1 hlegacy
    exact Nat.ne_of_lt hlt (h'.scopes hknown hscratch (hself.trans htwin.symm))

end
end LazyFormula
