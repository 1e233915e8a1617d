import LazyFormula.Proofs.TwinLookups
/-!
# What was looked up already

A store is its own twin, with respect to any region of it (`Region.twinned`). So what a look-up finds, and what it
makes, leads to its region and to new scopes alone, and scopes beside the region are left as they are. A second
evaluation that starts where the first one ended therefore finds at once what the first one looks up
(`skips_evaluateWithin`).
-/
namespace LazyFormula

open Scene (Aligned SlotTwins)
open Store

variable {S : Scene} {O : ScopeId → Prop} {W W' : Twinning} {R : ScopeId → Prop} {Λ : Nat → Prop}
  {st st₁ st' su su' : Store}
  {s t u : ScopeId} {name : String} {e : Expr} {v w : Value} {ev ev' : Evaluator} {n : Nat}

/-- **The scene in which nothing is different.** -/
def Scene.plain (floor : Nat) : Scene where
  past := .empty
  floor := floor
  follows := False
  exact := False
  strict := True
  veiled _ := False
  hidden := False
  gap := none
  site := none
  bound := 0

/-- What is in a region is its own twin. -/
def Twinning.self (R : ScopeId → Prop) (Λ : Nat → Prop) : Twinning := ⟨R, Λ, ⟨id, id⟩⟩

theorem Value.agrees_rename_self (v : Value) (h : ∀ p ∈ v.procedures, W.twin.scope p.scope = p.scope ∧
    W.twin.lambda p.lambda.id = p.lambda.id) : v.Agrees (v.rename W.twin) := by
  rw [Value.Agrees, Value.rename, Value.mapProcedures_mapProcedures]
  refine Value.mapProcedures_congr fun p hp => ?_
  obtain ⟨hs, hl⟩ := h p hp
  show p.held = (W.twin.procedure p).held
  rw [Renaming.procedure, hs, hl]
  rfl

/-- **A store is its own twin.** -/
theorem Store.Region.twinned (hR : Region R Λ st) (hf : st.Formed .unassigning) (hn : n ≤ st.scopes.size) :
    Twinned (Scene.plain n) (Twinning.self R Λ) st st where
  first := hf
  second := hf
  trees _ := rfl
  floor := ⟨Nat.zero_le _, hn⟩
  fresh := Nat.zero_le _
  alive ht := ⟨hR.alive ht, hR.alive ht⟩
  scopes _ _ := id
  lambdas _ _ := id
  lambda_lt hl := ⟨hR.lambda_lt hl, hR.lambda_lt hl⟩
  oldLambda _ _ := rfl
  settled _ ho := ho.1.elim
  matched {t} ht _ :=
    { tree := rfl
      ancestors := Scene.aligned_self fun u hu => ⟨hR.above ht hu, rfl⟩
      definitions := fun _ => .inl rfl
      slots := fun name => by
        show SlotTwins none _ t name ((st.scope t).slots.get? name) _
        cases hslot : (st.scope t).slots.get? name with
        | none => exact .neither
        | some a =>
          exact .both rfl
            ⟨fun p hp => hR.slots ht hslot p hp, a.value.agrees_rename_self fun _ _ => ⟨rfl, rfl⟩⟩ }
  veiled := False.elim
  past ht := absurd (lt_size_of_alive ht) (Nat.not_lt_zero _)
  gap := nofun
  site := nofun
  exact := False.elim

/-- What has a twin that is itself, and what is made now. -/
def Twinning.grow (W : Twinning) (st st' : Store) : Twinning where
  scopes t := W.scopes t ∨ st.scopes.size ≤ t ∧ t < st'.scopes.size
  lambdas l := W.lambdas l ∨ st.fresh ≤ l ∧ l < st'.fresh
  twin :=
    ⟨fun t => if st.scopes.size ≤ t ∧ t < st'.scopes.size then t else W.twin.scope t,
      fun l => if st.fresh ≤ l ∧ l < st'.fresh then l else W.twin.lambda l⟩

/-- A look-up in a region ends in what it leads to, and leaves the scopes beside it alone. -/
theorem lookupAlong_stays (hp : Paired (Scene.plain st.scopes.size) ev ev) (hR : Region R Λ st)
    (hf : st.Formed .unassigning) (ht : R t) (hr : lookupAlong ev name (st.chain t) st = (.ok v, st')) :
    ∃ W', Region W'.scopes W'.lambdas st' ∧ st'.Formed .unassigning ∧ W'.Twins v v ∧
      Leads (Scene.plain st.scopes.size) (Twinning.self R Λ) st st W' st' st' ∧
      ∃ slot, (st'.scope t).slots.get? name = some slot ∧ v.Agrees slot.value := by
  have hself := hR.twinned hf (Nat.le_refl _)
  have hrun :=
    lookupAlong_twin hp hself (.nowhere ..) name (hself.aligned ht)
      (fun s hs => by cases hs; exact ⟨hR.alive ht, rfl⟩)
    (fun s hs => by cases hs; exact ⟨hR.alive ht, rfl⟩)
  rw [Twin] at hrun
  have htwin : (Twinning.self R Λ).twin.scope t = t := rfl
  rw [htwin, hr] at hrun
  cases hrun False.elim with
  | read hg => cases hg
  | @ok W' _ _ _ _ hl h' hfound =>
    exact ⟨W', h'.region_second id fun _ hh => hh.1, h'.second, hfound.1, hl, hfound.2 t rfl⟩

/-! ## After a look-up of the first evaluation -/

/-- **The first evaluation has looked something up** while the second one, which starts where the first one ended, has
not gone on: the look-up led to old scopes and to what it made, where the first evaluation writes no more. -/
structure LookedUp (S : Scene) (W Wd : Twinning) (st st' su : Store) : Prop where
  follows : S.follows
  before : Twinned S W st su
  formed : st'.Formed .unassigning
  trees : st'.trees = st.trees
  size : st.scopes.size ≤ st'.scopes.size ∧ st'.scopes.size ≤ S.past.scopes.size
  fresh : st.fresh ≤ st'.fresh ∧ st'.fresh ≤ S.past.fresh
  log : st.log <:+ st'.log
  region : Region Wd.scopes Wd.lambdas st'
  scopes {u : ScopeId} : Wd.scopes u ↔ W.scopes u ∧ S.Old u ∨ st.scopes.size ≤ u ∧ u < st'.scopes.size
  lambdas {l : Nat} : Wd.lambdas l → W.lambdas l ∧ S.OldLambda l ∨ st.fresh ≤ l ∧ l < st'.fresh
  kept {u : ScopeId} : Wd.scopes u → su.alive u = true ∧ (st'.scope u).Kept (su.scope u)
  young {u : ScopeId} : W.scopes u → ¬ S.Old u →
    st'.alive (W.twin.scope u) = true ∧ (st.scope (W.twin.scope u)).Steady (st'.scope (W.twin.scope u))

namespace LookedUp

variable {Wd : Twinning} {l m : Nat} (h : LookedUp S W Wd st st' su)
include h

/-! ### What was made -/

theorem old_of_made (hu : st.scopes.size ≤ u ∧ u < st'.scopes.size) : S.Old u :=
  ⟨h.follows, Nat.lt_of_lt_of_le hu.2 h.size.2⟩

theorem oldLambda_of_made (hl : st.fresh ≤ l ∧ l < st'.fresh) : S.OldLambda l :=
  ⟨h.follows, Nat.lt_of_lt_of_le hl.2 h.fresh.2⟩

/-- Nothing that had a twin was made. -/
theorem not_made (hu : W.scopes u) : ¬ (st.scopes.size ≤ u ∧ u < st'.scopes.size) := by
  intro hmade
  have hself := (h.before.settled hu (h.old_of_made hmade)).self
  exact Nat.not_le_of_lt (hself ▸ (h.before.lt_size hu).1) hmade.1

theorem lambda_not_made (hl : W.lambdas l) : ¬ (st.fresh ≤ l ∧ l < st'.fresh) := by
  intro hmade
  have hself := h.before.oldLambda hl (h.oldLambda_of_made hmade)
  exact Nat.not_le_of_lt (hself ▸ (h.before.lambda_lt hl).1) hmade.1

theorem le_grow : W.Le (W.grow st st') :=
  ⟨fun hu => ⟨.inl hu, if_neg (h.not_made hu)⟩, fun hl => ⟨.inl hl, if_neg (h.lambda_not_made hl)⟩⟩

/-- What has a twin that is from before has the twin that it had, and what was made is its own one. -/
theorem twin_scope (hu : (W.grow st st').scopes u) :
    W.scopes u ∧ (W.grow st st').twin.scope u = W.twin.scope u ∧ W.twin.scope u < st.scopes.size ∨
      (st.scopes.size ≤ u ∧ u < st'.scopes.size) ∧ (W.grow st st').twin.scope u = u := by
  rcases hu with hu | hmade
  · exact .inl ⟨hu, (h.le_grow.scope hu).2, (h.before.lt_size hu).1⟩
  · exact .inr ⟨hmade, if_pos hmade⟩

theorem twin_lambda (hl : (W.grow st st').lambdas l) :
    W.lambdas l ∧ (W.grow st st').twin.lambda l = W.twin.lambda l ∧ W.twin.lambda l < st.fresh ∨
      (st.fresh ≤ l ∧ l < st'.fresh) ∧ (W.grow st st').twin.lambda l = l := by
  rcases hl with hl | hmade
  · exact .inl ⟨hl, (h.le_grow.lambda hl).2, (h.before.lambda_lt hl).1⟩
  · exact .inr ⟨hmade, if_pos hmade⟩

theorem twin_scope_inj (hu : (W.grow st st').scopes u) (ht : (W.grow st st').scopes t)
    (he : (W.grow st st').twin.scope u = (W.grow st st').twin.scope t) : u = t := by
  rcases h.twin_scope hu with ⟨hu, hut, hlt⟩ | ⟨hu, hut⟩ <;> rcases h.twin_scope ht with ⟨ht, htt, hlt'⟩
    | ⟨ht, htt⟩
  · exact h.before.scopes hu ht (hut.symm.trans (he.trans htt))
  · exact absurd (hut.symm.trans (he.trans htt) ▸ hlt) (Nat.not_lt_of_le ht.1)
  · exact absurd (htt.symm.trans (he.symm.trans hut) ▸ hlt') (Nat.not_lt_of_le hu.1)
  · exact hut.symm.trans (he.trans htt)

theorem twin_lambda_inj (hl : (W.grow st st').lambdas l) (hm : (W.grow st st').lambdas m)
    (he : (W.grow st st').twin.lambda l = (W.grow st st').twin.lambda m) : l = m := by
  rcases h.twin_lambda hl with ⟨hl, hlt, hlo⟩ | ⟨hl, hlt⟩ <;> rcases h.twin_lambda hm with ⟨hm, hmt, hlo'⟩
    | ⟨hm, hmt⟩
  · exact h.before.lambdas hl hm (hlt.symm.trans (he.trans hmt))
  · omega
  · omega
  · exact hlt.symm.trans (he.trans hmt)

/-! ### What the look-up led to -/

/-- What the look-up led to is old now and its own twin. -/
theorem grown (hu : Wd.scopes u) :
    (W.grow st st').scopes u ∧ S.Old u ∧ (W.grow st st').twin.scope u = u := by
  rcases h.scopes.1 hu with ⟨hu, hold⟩ | hmade
  · exact ⟨.inl hu, hold, (h.le_grow.scope hu).2.trans (h.before.settled hu hold).self⟩
  · exact ⟨.inr hmade, h.old_of_made hmade, if_pos hmade⟩

theorem grown_lambda (hl : Wd.lambdas l) :
    (W.grow st st').lambdas l ∧ S.OldLambda l ∧ (W.grow st st').twin.lambda l = l := by
  rcases h.lambdas hl with ⟨hl, hold⟩ | hmade
  · exact ⟨.inl hl, hold, (h.le_grow.lambda hl).2.trans (h.before.oldLambda hl hold)⟩
  · exact ⟨.inr hmade, h.oldLambda_of_made hmade, if_pos hmade⟩

theorem of_grown (hu : (W.grow st st').scopes u) (hold : S.Old u) : Wd.scopes u :=
  h.scopes.2 (hu.imp_left fun hu => ⟨hu, hold⟩)

/-- What is not old is from before. -/
theorem of_grown_young (hu : (W.grow st st').scopes u) (hold : ¬ S.Old u) : W.scopes u :=
  hu.resolve_right fun hmade => hold (h.old_of_made hmade)

/-- What the look-up led to is alive in both stores, and so is what else has a twin. -/
theorem alive (hu : (W.grow st st').scopes u) :
    st'.alive ((W.grow st st').twin.scope u) = true ∧ su.alive u = true := by
  by_cases hold : S.Old u
  · have hd := h.of_grown hu hold
    rw [(h.grown hd).2.2]
    exact ⟨h.region.alive hd, (h.kept hd).1⟩
  · have hyoung := h.of_grown_young hu hold
    rw [(h.le_grow.scope hyoung).2]
    exact ⟨(h.young hyoung hold).1, (h.before.alive hyoung).2⟩

theorem lambda_lt (hl : (W.grow st st').lambdas l) : (W.grow st st').twin.lambda l < st'.fresh ∧ l < su.fresh := by
  rcases h.twin_lambda hl with ⟨hl, htwin, hlt⟩ | ⟨hmade, htwin⟩ <;> rw [htwin]
  · exact ⟨Nat.lt_of_lt_of_le hlt h.fresh.1, (h.before.lambda_lt hl).2⟩
  · exact ⟨hmade.2, Nat.lt_of_lt_of_le hmade.2 (Nat.le_trans h.fresh.2 h.before.fresh)⟩

theorem settled (hu : (W.grow st st').scopes u) (hold : S.Old u) :
    S.Settled (W.grow st st') u (st'.scope u) (su.scope u) where
  self := (h.grown (h.of_grown hu hold)).2.2
  kept := (h.kept (h.of_grown hu hold)).2
  ancestors _ hx := (h.grown (h.region.above (h.of_grown hu hold) hx)).1
  slots hs p hp := by
    obtain ⟨hscope, hlambda⟩ := h.region.slots (h.of_grown hu hold) hs p hp
    exact ⟨⟨(h.grown hscope).1, (h.grown_lambda hlambda).1⟩, (h.grown hscope).2.1, (h.grown_lambda hlambda).2.1⟩

theorem matched (hu : (W.grow st st').scopes u) (hold : ¬ S.Old u) :
    S.Matched (W.grow st st') u (st'.scope ((W.grow st st').twin.scope u)) (su.scope u) := by
  have hyoung := h.of_grown_young hu hold
  have hs := (h.young hyoung hold).2
  have hm := (h.before.matched hyoung hold).mono h.le_grow
  rw [(h.le_grow.scope hyoung).2]
  exact
    { tree := hs.tree.trans hm.tree
      ancestors := hs.ancestors ▸ hm.ancestors
      definitions := fun n => by rw [hs.definitions]; exact hm.definitions n
      slots := fun n => by rw [hs.slots]; exact hm.slots n }

/-! ### Twin stores again -/

theorem leads : Leads S W st su (W.grow st st') st' su where
  le := h.le_grow
  size := ⟨h.size.1, Nat.le_refl _⟩
  fresh := ⟨h.fresh.1, Nat.le_refl _⟩
  scopes hu := hu.imp_right fun hmade => by
    have hd := h.grown (h.scopes.2 (.inr hmade))
    rw [hd.2.2]
    exact ⟨hmade.1, .inr hd.2.1⟩
  lambdas _ hl := hl.imp_right fun hmade => .inr (h.oldLambda_of_made hmade)
  apart _ hu _ _ := ⟨hu, .refl _⟩
  covered _ hle hlt := absurd hlt (Nat.not_lt_of_le hle)
  log := h.log

theorem twinned (hhidden : ¬ S.hidden) : Twinned S (W.grow st st') st' su :=
  { h.before with
    first := h.formed
    trees := fun hs => h.trees.trans (h.before.trees hs)
    alive := h.alive
    scopes := h.twin_scope_inj
    lambdas := h.twin_lambda_inj
    lambda_lt := h.lambda_lt
    oldLambda := fun {l} hl hold => by
      rcases h.twin_lambda hl with ⟨hl, htwin, -⟩ | ⟨-, htwin⟩ <;> rw [htwin]
      exact h.before.oldLambda hl hold
    settled := h.settled
    matched := h.matched
    veiled := fun hb => by
      have hv := h.before.veiled hb
      obtain ⟨u, hu, hWu, hs⟩ := hv.slots
      exact ⟨hv.alive, hv.definitions, ⟨u, hu, .inl hWu, hs⟩, fun hh => absurd hh hhidden⟩
    gap := fun hg =>
      have hgap := h.before.gap hg
      ⟨hgap.1, hgap.2.1, fun hn => absurd h.follows (hgap.2.2 hn).past⟩
    site := fun hx => absurd h.follows (h.before.site hx).past }

/-- What the look-up found is its own twin. -/
theorem twins (hv : Wd.Twins v v) : (W.grow st st').Twins v v where
  knows p hp := ⟨(h.grown (hv.knows p hp).1).1, (h.grown_lambda (hv.knows p hp).2).1⟩
  holds := hv.holds
  eq := by
    refine (Value.mapProcedures_eq_self fun p hp => ?_).symm
    obtain ⟨hscope, hlambda⟩ := hv.knows p hp
    rw [Renaming.procedure, (h.grown hscope).2.2, (h.grown_lambda hlambda).2.2, ← (hv.holds p hp).2]

end LookedUp

/-- Where the first evaluation ended, what has a twin from before is a region. -/
theorem Store.Twinned.region_old (h : Twinned S W st su) :
    Region (fun u => W.scopes u ∧ S.Old u) (fun l => W.lambdas l ∧ S.OldLambda l) st where
  alive hu := (h.settled hu.1 hu.2).self ▸ (h.alive hu.1).1
  above hu hx := h.old_above hu.1 hu.2 hx
  slots hu hs p hp := by
    obtain ⟨hknows, hold, hlambda⟩ := (h.settled hu.1 hu.2).slots hs p hp
    exact ⟨⟨hknows.1, hold⟩, hknows.2, hlambda⟩
  lambda_lt hl := h.oldLambda hl.1 hl.2 ▸ (h.lambda_lt hl.1).1

/-- A look-up that leads on from old scopes, after which the first evaluation goes on and ends in the past. -/
theorem LookedUp.of_leads {Wd : Twinning} (h : Twinned S W st su) (hc : Clear S O W st) (hfollows : S.follows)
    (hA : Ahead S O (Except.ok (ε := EvalError) v, st')) (hf : st'.Formed .unassigning) (htrees : st'.trees = st.trees)
    (hregion : Region Wd.scopes Wd.lambdas st')
    (hl : Leads (Scene.plain st.scopes.size)
      (Twinning.self (fun u => W.scopes u ∧ S.Old u) fun l => W.lambdas l ∧ S.OldLambda l) st st Wd st' st') :
    LookedUp S W Wd st st' su := by
  have hscopes : ∀ {u}, Wd.scopes u ↔ W.scopes u ∧ S.Old u ∨ st.scopes.size ≤ u ∧ u < st'.scopes.size := by
    refine fun {u} => ⟨fun hu => (hl.scopes hu).imp_right fun hnew => ?_, ?_⟩
    · exact ⟨hnew.2.resolve_right fun ho => ho.1.elim, lt_size_of_alive (hregion.alive hu)⟩
    · rintro (hu | hmade)
      · exact (hl.le.scope hu).1
      · exact hl.covered rfl hmade.1 hmade.2
  -- the first evaluation writes in none of these scopes any more
  have hnot : ∀ {u}, Wd.scopes u → ¬ O u := by
    intro u hu hO
    rcases hscopes.1 hu with ⟨hu, hold⟩ | hmade
    · exact hc.apart hu hold hO
    · exact Nat.not_le_of_lt (hc.made hO) hmade.1
  have havoids : ∀ {u}, Wd.scopes u → st'.Avoids O u := by
    intro u hu x hx
    rcases List.mem_cons.1 hx with rfl | hx
    · exact hnot hu
    · exact hnot (hregion.above hu hx)
  exact
    { follows := hfollows
      before := h
      formed := hf
      trees := htrees
      size := ⟨hl.size.1, hA.size⟩
      fresh := ⟨hl.fresh.1, hA.fresh⟩
      log := hl.log
      region := hregion
      scopes := hscopes
      lambdas := fun hm => (hl.lambdas rfl hm).imp_right fun hnew =>
        ⟨hnew.resolve_right fun ho => ho.1.elim, hregion.lambda_lt hm⟩
      kept := fun hu => by
        obtain ⟨hpast, hk⟩ := hA.scope (hregion.alive hu) (havoids hu)
        exact ⟨(h.past hpast).1, hk.trans (h.past hpast).2⟩
      young := fun {u} hu hold => by
        refine hl.apart (h.lt_size hu).1 (h.alive hu).1 (fun hh => hh.1) fun hx => absurd hx.2 ?_
        -- an old scope is its own twin, and the twin of no other one
        rwa [h.scopes hx.1 hu (h.settled hx.1 hx.2).self] }

/-- **What the first evaluation looks up is there for the second one.** -/
theorem skips_evaluateWithin {depth : Nat}
    (hp : ∀ n, Paired (Scene.plain n) (evaluateWithin depth) (evaluateWithin depth))
    (hhidden : ¬ S.hidden) : Skips S (evaluateWithin depth) := by
  intro O W st su t name v st' h hc ht ho hslot hr hA
  obtain ⟨Wd, hregion, hf, hvv, hl, slot, hslot', hagrees⟩ :=
    lookupAlong_stays (hp st.scopes.size) h.region_old h.first ⟨ht, ho⟩ hr
  have htrees : st'.trees = st.trees := by
    have hdeepens := evaluateWithin_deepens (Nat.le_refl depth) (.refl st.trees)
    have hsame := (lookupAlong_deepens hdeepens name (st.chain t) st rfl).1
    rwa [hr] at hsame
  have hfound := LookedUp.of_leads h hc ho.1 hA hf htrees hregion hl
  have hslotu := (hfound.kept (hfound.scopes.2 (.inl ⟨ht, ho⟩))).2.slots hslot'
  refine ⟨W.grow st st', slot, hfound.leads, hfound.twinned hhidden, hslotu, ?_⟩
  have hw := h.second.slots (scope?_eq_of_alive (h.alive ht).2) hslotu
  exact (hfound.twins hvv).of_agrees (hw.agrees_attach.trans hagrees.symm) fun p hp =>
    ⟨(hw.attach p hp).1, (hw.attach p hp).2.2⟩

end LazyFormula
