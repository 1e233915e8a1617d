import LazyFormula.Proofs.TwinForcing
/-!
# Look-ups side by side

Two look-ups go up side by side, scope by scope (`lookupAlong_twin`). In a scope that was made meanwhile both find a
value, or both seek one. In a scope from before the first evaluation ended the second look-up may find what the first
one has yet to seek; what the first one finds then is what the second one has.
-/
namespace LazyFormula

open Scene (Aligned SlotTwins)
open Store

variable {S : Scene} {O : ScopeId → Prop} {W W' : Twinning} {st st₁ st' su su₁ su' : Store} {s t u : ScopeId}
  {name : String} {e : Expr} {v w : Value} {ev ev' : Evaluator} {up up' : List ScopeId} {α β : Type}

/-! ## A definition that fails -/

theorem evaluateWithin_of_full {depth : Nat} (h : depth = 0 ∨ ¬ (st.treeOf s).depth < (st.treeOf s).maxDepth) :
    evaluateWithin depth e s st = (.error (.depthLimit (st.treeOf s).maxDepth), st) := by
  cases depth with
  | zero => rfl
  | succ depth => exact if_neg (h.resolve_left (Nat.succ_ne_zero depth))

theorem evaluateWithin_halt {depth : Nat} (h : ¬ (depth = 0 ∨ ¬ (st.treeOf s).depth < (st.treeOf s).maxDepth)) :
    evaluateWithin depth .halt s st = (.error (.malformed .quote [.symbol "quote"]), st) := by
  cases depth with
  | zero => exact absurd (.inl rfl) h
  | succ depth =>
    have hlt := Decidable.not_not.1 (not_or.1 h).2
    refine (if_pos hlt).trans (congrArg (Prod.mk _) ?_)
    have hentered : (st.setDepth (st.scope s).tree (· + 1)).trees = entered st.trees (st.scope s).tree := rfl
    exact setDepth_entered hentered

/-- A look-up in the scopes of a failing definition comes to it. -/
theorem Scene.Halts.defers {x : Site} (hx : S.Halts W st su x) (hf : su.Formed .unassigning)
    (ha : ∀ {u}, x.segment u → su.alive u = true) : ∀ {u : ScopeId}, x.segment u →
    Defers su x.name u x.scope := by
  intro u
  induction u using Nat.strongRecOn with
  | _ u ih =>
    intro hu
    obtain ⟨-, -, hslot, rfl | ⟨hdef, p, hp, hseg⟩⟩ := hx.segment hu
    · exact .refl _
    · obtain ⟨rest, hrest⟩ := List.head?_eq_some_iff.1 hp
      exact .up hslot hdef hp (ih p (hf.parented (scope?_eq_of_alive (ha hu)) hrest).1 hseg)

section
variable (hp : Paired S ev ev') (h : Twinned S W st su)
include hp h

/-- **The failing definition is forced on both sides.** -/
theorem force_halt {x : Site} (hx : S.site = some x) (P : Twinning → Store → Value → Value → Prop) :
    (∀ v st', force ev (W.twin.scope x.scope) x.name .halt st ≠ (.ok v, st')) ∧
      Twin S O W st su (force ev (W.twin.scope x.scope) x.name .halt) (force ev' x.scope x.name x.body) P := by
  obtain ⟨hunselfish, hstrict, j, hj, rfl, rfl⟩ := hp.site hx
  have hhalts := h.site hx
  obtain ⟨hs, -, hslot, -⟩ := hhalts.segment hhalts.here
  have hrec := h.record (.forcing (W.twin.scope x.scope) x.name .halt) (.forcing x.scope x.name x.body)
  obtain ⟨ha, hb⟩ := hrec.alive hs
  have hchild := hrec.child [] [] ha hb (hrec.aligned hs) (hrec.tree hs) rfl (List.forall_mem_nil _)
  have hlead :=
    (leads_record S W st su (.forcing (W.twin.scope x.scope) x.name .halt) (.forcing x.scope x.name x.body)).trans
    (leads_child hrec (W.twin.scope x.scope) hb [] [])
  rw [size_record, size_record] at hchild hlead
  have htree : (((st.record (.forcing (W.twin.scope x.scope) x.name .halt)).addChild (W.twin.scope x.scope) []).2.treeOf
      st.scopes.size) = ((su.record (.forcing x.scope x.name x.body)).addChild x.scope []).2.treeOf su.scopes.size := by
    have := hchild.tree (t := su.scopes.size) (.inr rfl)
    rw [Twinning.addScope_self] at this
    rw [treeOf, treeOf, this, hchild.trees hstrict]
  have hfinal : ∀ w su', force (evaluateWithin j) x.scope x.name x.body su = (.ok w, su') →
      ∃ w', (evaluateWithin j x.body su.scopes.size
        ((su.record (.forcing x.scope x.name x.body)).addChild x.scope []).2).1 =
        .ok w' := by
    intro w su' hr
    rw [force_apply] at hr
    rcases hq : evaluateWithin j x.body su.scopes.size
      ((su.record (.forcing x.scope x.name x.body)).addChild x.scope []).2
      with ⟨r, su₂⟩
    rw [hq] at hr
    cases r with
    | error e => cases hr
    | ok w' => exact ⟨w', rfl⟩
  by_cases hfull : j = 0 ∨
    ¬ (((su.record (.forcing x.scope x.name x.body)).addChild x.scope []).2.treeOf su.scopes.size).depth <
      (((su.record (.forcing x.scope x.name x.body)).addChild x.scope []).2.treeOf su.scopes.size).maxDepth
  · have hleft := evaluateWithin_of_full (e := .halt) (htree ▸ hfull)
    have hright := evaluateWithin_of_full (e := x.body) hfull
    rw [Twin, force_apply, force_apply, hleft, hright, htree]
    exact ⟨fun _ _ hr => (by cases hr), fun _ => .failed hlead hchild (.refl _)⟩
  · have hleft := evaluateWithin_halt (htree ▸ hfull)
    rw [Twin, force_apply, hleft]
    refine ⟨fun _ _ hr => (by cases hr), fun _ => ?_⟩
    rcases hr : force (evaluateWithin j) x.scope x.name x.body su with ⟨r, su'⟩
    cases r with
    | ok w =>
      obtain ⟨w', hw'⟩ := hfinal w su' hr
      refine .astray (by rintro ⟨_, hd⟩; cases hd)
        ⟨x, W, su.record (.forcing x.scope x.name x.body), j, w', hx, hj, .refl W, ?_, hw'⟩
      have hloose : Twinned { S with strict := False } W _ _ := hrec.rescene rfl rfl rfl rfl rfl rfl rfl False.elim id
      exact hloose.drift (drifts_addChild ha []) (.refl _) (hrec.first.addChild ha (List.forall_mem_nil _))
        hrec.second False.elim
    | error e =>
      refine .caught hx fun u hu => ?_
      have hregion := h.region_second hhalts.past fun t ht => hhalts.veiled ht.2
      have := hunselfish h.second hregion hs hslot hhalts.second (hhalts.segment hu).1
        (hhalts.defers h.second (fun hu => (h.alive (hhalts.segment hu).1).2) hu)
      rwa [hr] at this

/-- **Where the name of the failing definition is looked up, the first evaluation fails.** -/
theorem seek_halts {x : Site} (hx : S.site = some x) : ∀ {u : ScopeId} {up : List ScopeId}, x.segment u →
    W.twin.scope u :: up = st.chain (W.twin.scope u) → ∀ v st',
      seek ev (W.twin.scope u) x.name ((st.scope (W.twin.scope u)).definitions.get? x.name) up st ≠ (.ok v, st') := by
  have hhalts := h.site hx
  intro u
  induction u using Nat.strongRecOn with
  | _ u ih =>
    intro up hu hchain v st'
    obtain ⟨hWu, -, hslot, hcases⟩ := hhalts.segment hu
    by_cases hux : u = x.scope
    · subst hux
      rw [hhalts.first]
      exact (force_halt (O := fun _ => True) hp h hx fun _ _ _ _ => True).1 v st'
    obtain ⟨hdef, p, hpar, hseg⟩ := hcases.resolve_left hux
    have hm := h.matched hWu fun ho => hhalts.past ho.1
    have hdef' : (st.scope (W.twin.scope u)).definitions.get? x.name = none := by
      rcases hm.definitions x.name with he | ⟨z, hz, hzu, -⟩
      · rw [he, hdef]
      · cases hz.symm.trans hx
        exact absurd hzu.symm hux
    -- the first scopes above are twins, too
    obtain ⟨rest, hrest⟩ := List.head?_eq_some_iff.1 hpar
    have halign := h.aligned hWu
    rw [h.second.chain_eq (scope?_eq_of_alive (h.alive hWu).2) hrest, ← hchain, chain] at halign
    have hWp := (hhalts.segment hseg).1
    obtain ⟨rest', hrest', htail⟩ := halign.of_not_hidden (h.not_hidden hWu)
    cases (List.cons.inj hrest').2
    obtain ⟨up₂, rfl, -⟩ := htail.of_not_hidden (h.not_hidden hWp)
    obtain ⟨-, hchain', -⟩ := h.first.chain_tail (h.alive hWu).1 hchain _ rfl
    have hslot' : (st.scope (W.twin.scope p)).slots.get? x.name = none := by
      have hs := (h.matched hWp fun ho => hhalts.past ho.1).slots x.name
      rw [(hhalts.segment hseg).2.2.1, hhalts.gap] at hs
      generalize (st.scope (W.twin.scope p)).slots.get? x.name = a at hs
      cases hs with
      | neither => rfl
      | gap hg => cases hg
    rw [hdef', seek, lookupAlong_of_none hslot', memoized_apply]
    have hlt := (h.second.parented (scope?_eq_of_alive (h.alive hWu).2) hrest).1
    have hfail := ih p hlt hseg hchain'
    rcases hr : seek ev (W.twin.scope p) x.name ((st.scope (W.twin.scope p)).definitions.get? x.name) up₂ st
      with ⟨r, st₁⟩
    cases r with
    | error e => exact fun hr => (by cases hr)
    | ok v => exact absurd hr (hfail v st₁)

end

/-! ## One scope on the way -/

/-- What a look-up found: twins, and the first scope of the second way up has the value. -/
def Found (name : String) (up' : List ScopeId) (W : Twinning) (su : Store) (v w : Value) : Prop :=
  W.Twins v w ∧ ∀ s ∈ up'.head?, ∃ slot, (su.scope s).slots.get? name = some slot ∧ w.Agrees slot.value

/-- A value that is there on both sides is found on both sides. -/
theorem hit_twin (h : Twinned S W st su) {a b : Slot} (ha : (st.scope s).slots.get? name = some a)
    (hb : (su.scope t).slots.get? name = some b) (hta : su.alive t = true)
    (hr : W.Twins (a.value.attach st.alive) (b.value.attach su.alive)) :
    Twin S O W st su (lookupAlong ev name (s :: up)) (lookupAlong ev' name (t :: up')) (Found name (t :: up')) := by
  refine .ok (lookupAlong_of_some ha) (lookupAlong_of_some hb) (leads_record ..) (h.record _ _) ⟨hr, ?_⟩
  rintro _ ⟨⟩
  exact ⟨b, hb, (h.second.slots (scope?_eq_of_alive hta) hb).agrees_attach⟩

section
variable (hp : Paired S ev ev') (h : Twinned S W st su) (hc : Clear S O W st)
include hp h hc

/-- A definition is forced on both sides, or both look-ups go up. -/
theorem seek_twin (ht : W.scopes t) (hchain' : t :: up' = su.chain t)
    (hup : Twin S O W st su (lookupAlong ev name up) (lookupAlong ev' name up') (Found name up')) :
    Twin S O W st su (seek ev (W.twin.scope t) name ((su.scope t).definitions.get? name) up)
      (seek ev' t name ((su.scope t).definitions.get? name) up') fun W' su' v w => W'.Twins v w ∧
      Lifted S name su t su' w := by
  have hta := (h.alive ht).2
  cases hdef : (su.scope t).definitions.get? name with
  | some e =>
    refine (force_twin hp.parallel h hc ht name (h.second.definitions (scope?_eq_of_alive hta) hdef)).imp
      fun W' su' v w hvw => ⟨hvw, fun hv => ?_⟩
    rw [(h.veiled hv).definitions name] at hdef
    cases hdef
  | none =>
    refine hup.imp fun W' su' v w hvw => ⟨hvw.1, fun _ u hu => hvw.2 u ?_⟩
    rwa [(List.cons.inj hchain').2]

end

/-- What is sought writes in new scopes alone. -/
theorem seek_spares (hev : Sparing ev) (hf : st.Formed .unassigning) (hs : st.alive s = true)
    (hslot : (st.scope s).slots.get? name = none) (hchain : s :: up = st.chain s) :
    Spares (fun _ => False) st.scopes.size st (seek ev s name ((st.scope s).definitions.get? name) up st).2 := by
  have hready : st.Ready .unassigning (fun t => False ∨ st.scopes.size ≤ t) := ready_spares hf (Nat.le_refl _)
  cases hdef : (st.scope s).definitions.get? name with
  | some e => exact (force_yields (hev (fun _ => False) st.scopes.size) hready hs hslot hdef).1
  | none =>
    refine (lookupAlong_yields (hev (fun _ => False) st.scopes.size) hready name fun p hp => ?_).1
    obtain ⟨hpa, hup, -⟩ := hf.chain_tail hs hchain p hp
    exact ⟨hpa, hup⟩

section
variable (hp : Paired S ev ev') (h : Twinned S W st su) (hc : Clear S O W st)
include hp h hc

omit hc in
/-- **Where the first store alone has the value**, the second look-up makes it. -/
theorem lookupAlong_gap {g : Gap} {a : Slot} (hg : S.gap = some g) (hx : (st.scope g.scope).slots.get? g.name = some a)
    (hy : (su.scope g.scope).slots.get? g.name = none) (hk : a.kind = .derived)
    (hagrees : a.value.Agrees (.procedure g.procedure)) :
    Twin S O W st su (lookupAlong ev g.name (g.scope :: up)) (lookupAlong ev' g.name (g.scope :: up'))
      (Found g.name (g.scope :: up')) := by
  have hopen := (h.gap hg).2.2 hy
  have ha := (h.alive hopen.scope.1).1
  rw [hopen.scope.2] at ha
  intro _
  rw [lookupAlong_of_some hx]
  by_cases hunread : g.unread
  · exact .read hg hunread ⟨[.cacheHit g.scope g.name], rfl, List.mem_singleton_self _⟩
  have hbridge := hp.gap hg hunread hg h hy hx hk hagrees
  rw [lookupAlong_of_none hy, hopen.definition, seek]
  generalize (do let w ← force ev' g.scope g.name g.body; memoize g.scope g.name _ w; return w : Eval Value) su = q
    at hbridge ⊢
  cases hbridge with
  | limitSecond hs => exact .limitSecond hs
  | read hg' hu =>
    cases hg.symm.trans hg'
    exact absurd hu hunread
  | @ok W' _ su' _ w hl h' hq =>
    have hrecord : Twinned S W' (st.record (.cacheHit g.scope g.name)) su' :=
      h'.drift (drifts_of_scope? rfl (Nat.le_refl _) fun _ => rfl) (.refl _) (h'.first.congr rfl fun _ => rfl) h'.second
        h'.trees
    have hkeeps := (h.first.slots (scope?_eq_of_alive ha) hx).attach_eq
    refine .ok (hl.trans (.of_scope? rfl rfl (Nat.le_refl _) (Nat.le_refl _) (List.suffix_cons ..) fun _ => rfl))
      hrecord ⟨?_, ?_⟩
    · rw [hkeeps, hagrees]
      refine ⟨hq.1.knows, hq.1.holds, ?_⟩
      rw [← hq.1.eq]
      have hhold : g.procedure.hold = .strong := by
        have hmem : g.procedure ∈ (w.rename W'.twin).procedures := hq.1.eq ▸ List.mem_singleton_self _
        rw [Value.procedures_rename] at hmem
        obtain ⟨r, -, hr⟩ := List.mem_map.1 hmem
        rw [← hr]
        rfl
      show Value.procedure g.procedure.held = _
      rw [Procedure.held, ← hhold]
    · rintro _ ⟨⟩
      exact hq.2

omit hc in
/-- **Where the definition is the one that fails.** -/
theorem lookupAlong_site {x : Site} (hx : S.site = some x)
    (ha : (st.scope (W.twin.scope x.scope)).slots.get? x.name = none)
    (hb : (su.scope x.scope).slots.get? x.name = none) :
    Twin S O W st su (lookupAlong ev x.name (W.twin.scope x.scope :: up)) (lookupAlong ev' x.name (x.scope :: up'))
      (Found x.name (x.scope :: up')) := by
  have hhalts := h.site hx
  intro _
  have hforce := (force_halt (O := O) hp h hx fun _ _ _ _ => True).2 fun hf => absurd hf hhalts.past
  have hfail := (force_halt (O := O) hp h hx fun _ _ _ _ => True).1
  rw [lookupAlong_of_none ha, lookupAlong_of_none hb, memoized_apply, memoized_apply, hhalts.first,
    hhalts.second, seek, seek]
  generalize force ev (W.twin.scope x.scope) x.name .halt st = p at hforce hfail ⊢
  obtain ⟨r, st₁⟩ := p
  cases r with
  | ok v => exact absurd rfl (hfail v st₁)
  | error e =>
    refine hforce.of_error fun e' su' hq => ?_
    rw [hq]

/-- **In a scope that was made meanwhile.** -/
theorem lookupAlong_young (ht : W.scopes t) (ho : ¬ S.Old t)
    (hchain : W.twin.scope t :: up = st.chain (W.twin.scope t)) (hchain' : t :: up' = su.chain t)
    (hup : Twin S O W st su (lookupAlong ev name up) (lookupAlong ev' name up') (Found name up')) :
    Twin S O W st su (lookupAlong ev name (W.twin.scope t :: up)) (lookupAlong ev' name (t :: up'))
      (Found name (t :: up')) := by
  obtain ⟨ha, hb⟩ := h.alive ht
  have hm := h.matched ht ho
  have hslots := hm.slots name
  generalize hx : (st.scope (W.twin.scope t)).slots.get? name = x at hslots
  generalize hy : (su.scope t).slots.get? name = y at hslots
  cases hslots with
  | both hk hr =>
    refine hit_twin h hx hy hb ?_
    exact hr.twins (h.first.slots (scope?_eq_of_alive ha) hx) (h.second.slots (scope?_eq_of_alive hb) hy)
  | @gap g a hg hgs hgn hk hagrees =>
    subst hgs hgn
    have hself := ((h.gap hg).2.2 hy).scope.2
    rw [hself] at hx ⊢
    exact lookupAlong_gap hp h hg hx hy hk hagrees
  | neither =>
    by_cases hhalt : ∃ x, S.site = some x ∧ x.scope = t ∧ x.name = name
    · obtain ⟨x, hxs, rfl, rfl⟩ := hhalt
      exact lookupAlong_site hp h hxs hx hy
    have hdef : (st.scope (W.twin.scope t)).definitions.get? name = (su.scope t).definitions.get? name :=
      (hm.definitions name).resolve_right hhalt
    have hspare := seek_spares hp.first h.first ha hx hchain
    have hspare' := seek_spares hp.second h.second hb hy hchain'
    have hleaves := seek_leaves hp.unselfish h.first h.region_first ⟨t, ht, rfl⟩ hx hchain
    intro hA
    rw [lookupAlong_of_none hx] at hA
    rw [lookupAlong_of_none hx, lookupAlong_of_none hy]
    revert hA
    rw [← Twin]
    rw [hdef] at hspare hleaves ⊢
    refine (memoized_twin h ht ho (seek_twin hp h hc ht hchain' hup) hspare hspare' hleaves ?_).imp
      fun W' su' v w hvw => ⟨hvw.1, ?_⟩
    · rintro z hz hseg rfl v st'
      have := seek_halts hp h hz hseg hchain v st'
      rwa [hdef] at this
    · rintro _ ⟨⟩
      exact hvw.2

/-- **In a scope from before the first evaluation ended.** -/
theorem lookupAlong_old (ht : W.scopes t) (ho : S.Old t) (hchain : W.twin.scope t :: up = st.chain (W.twin.scope t))
    (hchain' : t :: up' = su.chain t)
    (hup : Twin S O W st su (lookupAlong ev name up) (lookupAlong ev' name up') (Found name up')) :
    Twin S O W st su (lookupAlong ev name (W.twin.scope t :: up)) (lookupAlong ev' name (t :: up'))
      (Found name (t :: up')) := by
  obtain ⟨ha, hb⟩ := h.alive ht
  have hset := h.settled ht ho
  have hseek := seek_twin hp h hc ht hchain' hup
  rw [hset.self] at ha hchain hseek ⊢
  cases hx : (st.scope t).slots.get? name with
  | some a =>
    have hy := hset.kept.slots hx
    refine hit_twin h hx hy hb (Twinning.Rests.twins ⟨fun p hp => (hset.slots hx p hp).1, ?_⟩
      (h.first.slots (scope?_eq_of_alive ha) hx) (h.second.slots (scope?_eq_of_alive hb) hy))
    -- what is known from before keeps its numbers
    refine Eq.trans ?_ (congrArg (Value.mapProcedures Procedure.held) (Value.mapProcedures_congr (f := Procedure.held)
      fun p hp => ?_))
    · rw [Value.mapProcedures_mapProcedures]
      exact Value.mapProcedures_congr fun p _ => rfl
    · obtain ⟨hk, hold, hlambda⟩ := hset.slots hx p hp
      rw [Renaming.procedure, (h.settled hk.1 hold).self, h.oldLambda hk.2 hlambda]
      rfl
  | none =>
    intro hA
    have hA := hA ho.1
    have hleaves := seek_leaves hp.unselfish h.first h.region_first ⟨t, ht, hset.self⟩ hx hchain
    have hspares := seek_spares hp.first h.first ha hx hchain
    rcases hr : lookupAlong ev name (t :: up) st with ⟨r, st'⟩
    rw [hr] at hA
    cases r with
    | ok v =>
      obtain ⟨W', slot, hl, h', hslot, hvw⟩ := hp.skips ho.1 h hc ht ho hx (hchain ▸ hr) hA
      rw [lookupAlong_of_some hslot]
      have hrecord : Twinned S W' st' (su.record (.cacheHit t name)) :=
        h'.drift (.refl _) (drifts_of_scope? rfl (Nat.le_refl _) fun _ => rfl) h'.first
          (h'.second.congr rfl fun _ => rfl)
          h'.trees
      refine .ok (hl.trans (.of_scope? rfl rfl (Nat.le_refl _) (Nat.le_refl _) (List.suffix_refl _) fun _ => rfl))
        hrecord ⟨hvw, ?_⟩
      rintro _ ⟨⟩
      exact ⟨slot, hslot, (h.second.slots (scope?_eq_of_alive hb) hslot).agrees_attach⟩
    | error e =>
      by_cases hex : S.exact
      · rw [lookupAlong_of_none hx, memoized_apply] at hr
        have hdef : (su.scope t).definitions.get? name = (st.scope t).definitions.get? name := by
          rw [hset.kept.definitions]
        rw [hdef] at hseek
        rcases hq : seek ev t name ((st.scope t).definitions.get? name) up st with ⟨r, st₁⟩
        rw [hq] at hr hleaves hspares
        cases r with
        | ok v => cases hr
        | error e₁ =>
          cases hr
          obtain ⟨c, hcs, hspared⟩ := hspares.all (scope?_eq_of_alive ha)
          have hav : st'.Avoids O t := by
            rw [Avoids, chain, scope_of_scope? hcs, hspared.ancestors]
            exact hc.avoids h ht ho
          have halive := alive_of_scope? hcs
          have hy := h.exact hex ho (hA.scope halive hav).1 (hA.exact hex rfl halive hav hleaves)
          have hseek := hseek fun _ => by
            rw [hq]
            exact hA
          rw [hq] at hseek
          rw [lookupAlong_of_none hy, memoized_apply, hdef]
          refine hseek.of_error fun e' su' hq' => ?_
          rw [hq']
      · exact .behind ho.1 hex

omit hc in
/-- **In a scope that the first store lacks.** -/
theorem lookupAlong_hidden (ht : S.Hidden t) (halign : Aligned S.Hidden W up up') (hchain' : t :: up' = su.chain t)
    (hup : Twin S O W st su (lookupAlong ev name up) (lookupAlong ev' name up') (Found name up')) :
    Twin S O W st su (lookupAlong ev name up) (lookupAlong ev' name (t :: up')) (Found name (t :: up')) := by
  have hv := h.veiled ht.2
  have hpast := hp.hidden ht.1
  obtain ⟨u, hu, hWu, hslots⟩ := hv.slots
  have hhead : u ∈ up'.head? := by rwa [(List.cons.inj hchain').2]
  have hnone_of : (su.scope t).slots.get? name = none → S.past.alive t = true →
      (S.past.scope t).slots.get? name = none :=
    fun hn hpa => h.none_of_past hpa hn
  cases hy : (su.scope t).slots.get? name with
  | some b =>
    obtain ⟨slot', hslot', hagrees⟩ := hslots name b hy ((hv.hidden ht.1).2 name b hy)
    obtain ⟨rest', rfl⟩ := List.head?_eq_some_iff.1 hhead
    -- the parent has a twin, which has the value
    obtain ⟨rest, rfl, -⟩ := halign.of_not_hidden (h.not_hidden hWu)
    have hs := (h.matched hWu fun ho => hpast ho.1).slots name
    rw [hslot'] at hs
    generalize hx : (st.scope (W.twin.scope u)).slots.get? name = x at hs
    cases hs with
    | both hk hr =>
      refine hit_twin h hx hy hv.alive ?_
      have hkeeps := h.second.slots (scope?_eq_of_alive hv.alive) hy
      have hkeeps' := h.second.slots (scope?_eq_of_alive (h.alive hWu).2) hslot'
      refine (hr.twins (h.first.slots (scope?_eq_of_alive (h.alive hWu).1) hx) hkeeps').of_agrees
        (hkeeps.agrees_attach.trans (hagrees.trans hkeeps'.agrees_attach.symm)) fun p hp => ?_
      exact ⟨(hkeeps.attach p hp).1, (hkeeps.attach p hp).2.2⟩
  | none =>
    have hspares := seek_spares hp.second h.second hv.alive hy hchain'
    rw [hv.definitions name, seek] at hspares
    obtain ⟨d, hd, hspared⟩ := hspares.all (scope?_eq_of_alive hv.alive)
    intro hA
    have hup := hup hA
    rw [lookupAlong_of_none hy, hv.definitions name, seek, memoized_apply]
    generalize lookupAlong ev name up st = p at hup ⊢
    generalize lookupAlong ev' name up' su = q at hup hd ⊢
    cases hup with
    | failed hl h he => exact .failed hl h he
    | limitFirst hs => exact .limitFirst hs
    | limitSecond hs => exact .limitSecond hs
    | behind hf he => exact .behind hf he
    | astray he h => exact .astray he h
    | caught hx hnone => exact .caught hx hnone
    | read hg hu hread => exact .read hg hu hread
    | @ok W' st' su' v w hl h' hvw =>
      dsimp only at hd ⊢
      rw [scope_of_scope? hd, if_pos hspared.generation]
      have hparent : (su'.scope t).parent? = (su.scope t).parent? := by
        rw [scope_of_scope? hd, Scope.parent?, hspared.ancestors, Scope.parent?]
      have hmemo := h'.memoize_hidden ht (h'.supports_second hvw.1) (hnone_of hy) (fun u hu => hvw.2 u (by
        rw [hparent] at hu
        rwa [(List.cons.inj hchain').2])) hpast
      have hput : (su'.put t name w .derived).scope t = (su'.scope t).put name ⟨w.detach t, .derived⟩ :=
        scope_of_scope? (by rw [scope?_put, if_pos rfl, scope?_eq_of_alive (h'.veiled ht.2).alive, Option.map_some])
      refine .ok
        (hl.trans (.of_same (Nat.le_refl _) (by simp [put]) (Nat.le_refl _) (Nat.le_refl _) (List.suffix_refl _) ?_))
        hmemo ⟨hvw.1, ?_⟩
      · intro u _ hu hh _
        refine ⟨(alive_put ..).trans hu, ?_⟩
        have hne : u ≠ t := fun he => hh (he ▸ ht)
        rw [scope, scope, scope?_put, if_neg hne]
        exact .refl _
      · rintro _ ⟨⟩
        exact ⟨_, by rw [hput, Scope.get?_put, if_pos rfl], (Value.agrees_detach w t).symm⟩

/-- **Look-ups go up side by side.** -/
theorem lookupAlong_twin (name : String) (halign : Aligned S.Hidden W up up') :
    (∀ s ∈ up.head?, st.alive s = true ∧ up = st.chain s) →
    (∀ s ∈ up'.head?, su.alive s = true ∧ up' = su.chain s) →
      Twin S O W st su (lookupAlong ev name up) (lookupAlong ev' name up') (Found name up') := by
  induction halign with
  | nil => exact fun _ _ => .throw h (.refl _)
  | @twin t up up' ht hup ih =>
    intro hchain hchain'
    obtain ⟨ha, hchain⟩ := hchain _ rfl
    obtain ⟨hb, hchain'⟩ := hchain' _ rfl
    have ih := ih (fun s hs => (h.first.chain_tail ha hchain s hs).imp_right And.left)
      fun s hs => (h.second.chain_tail hb hchain' s hs).imp_right And.left
    by_cases ho : S.Old t
    · exact lookupAlong_old hp h hc ht ho hchain hchain' ih
    · exact lookupAlong_young hp h hc ht ho hchain hchain' ih
  | @hidden t up up' ht hup ih =>
    intro hchain hchain'
    obtain ⟨hb, hchain'⟩ := hchain' _ rfl
    have ih := ih hchain fun s hs => (h.second.chain_tail hb hchain' s hs).imp_right And.left
    exact lookupAlong_hidden hp h ht hup hchain' ih

end
end LazyFormula
