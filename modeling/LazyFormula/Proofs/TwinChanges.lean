import LazyFormula.Proofs.Mirroring
import LazyFormula.Proofs.Twins
/-!
# Changes of twin stores

What evaluations that go side by side do to their stores leaves them twins: they make lambdas and scopes, bind values
and memoize them.
-/
namespace LazyFormula

open Scene (Aligned SlotTwins)

variable {L : Fragment} {S : Scene} {W W' : Twinning} {st st' su su' : Store} {s t u : ScopeId} {name : String}
  {v w : Value} {values values' : List (String × Value)}

/-! ## Changes of values alone -/

/-- A scope of which only the values are other ones. -/
structure Scope.Framed (c c' : Scope) : Prop where
  tree : c'.tree = c.tree
  ancestors : c'.ancestors = c.ancestors
  definitions : c'.definitions = c.definitions

namespace Scope

variable {c c₁ c' d d' : Scope}

theorem Framed.refl (c : Scope) : c.Framed c := ⟨rfl, rfl, rfl⟩

theorem Framed.trans (h : c.Framed c₁) (h' : c₁.Framed c') : c.Framed c' :=
  ⟨h'.tree.trans h.tree, h'.ancestors.trans h.ancestors, h'.definitions.trans h.definitions⟩

theorem Framed.parent? (h : c.Framed c') : c'.parent? = c.parent? := by rw [Scope.parent?, h.ancestors, Scope.parent?]

/-- What is kept stays kept while the values that are kept are the same. -/
theorem Kept.reslot (h : c.Kept d) (hd : d.Framed d')
    (hslots : ∀ {n slot}, c.slots.get? n = some slot → d'.slots.get? n = d.slots.get? n) : c.Kept d' where
  tree := hd.tree.trans h.tree
  ancestors := hd.ancestors.trans h.ancestors
  definitions := hd.definitions.trans h.definitions
  slots hslot := (hslots hslot).trans (h.slots hslot)

theorem Kept.of_reslot (h : c.Kept d) (hc : c.Framed c') (hslots : ∀ n, c'.slots.get? n = c.slots.get? n) :
    c'.Kept d where
  tree := h.tree.trans hc.tree.symm
  ancestors := h.ancestors.trans hc.ancestors.symm
  definitions := h.definitions.trans hc.definitions.symm
  slots hslot := h.slots ((hslots _).symm.trans hslot)

end Scope

namespace Scene

variable {c c' d d' : Scope} {gap : Option Gap} {n : String} {a b : Option Slot}

theorem Settled.reslot (h : S.Settled W t c d) (hc : c.Framed c') (hd : d.Framed d')
    (hslots : ∀ n, c'.slots.get? n = c.slots.get? n) (hslots' : ∀ n, d'.slots.get? n = d.slots.get? n) :
    S.Settled W t c' d' where
  self := h.self
  kept := (h.kept.of_reslot hc hslots).reslot hd fun _ => hslots' _
  ancestors u hu := h.ancestors u (hc.ancestors ▸ hu)
  slots hslot := h.slots ((hslots _).symm.trans hslot)

theorem Matched.reslot (h : S.Matched W t c d) (hc : c.Framed c') (hd : d.Framed d')
    (hslots : ∀ n, SlotTwins S.gap W t n (c'.slots.get? n) (d'.slots.get? n)) : S.Matched W t c' d' where
  tree := (hc.tree.trans h.tree).trans hd.tree.symm
  ancestors := by rw [hc.ancestors, hd.ancestors]; exact h.ancestors
  definitions := by rw [hc.definitions, hd.definitions]; exact h.definitions
  slots := hslots

/-- Twin scopes have the same bound values. -/
theorem SlotTwins.filter_bound (h : SlotTwins gap W t n a b) :
    SlotTwins gap W t n (a.filter fun slot => slot.kind == .bound) (b.filter fun slot => slot.kind == .bound) := by
  cases h with
  | neither => exact .neither
  | @both a b hk hr =>
    cases hb : b.kind with
    | bound => simpa [Option.filter, hk, hb] using Scene.SlotTwins.both hk hr
    | derived => simpa [Option.filter, hk, hb] using Scene.SlotTwins.neither
  | gap _ _ _ hk _ => simpa [Option.filter, hk] using Scene.SlotTwins.neither

end Scene

namespace Store

/-- A store in which only the values of scopes are other ones. -/
structure Reslots (st st' : Store) : Prop where
  size : st'.scopes.size = st.scopes.size
  fresh : st'.fresh = st.fresh
  trees : st'.trees = st.trees
  alive (t : ScopeId) : st'.alive t = st.alive t
  frame {t : ScopeId} : st.alive t = true → (st.scope t).Framed (st'.scope t)

theorem Reslots.refl (st : Store) : st.Reslots st := ⟨rfl, rfl, rfl, fun _ => rfl, fun _ => .refl _⟩

theorem Reslots.trans (h : st.Reslots st') (h' : st'.Reslots su) : st.Reslots su where
  size := h'.size.trans h.size
  fresh := h'.fresh.trans h.fresh
  trees := h'.trees.trans h.trees
  alive t := (h'.alive t).trans (h.alive t)
  frame {t} ht := (h.frame ht).trans (h'.frame ((h.alive t).trans ht))

theorem reslots_put (st : Store) (s : ScopeId) (name : String) (v : Value) (kind : SlotKind) :
    st.Reslots (st.put s name v kind) where
  size := size_modify ..
  fresh := rfl
  trees := rfl
  alive t := alive_put ..
  frame {t} ht := by
    rw [scope, scope, scope?_put]
    split
    · rename_i hts
      rw [← hts, scope?_eq_of_alive ht]
      exact ⟨rfl, rfl, rfl⟩
    · exact .refl _

/-- What becomes of a scope when values are bound. -/
theorem Formed.scope_update (h : st.Formed L) (hs : st.alive s = true) (ht : st.alive t = true)
    (values : List (String × Value)) : ∃ c, (st.update s values).scope? t = some c ∧
      c.tree = (st.scope t).tree ∧ c.ancestors = (st.scope t).ancestors ∧
        c.definitions = (st.scope t).definitions ∧
      ∀ n, c.slots.get? n = if s ∈ st.chain t then
        (if t = s then (values.reverse.lookup n).map fun v => ⟨v.detach s, .bound⟩ else none).or
          (((st.scope t).slots.get? n).filter fun slot => slot.kind == .bound)
        else (st.scope t).slots.get? n := by
  have hput := scope?_puts s t values (st.invalidate s .derived (values.map Prod.fst))
  obtain ⟨c, hc⟩ := alive_iff.1 ((alive_invalidate st s .derived (values.map Prod.fst) t).trans ht)
  obtain ⟨c₀, hc₀, -, hbelow, helse⟩ := h.scope?_of_invalidate hs hc
  rw [← Store.update] at hput
  rw [scope_of_scope? hc₀]
  by_cases hts : t = s
  · subst hts
    have hm : t ∈ st.chain t := List.mem_cons_self
    have hd := hbelow hm
    rw [if_pos rfl, hc, Option.map_some] at hput
    refine ⟨_, hput, hd.tree, hd.ancestors, hd.definitions, fun n => ?_⟩
    rw [if_pos hm, if_pos rfl, ← Scope.get?_clear_derived, ← hd.slots]
    exact Bindings.get?_insertAll_map _ (fun v : Value => Slot.mk (v.detach t) .bound) n values
  · rw [if_neg hts, hc] at hput
    by_cases hm : s ∈ st.chain t
    · have hd := hbelow hm
      refine ⟨c, hput, hd.tree, hd.ancestors, hd.definitions, fun n => ?_⟩
      rw [if_pos hm, if_neg hts, Option.none_or, ← Scope.get?_clear_derived, ← hd.slots]
    · cases helse hm
      exact ⟨c, hput, rfl, rfl, rfl, fun n => by rw [if_neg hm]⟩

theorem reslots_update (h : st.Formed L) (hs : st.alive s = true) (values : List (String × Value)) :
    st.Reslots (st.update s values) where
  size := size_update ..
  fresh := fresh_update ..
  trees := trees_update ..
  alive t := alive_update ..
  frame {t} ht := by
    obtain ⟨c, hc, htree, hanc, hdef, -⟩ := h.scope_update hs ht values
    rw [scope_of_scope? hc]
    exact ⟨htree, hanc, hdef⟩

theorem Formed.slot_update (h : st.Formed L) (hs : st.alive s = true) (ht : st.alive t = true)
    (values : List (String × Value)) (n : String) : ((st.update s values).scope t).slots.get? n =
      if s ∈ st.chain t then
        (if t = s then (values.reverse.lookup n).map fun v => ⟨v.detach s, .bound⟩ else none).or
          (((st.scope t).slots.get? n).filter fun slot => slot.kind == .bound)
        else (st.scope t).slots.get? n := by
  obtain ⟨c, hc, -, -, -, hslots⟩ := h.scope_update hs ht values
  rw [scope_of_scope? hc, hslots]

/-- What is bound below a scope does not reach it. -/
theorem Formed.slot_update_of_lt (h : st.Formed L) (hs : st.alive s = true) (ht : st.alive t = true) (hts : t < s)
    (values : List (String × Value)) (n : String) :
    ((st.update s values).scope t).slots.get? n = (st.scope t).slots.get? n := by
  rw [h.slot_update hs ht, if_neg fun hm => Nat.not_le_of_lt hts (h.alive_of_mem_chain ht hm).2]

end Store

namespace Scene

theorem Open.reslot {g : Gap} (h : S.Open W st su g) (hst : st.Reslots st') (hsu : su.Reslots su')
    (ha : su.alive g.scope = true) : S.Open W st' su' g where
  past := h.past
  scope := h.scope
  definition := (hsu.frame ha).definitions ▸ h.definition
  target := h.target
  lambda_lt := by rw [hst.fresh, hsu.fresh]; exact h.lambda_lt
  lambda := h.lambda

theorem Halts.reslot {x : Site} (h : S.Halts W st su x)
    (hfirst : (st'.scope (W.twin.scope x.scope)).definitions = (st.scope (W.twin.scope x.scope)).definitions)
    (hsecond : ∀ {u}, x.segment u → (su.scope u).Framed (su'.scope u))
    (hnone : ∀ {u}, x.segment u → (su'.scope u).slots.get? x.name = none) : S.Halts W st' su' x where
  past := h.past
  gap := h.gap
  veiled := h.veiled
  here := h.here
  first := hfirst ▸ h.first
  second := (hsecond h.here).definitions ▸ h.second
  segment hu := by
    obtain ⟨hWu, hlt, -, hup⟩ := h.segment hu
    exact ⟨hWu, hlt, hnone hu, by rwa [(hsecond hu).parent?, (hsecond hu).definitions]⟩

end Scene

namespace Store.Twinned

variable (h : Twinned S W st su)
include h

/-- **Twin stores whose values changed alike.** -/
theorem reslot (hst : st.Reslots st') (hsu : su.Reslots su') (hf : st'.Formed .unassigning)
    (hf' : su'.Formed .unassigning)
    (hold : ∀ {t n}, W.scopes t → S.Old t → (st'.scope t).slots.get? n = (st.scope t).slots.get? n)
    (hold' : ∀ {t n}, su.alive t = true → S.Old t → (su'.scope t).slots.get? n = (su.scope t).slots.get? n)
    (hslots : ∀ {t} n, W.scopes t → ¬ S.Old t →
      SlotTwins S.gap W t n ((st'.scope (W.twin.scope t)).slots.get? n) ((su'.scope t).slots.get? n))
    (hveiled : ∀ {b u n slot}, S.veiled b → u ∈ (su.scope b).parent? → W.scopes u →
      (su'.scope b).slots.get? n = some slot →
        (slot.kind = .derived → ∃ slot', (su'.scope u).slots.get? n = some slot' ∧
          slot.value.Agrees slot'.value) ∧
        (S.hidden → slot.kind = .derived))
    (hpast : ∀ {t n slot}, S.past.alive t = true → (S.past.scope t).slots.get? n = some slot →
      (su'.scope t).slots.get? n = (su.scope t).slots.get? n)
    (hgap : ∀ {g}, S.gap = some g → (su'.scope g.scope).slots.get? g.name = none →
      (su.scope g.scope).slots.get? g.name = none)
    (hsite : ∀ {x u}, S.site = some x → x.segment u → (su'.scope u).slots.get? x.name = none) :
    Twinned S W st' su' where
  first := hf
  second := hf'
  trees hs := by rw [hst.trees, hsu.trees, h.trees hs]
  floor := hsu.size ▸ h.floor
  fresh := hsu.fresh ▸ h.fresh
  alive ht := by rw [hst.alive, hsu.alive]; exact h.alive ht
  scopes := h.scopes
  lambdas := h.lambdas
  lambda_lt := by rw [hst.fresh, hsu.fresh]; exact h.lambda_lt
  oldLambda := h.oldLambda
  settled {t} ht ho := by
    have hs := h.settled ht ho
    have ha : st.alive t = true := hs.self ▸ (h.alive ht).1
    exact hs.reslot (hst.frame ha) (hsu.frame (h.alive ht).2) (fun _ => hold ht ho) fun _ => hold' (h.alive ht).2 ho
  matched {t} ht ho :=
    (h.matched ht ho).reslot (hst.frame (h.alive ht).1) (hsu.frame (h.alive ht).2) fun n => hslots n ht ho
  veiled {b} hb := by
    have hv := h.veiled hb
    have hframe := hsu.frame hv.alive
    obtain ⟨u, hu, hWu, -⟩ := hv.slots
    exact
      { alive := (hsu.alive b).trans hv.alive
        definitions := by rw [hframe.definitions]; exact hv.definitions
        slots := ⟨u, by rwa [hframe.parent?], hWu, fun n slot hs hk => (hveiled hb hu hWu hs).1 hk⟩
        hidden := fun hh => ⟨(hv.hidden hh).1, fun n slot hs => (hveiled hb hu hWu hs).2 hh⟩ }
  past {t} ht := by
    obtain ⟨ha, hk⟩ := h.past ht
    exact ⟨(hsu.alive t).trans ha, hk.reslot (hsu.frame ha) fun hslot => hpast ht hslot⟩
  gap {g} hg := by
    obtain ⟨hlt, ha, hopen⟩ := h.gap hg
    refine ⟨hlt, (hsu.alive _).trans ha, fun hnone => ?_⟩
    exact (hopen (hgap hg hnone)).reslot hst hsu ha
  site {x} hx := by
    have hs := h.site hx
    have hscope := (hs.segment hs.here).1
    refine hs.reslot (hst.frame (h.alive hscope).1).definitions (fun hu => ?_) fun hu => hsite hx hu
    exact hsu.frame (h.alive (hs.segment hu).1).2
  exact {t n} he ho ht hn := by
    rw [hold' (h.past ht).1 ho]
    exact h.exact he ho ht hn

/-! ## What evaluations do -/

/-- **Both evaluations make a lambda.** -/
theorem lambda : Twinned S (W.addLambda su.fresh st.fresh) st.takeFresh.2 su.takeFresh.2 := by
  have hdrift : Twinned S W st.takeFresh.2 su.takeFresh.2 :=
    h.drift (drifts_of_scope? rfl (Nat.le_succ _) fun _ => rfl) (drifts_of_scope? rfl (Nat.le_succ _) fun _ => rfl)
      (h.first.congr rfl fun _ => rfl) (h.second.congr rfl fun _ => rfl) h.trees
  refine hdrift.addLambda (Nat.lt_succ_self _) (Nat.lt_succ_self _) (fun hl => ?_) (fun m hm he => ?_) (fun ho => ?_)
    fun g hg hnone he => ?_
  · exact Nat.lt_irrefl _ (h.lambda_lt hl).2
  · exact Nat.ne_of_lt (h.lambda_lt hm).1 he
  · exact absurd ho.2 (Nat.not_lt_of_le h.fresh)
  · have hlt := ((h.gap hg).2.2 hnone).lambda_lt
    exact he.elim (fun he => absurd he (Nat.ne_of_gt hlt.1)) fun he => absurd he (Nat.ne_of_gt hlt.2)

theorem supports_values (hvalues : values = values'.map fun x => (x.1, x.2.rename W.twin))
    (hv : ∀ x ∈ values', W.Twins (x.2.rename W.twin) x.2) :
    (∀ x ∈ values, st.Supports .unassigning x.2) ∧ ∀ x ∈ values', su.Supports .unassigning x.2 := by
  refine ⟨fun x hx => ?_, fun x hx => h.supports_second (hv x hx)⟩
  rw [hvalues] at hx
  obtain ⟨y, hy, rfl⟩ := List.mem_map.1 hx
  exact h.supports_first (hv y hy)

/-- **Both evaluations make a scope**, with twin values, below ways up that go side by side. -/
theorem child {a b : ScopeId} (values values' : List (String × Value)) (ha : st.alive a = true)
    (hb : su.alive b = true)
    (halign : Aligned S.Hidden W (st.chain a) (su.chain b)) (htree : (st.scope a).tree = (su.scope b).tree)
    (hvalues : values = values'.map fun x => (x.1, x.2.rename W.twin))
    (hv : ∀ x ∈ values', W.Twins (x.2.rename W.twin) x.2) :
    Twinned S (W.addScope su.scopes.size st.scopes.size) (st.addChild a values).2 (su.addChild b values').2 := by
  obtain ⟨hsupports, hsupports'⟩ := h.supports_values hvalues hv
  have hdrift : Twinned S W (st.addChild a values).2 (su.addChild b values').2 :=
    h.drift (drifts_addChild ha values) (drifts_addChild hb values') (h.first.addChild ha hsupports)
      (h.second.addChild hb hsupports') h.trees
  refine hdrift.addScope (alive_addChild_size hb values') (alive_addChild_size ha values) (fun hs => ?_)
    (fun t ht he => ?_) (fun ho => ?_) (fun hh => ?_) ?_
  · exact Nat.lt_irrefl _ (h.lt_size hs).2
  · exact Nat.ne_of_lt (h.lt_size ht).1 he
  · exact absurd ho.2 (Nat.not_lt_of_le (Nat.le_trans h.floor.1 h.floor.2))
  · exact Nat.lt_irrefl _ (lt_size_of_alive (h.veiled hh.2).alive)
  · have hnew : ∀ {st : Store} {p values}, st.alive p = true →
        (st.addChild p values).2.scope st.scopes.size = st.newborn p values := fun hp =>
      scope_of_scope? (by rw [scope?_addChild hp, if_pos rfl])
    rw [hnew ha, hnew hb]
    refine ⟨htree, halign, fun n => .inl rfl, fun n => ?_⟩
    rw [get?_newborn, get?_newborn, hvalues, ← List.map_reverse, Bindings.lookup_map]
    cases hl : values'.reverse.lookup n with
    | none => exact .neither
    | some v =>
      have hm := hv _ (mem_of_lookup_reverse hl)
      exact .both rfl ⟨hm.knows, rfl⟩

/-- Twin scopes have twin values after both evaluations bound values. -/
theorem slotTwins_update (hs : W.scopes s) (hvalues : values = values'.map fun x => (x.1, x.2.rename W.twin))
    (hv : ∀ x ∈ values', W.Twins (x.2.rename W.twin) x.2) (ht : W.scopes t) (ho : ¬ S.Old t) (n : String) :
    SlotTwins S.gap W t n (((st.update (W.twin.scope s) values).scope (W.twin.scope t)).slots.get? n)
      (((su.update s values').scope t).slots.get? n) := by
  rw [h.first.slot_update (h.alive hs).1 (h.alive ht).1, h.second.slot_update (h.alive hs).2 (h.alive ht).2]
  have hslot := (h.matched ht ho).slots n
  by_cases hm : s ∈ su.chain t
  · rw [if_pos hm, if_pos ((h.mem_chain_iff hs ht).2 hm)]
    by_cases hts : t = s
    · subst hts
      rw [if_pos rfl, if_pos rfl, hvalues, ← List.map_reverse, Bindings.lookup_map]
      cases hl : values'.reverse.lookup n with
      | none => exact hslot.filter_bound
      | some v => exact .both rfl ((hv _ (mem_of_lookup_reverse hl)).rests _ _)
    · rw [if_neg hts, if_neg fun he => hts (h.scopes ht hs he)]
      exact hslot.filter_bound
  · rw [if_neg hm, if_neg fun hm' => hm ((h.mem_chain_iff hs ht).1 hm')]
    exact hslot

/-- A value of a veiled scope is there in its parent, too. -/
theorem slot_of_veiled {b : ScopeId} (hb : S.veiled b) (hu : u ∈ (su.scope b).parent?) {slot : Slot}
    (hslot : (su.scope b).slots.get? name = some slot) (hk : slot.kind = .derived) :
    ∃ slot', (su.scope u).slots.get? name = some slot' ∧ slot.value.Agrees slot'.value := by
  obtain ⟨u', hu', -, hslots⟩ := (h.veiled hb).slots
  cases Option.some.inj (hu'.symm.trans hu)
  exact hslots name slot hslot hk

/-- A scope stays veiled when values are bound: below them nothing memoized is left, and elsewhere nothing changes. -/
theorem slot_update_of_veiled (hs : W.scopes s) {b : ScopeId} (hb : S.veiled b) (hu : u ∈ (su.scope b).parent?)
    (hWu : W.scopes u) {slot : Slot} (hslot : ((su.update s values').scope b).slots.get? name = some slot) :
    (slot.kind = .derived →
      ∃ slot', ((su.update s values').scope u).slots.get? name = some slot' ∧ slot.value.Agrees slot'.value) ∧
      (S.hidden → slot.kind = .derived) := by
  have hvb := h.veiled hb
  have hsa := (h.alive hs).2
  rw [h.second.slot_update hsa hvb.alive] at hslot
  have hchain : su.chain b = b :: su.chain u := by
    obtain ⟨up, hup⟩ := List.head?_eq_some_iff.1 hu
    exact h.second.chain_eq (scope?_eq_of_alive hvb.alive) hup
  by_cases hm : s ∈ su.chain b
  · rw [if_pos hm, Option.or_eq_some_iff] at hslot
    rcases hslot with hslot | ⟨-, hslot⟩
    · split at hslot
      · rename_i hbs
        obtain ⟨v, -, rfl⟩ := Option.map_eq_some_iff.1 hslot
        exact ⟨fun hd => (by cases hd), fun hh => absurd (hbs ▸ hs) (hvb.hidden hh).1⟩
      · cases hslot
    · obtain ⟨hslot, hk⟩ := Option.filter_eq_some_iff.1 hslot
      refine ⟨fun hd => ?_, fun hh => (hvb.hidden hh).2 name slot hslot⟩
      rw [hd] at hk
      cases hk
  · rw [if_neg hm] at hslot
    rw [h.second.slot_update hsa (h.alive hWu).2, if_neg fun hm' => hm (hchain ▸ List.mem_cons_of_mem _ hm')]
    exact ⟨h.slot_of_veiled hb hu hslot, fun hh => (hvb.hidden hh).2 name slot hslot⟩

/-- **Both evaluations bind values** in a scope that was made meanwhile. -/
theorem update (hs : W.scopes s) (hfloor : S.floor ≤ s)
    (hvalues : values = values'.map fun x => (x.1, x.2.rename W.twin))
    (hv : ∀ x ∈ values', W.Twins (x.2.rename W.twin) x.2) :
    Twinned S W (st.update (W.twin.scope s) values) (su.update s values') := by
  obtain ⟨hsupports, hsupports'⟩ := h.supports_values hvalues hv
  obtain ⟨hsa, hsa'⟩ := h.alive hs
  have hpast := Nat.le_trans h.floor.1 hfloor
  -- scopes from before are not below the one that is written
  have hlow : ∀ {t n}, su.alive t = true → t < s →
      ((su.update s values').scope t).slots.get? n = (su.scope t).slots.get? n := fun ht hlt =>
    h.second.slot_update_of_lt hsa' ht hlt values' _
  refine h.reslot (reslots_update h.first hsa _) (reslots_update h.second hsa' _) (h.first.update hsupports _)
    (h.second.update hsupports' _) (fun {t n} ht ho => ?_) (fun {t n} ht ho => hlow ht (Nat.lt_of_lt_of_le ho.2 hpast))
    (fun n ht ho => h.slotTwins_update hs hvalues hv ht ho n)
    (fun hb hu hWu hslot => h.slot_update_of_veiled hs hb hu hWu hslot) (fun {t n slot} ht _ => ?_)
    (fun {g} hg hnone => ?_) (fun {x u} hx hu => ?_)
  · have hself := (h.settled ht ho).self
    have hta : st.alive t = true := hself ▸ (h.alive ht).1
    have hnot : s ∉ su.chain t := fun hm =>
      Nat.not_le_of_lt (Nat.lt_of_lt_of_le ho.2 hpast) (h.second.alive_of_mem_chain (h.alive ht).2 hm).2
    rw [h.first.slot_update hsa hta, if_neg]
    exact fun hm => hnot ((h.mem_chain_iff hs ht).1 (by rwa [hself]))
  · exact hlow (h.past ht).1 (Nat.lt_of_lt_of_le (lt_size_of_alive ht) hpast)
  · rwa [hlow (h.gap hg).2.1 (Nat.lt_of_lt_of_le (h.gap hg).1 hfloor)] at hnone
  · obtain ⟨hWu, hlt, hnone, -⟩ := (h.site hx).segment hu
    rw [hlow (h.alive hWu).2 (Nat.lt_of_lt_of_le hlt hfloor), hnone]

/-- What is not there was not there in the past. -/
theorem none_of_past (hs : S.past.alive s = true) (hnone : (su.scope s).slots.get? name = none) :
    (S.past.scope s).slots.get? name = none := by
  cases hslot : (S.past.scope s).slots.get? name with
  | none => rfl
  | some slot => exact absurd ((h.past hs).2.slots hslot) (by simp [hnone])

/-- The second evaluation memoizes a value where it has none. -/
theorem memoize_second (hsa : su.alive s = true) (ho : ¬ S.Old s) (hw : su.Supports .unassigning w)
    (hnone : S.past.alive s = true → (S.past.scope s).slots.get? name = none)
    (hnone' : W.scopes s → (su.scope s).slots.get? name = none) (hst : st.Reslots st') (hf : st'.Formed .unassigning)
    (hold : ∀ {t n}, W.scopes t → S.Old t → (st'.scope t).slots.get? n = (st.scope t).slots.get? n)
    (hslots : ∀ {t} n, W.scopes t → ¬ S.Old t → SlotTwins S.gap W t n ((st'.scope (W.twin.scope t)).slots.get? n)
      (if t = s ∧ n = name then some ⟨w.detach s, .derived⟩ else (su.scope t).slots.get? n))
    (hup : S.veiled s → ∀ u ∈ (su.scope s).parent?, ∃ slot', (su.scope u).slots.get? name = some slot' ∧
      w.Agrees slot'.value)
    (hsite : ∀ x, S.site = some x → x.segment s → x.name ≠ name) :
    Twinned S W st' (su.put s name w .derived) := by
  have hput : ∀ {t n}, su.alive t = true → ((su.put s name w .derived).scope t).slots.get? n =
      if t = s ∧ n = name then some ⟨w.detach s, .derived⟩ else (su.scope t).slots.get? n :=
        fun ht => su.slot_put ht ..
  refine h.reslot hst (reslots_put ..) hf (h.second.put hw s name .derived) hold (fun {t n} ht hot => ?_)
    (fun {t} n ht hot => ?_) (fun {b u n slot} hb hu hWu hslot => ?_) (fun {t n slot} ht hslot => ?_)
    (fun {g} hg hnone => ?_) (fun {x u} hx hu => ?_)
  · rw [hput ht, if_neg fun hc : t = s ∧ n = name => ho (hc.1 ▸ hot)]
  · rw [hput (h.alive ht).2]
    exact hslots n ht hot
  · have hvb := h.veiled hb
    rw [hput hvb.alive] at hslot
    -- what the parent has stays
    have hkeeps : ∀ {slot'}, (su.scope u).slots.get? n = some slot' →
        ((su.put s name w .derived).scope u).slots.get? n = some slot' := by
      intro slot' hs'
      rw [hput (h.alive hWu).2, if_neg, hs']
      rintro ⟨rfl, rfl⟩
      rw [hnone' hWu] at hs'
      cases hs'
    split at hslot
    · rename_i hbn
      obtain ⟨rfl, rfl⟩ := hbn
      cases hslot
      obtain ⟨slot', hs', ha⟩ := hup hb u hu
      exact ⟨fun _ => ⟨slot', hkeeps hs', (w.agrees_detach b).trans ha⟩, fun _ => rfl⟩
    · refine ⟨fun hk => ?_, fun hh => (hvb.hidden hh).2 n slot hslot⟩
      obtain ⟨slot', hs', ha⟩ := h.slot_of_veiled hb hu hslot hk
      exact ⟨slot', hkeeps hs', ha⟩
  · obtain ⟨ha, hk⟩ := h.past ht
    rw [hput ha, if_neg]
    rintro ⟨rfl, rfl⟩
    rw [hnone ht] at hslot
    cases hslot
  · rw [hput (h.gap hg).2.1] at hnone
    split at hnone
    · cases hnone
    · exact hnone
  · obtain ⟨hWu, -, hnone', -⟩ := (h.site hx).segment hu
    rw [hput (h.alive hWu).2, if_neg, hnone']
    rintro ⟨rfl, he⟩
    exact hsite x hx hu he

/-- **Both evaluations memoize a value**, in a scope that was made meanwhile. -/
theorem memoize (hs : W.scopes s) (ho : ¬ S.Old s) (hv : W.Twins v w) (hnone : (su.scope s).slots.get? name = none)
    (hup : S.veiled s → ∀ u ∈ (su.scope s).parent?, ∃ slot', (su.scope u).slots.get? name = some slot' ∧
      w.Agrees slot'.value)
    (hsite : ∀ x, S.site = some x → x.segment s → x.name ≠ name) :
    Twinned S W (st.put (W.twin.scope s) name v .derived) (su.put s name w .derived) := by
  obtain ⟨hsa, hsa'⟩ := h.alive hs
  refine h.memoize_second hsa' ho (h.supports_second hv) (fun hp => h.none_of_past hp hnone) (fun _ => hnone)
    (reslots_put ..) (h.first.put (h.supports_first hv) _ _ _) (fun {t n} ht hot => ?_)
    (fun {t} n ht hot => ?_) hup hsite
  · have hne : t ≠ s := fun he => ho (he ▸ hot)
    have hself := (h.settled ht hot).self
    rw [slot_put _ (hself ▸ (h.alive ht).1), if_neg]
    exact fun hc => hne (h.scopes ht hs (hself.trans hc.1))
  · rw [slot_put _ (h.alive ht).1]
    by_cases hc : t = s ∧ n = name
    · obtain ⟨rfl, rfl⟩ := hc
      rw [if_pos ⟨rfl, rfl⟩, if_pos ⟨rfl, rfl⟩]
      exact .both rfl (hv.rests _ _)
    · rw [if_neg hc, if_neg fun he => hc ⟨h.scopes ht hs he.1, he.2⟩]
      exact (h.matched ht hot).slots n

/-- **The second evaluation memoizes a value in a hidden scope.** -/
theorem memoize_hidden {b : ScopeId} (hb : S.Hidden b) (hw : su.Supports .unassigning w)
    (hnone : S.past.alive b = true → (S.past.scope b).slots.get? name = none)
    (hup : ∀ u ∈ (su.scope b).parent?, ∃ slot', (su.scope u).slots.get? name = some slot' ∧
      w.Agrees slot'.value)
    (hpast : ¬ S.follows) : Twinned S W st (su.put b name w .derived) := by
  refine h.memoize_second (h.veiled hb.2).alive (fun ho => hpast ho.1) hw hnone (fun hs => absurd hb (h.not_hidden hs))
    (.refl st) h.first (fun {t n} ht hot => absurd hot.1 hpast) (fun {t} n ht hot => ?_) (fun _ => hup)
    fun x hx _ => absurd hb.2 (h.site hx).veiled
  have hne : t ≠ b := fun he => h.not_hidden ht (he ▸ hb)
  rw [if_neg fun hc => hne hc.1]
  exact (h.matched ht hot).slots n

end Store.Twinned
end LazyFormula
