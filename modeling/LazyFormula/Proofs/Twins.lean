import LazyFormula.Proofs.Sparing
import LazyFormula.Proofs.Twinning
/-!
# Twin stores

Two stores in which evaluations go side by side. A scope of the second store that has a twin in the first one says there
what it says here, with the numbers of the first store (`Store.Twinned`). What may be different is set by a scene:

- the first evaluation may be over already, and the second one repeats it: then the scopes that were there when the
  first one ended are the same in both stores, and the second one has what the first one has yet to memoize;
- the second store may have a scope with nothing but memoized values on the way up from scopes whose twins have none
  there;
- the first store may have memoized one value that the second one has not;
- one definition of the first store may fail where the second one's may have a value.
-/
namespace LazyFormula

/-! ## What may be different -/

/-- **A value that the first store alone has memoized**: that of a definition which yields a procedure. -/
structure Gap where
  scope : ScopeId
  name : String
  body : Expr
  procedure : Procedure
  /-- The number of its lambda in the past. -/
  number : Nat
  /-- Which lambdas may be twins if the procedure's one is among them. -/
  may : Nat → Nat → Prop
  /-- Whether nothing is said about evaluations in which the first store's value is read. -/
  unread : Prop

/-- **A definition that fails in the first store**, with the scopes that look the name up there. -/
structure Site where
  scope : ScopeId
  name : String
  body : Expr
  segment : ScopeId → Prop

/-- **What may be different between two stores.** -/
structure Scene where
  /-- A store that the second one has gone on from. -/
  past : Store
  /-- The evaluations write in no scope of the second store below this number. -/
  floor : Nat
  /-- The evaluation in the first store is the one that ended in the past. -/
  follows : Prop
  /-- The second evaluation starts where the first one ended. -/
  exact : Prop
  /-- The evaluations nest equally deep. -/
  strict : Prop
  /-- Scopes whose memoized values are those of their parents. -/
  veiled : ScopeId → Prop
  /-- Whether the first store lacks the veiled scopes. -/
  hidden : Prop
  gap : Option Gap
  site : Option Site
  /-- More than the nesting that is left where the definition is forced that fails. -/
  bound : Nat

/-- A definition without a value. -/
def Expr.halt : Expr := .list [.symbol "quote"]

namespace Scene

/-- A scope from before the first evaluation ended. -/
def Old (S : Scene) (t : ScopeId) : Prop := S.follows ∧ t < S.past.scopes.size

/-- A lambda from before the first evaluation ended. -/
def OldLambda (S : Scene) (l : Nat) : Prop := S.follows ∧ l < S.past.fresh

/-- A scope that the first store lacks. -/
def Hidden (S : Scene) (t : ScopeId) : Prop := S.hidden ∧ S.veiled t

/-- **Ways up that go side by side.** Hidden scopes are passed over. -/
inductive Aligned (hidden : ScopeId → Prop) (W : Twinning) : List ScopeId → List ScopeId → Prop
  | nil : Aligned hidden W [] []
  | twin {t : ScopeId} {up up' : List ScopeId} (ht : W.scopes t) (hup : Aligned hidden W up up') :
      Aligned hidden W (W.twin.scope t :: up) (t :: up')
  | hidden {t : ScopeId} {up up' : List ScopeId} (ht : hidden t) (hup : Aligned hidden W up up') :
      Aligned hidden W up (t :: up')

/-- **What twin scopes have under one name.** -/
inductive SlotTwins (gap : Option Gap) (W : Twinning) (t : ScopeId) (name : String) :
    Option Slot → Option Slot → Prop
  | neither : SlotTwins gap W t name none none
  | both {a b : Slot} (hk : a.kind = b.kind) (hr : W.Rests a.value b.value) : SlotTwins gap W t name (some a) (some b)
  | gap {g : Gap} {a : Slot} (hg : gap = some g) (hs : g.scope = t) (hn : g.name = name) (hk : a.kind = .derived)
      (ha : a.value.Agrees (.procedure g.procedure)) : SlotTwins gap W t name (some a) none

/-- **A scope that was made meanwhile, and its twin.** -/
structure Matched (S : Scene) (W : Twinning) (t : ScopeId) (c d : Scope) : Prop where
  tree : c.tree = d.tree
  ancestors : Aligned S.Hidden W c.ancestors d.ancestors
  definitions (name : String) : c.definitions.get? name = d.definitions.get? name ∨
    ∃ x, S.site = some x ∧ x.scope = t ∧ x.name = name
  slots (name : String) : SlotTwins S.gap W t name (c.slots.get? name) (d.slots.get? name)

/-- **A scope that was there when the first evaluation ended.** The second store has kept what the first one has. -/
structure Settled (S : Scene) (W : Twinning) (t : ScopeId) (c d : Scope) : Prop where
  self : W.twin.scope t = t
  kept : c.Kept d
  ancestors : ∀ u ∈ c.ancestors, W.scopes u
  slots {name : String} {slot : Slot} : c.slots.get? name = some slot →
    ∀ p ∈ slot.value.procedures, W.Knows p ∧ S.Old p.scope ∧ S.OldLambda p.lambda.id

/-- **A scope whose memoized values are those of its parent.** -/
structure Veiled (S : Scene) (W : Twinning) (su : Store) (b : ScopeId) : Prop where
  alive : su.alive b = true
  definitions (name : String) : (su.scope b).definitions.get? name = none
  slots : ∃ u ∈ (su.scope b).parent?, W.scopes u ∧ ∀ name slot, (su.scope b).slots.get? name = some slot →
    slot.kind = .derived → ∃ slot', (su.scope u).slots.get? name = some slot' ∧ slot.value.Agrees slot'.value
  hidden : S.hidden → ¬ W.scopes b ∧ ∀ name slot, (su.scope b).slots.get? name = some slot →
    slot.kind = .derived

/-- **The second store has yet to memoize a value.** Nothing but what it will make then is a twin of the procedure. -/
structure Open (S : Scene) (W : Twinning) (st su : Store) (g : Gap) : Prop where
  past : ¬ S.follows
  scope : W.scopes g.scope ∧ W.twin.scope g.scope = g.scope
  definition : (su.scope g.scope).definitions.get? g.name = some g.body
  target : ∃ t, W.scopes t ∧ W.twin.scope t = g.procedure.scope ∧ (¬ g.unread → t = g.procedure.scope)
  lambda_lt : g.procedure.lambda.id < st.fresh ∧ g.number < su.fresh
  lambda {l : Nat} : W.lambdas l → W.twin.lambda l = g.procedure.lambda.id ∨ l = g.number →
    g.may l (W.twin.lambda l)

/-- **The name of a failing definition has no value** in the scopes that look it up there. -/
structure Halts (S : Scene) (W : Twinning) (st su : Store) (x : Site) : Prop where
  past : ¬ S.follows
  gap : S.gap = none
  veiled {t : ScopeId} : ¬ S.veiled t
  here : x.segment x.scope
  first : (st.scope (W.twin.scope x.scope)).definitions.get? x.name = some .halt
  second : (su.scope x.scope).definitions.get? x.name = some x.body
  segment {u : ScopeId} : x.segment u → W.scopes u ∧ u < S.floor ∧ (su.scope u).slots.get? x.name = none ∧
    (u = x.scope ∨ (su.scope u).definitions.get? x.name = none ∧ ∃ p ∈ (su.scope u).parent?, x.segment p)

variable {S : Scene} {W W' : Twinning} {st su : Store} {s t : ScopeId} {name : String} {c d : Scope}

theorem Aligned.mono (hW : W.Le W') {up up' : List ScopeId} (h : Aligned S.Hidden W up up') :
    Aligned S.Hidden W' up up' := by
  induction h with
  | nil => exact .nil
  | twin ht _ ih => exact (hW.scope ht).2 ▸ .twin (hW.scope ht).1 ih
  | hidden ht _ ih => exact .hidden ht ih

theorem aligned_self : ∀ {up : List ScopeId}, (∀ u ∈ up, W.scopes u ∧ W.twin.scope u = u) →
    Aligned S.Hidden W up up
  | [], _ => .nil
  | u :: up, h => by
    have hup : Aligned S.Hidden W up up := aligned_self fun x hx => h x (List.mem_cons_of_mem _ hx)
    have := Aligned.twin (h u List.mem_cons_self).1 hup
    rwa [(h u List.mem_cons_self).2] at this

/-- Twin slots where other values are twins and another gap is in the same place. -/
theorem SlotTwins.imp {gap gap' : Option Gap} {a b : Option Slot} (h : SlotTwins gap W t name a b)
    (hrests : ∀ {v y}, b = some y → W.Rests v y.value → W'.Rests v y.value)
    (hgap : ∀ {g}, gap = some g →
      ∃ g', gap' = some g' ∧ g'.scope = g.scope ∧ g'.name = g.name ∧ g'.procedure = g.procedure) :
    SlotTwins gap' W' t name a b := by
  cases h with
  | neither => exact .neither
  | both hk hr => exact .both hk (hrests rfl hr)
  | gap hg hs hn hk ha =>
    obtain ⟨g', hg', hscope, hname, hprocedure⟩ := hgap hg
    exact .gap hg' (hscope.trans hs) (hname.trans hn) hk (hprocedure ▸ ha)

theorem SlotTwins.mono (hW : W.Le W') {a b : Option Slot} (h : SlotTwins S.gap W t name a b) :
    SlotTwins S.gap W' t name a b :=
  h.imp (fun _ hr => hr.mono hW) fun {g} hg => ⟨g, hg, rfl, rfl, rfl⟩

/-- Where nothing but memoized values is in one of two twin scopes, so it is in the other one. -/
theorem SlotTwins.derived_iff {a b : Option Slot} (h : SlotTwins S.gap W t name a b) :
    (∀ x, a = some x → x.kind = .derived) ↔ ∀ x, b = some x → x.kind = .derived := by
  cases h with
  | neither => simp
  | both hk _ => simp [hk]
  | gap _ _ _ hk _ => simp [hk]

theorem Matched.mono (hW : W.Le W') (h : S.Matched W t c d) : S.Matched W' t c d :=
  ⟨h.tree, h.ancestors.mono hW, h.definitions, fun name => (h.slots name).mono hW⟩

theorem Settled.mono (hW : W.Le W') (ht : W.scopes t) (h : S.Settled W t c d) : S.Settled W' t c d where
  self := (hW.scope ht).2.trans h.self
  kept := h.kept
  ancestors u hu := (hW.scope (h.ancestors u hu)).1
  slots hs p hp := ⟨hW.knows (h.slots hs p hp).1, (h.slots hs p hp).2⟩

end Scene

/-! ## Scopes that keep all but their listeners -/

namespace Scope

/-- A scope that is the same but for its listeners. -/
structure Steady (c c' : Scope) : Prop where
  tree : c'.tree = c.tree
  ancestors : c'.ancestors = c.ancestors
  definitions : c'.definitions = c.definitions
  slots (name : String) : c'.slots.get? name = c.slots.get? name

theorem Steady.refl (c : Scope) : Steady c c := ⟨rfl, rfl, rfl, fun _ => rfl⟩

theorem Steady.trans {c c₁ c' : Scope} (h : Steady c c₁) (h' : Steady c₁ c') : Steady c c' :=
  ⟨h'.tree.trans h.tree, h'.ancestors.trans h.ancestors, h'.definitions.trans h.definitions,
    fun n => (h'.slots n).trans (h.slots n)⟩

theorem Steady.kept {c c' : Scope} (h : Steady c c') : Kept c c' :=
  ⟨h.tree, h.ancestors, h.definitions, fun hs => (h.slots _).trans hs⟩

theorem Steady.parent? {c c' : Scope} (h : Steady c c') : c'.parent? = c.parent? := congrArg List.head? h.ancestors

end Scope

open Scene (Aligned SlotTwins)

namespace Store

/-- A store in which the scopes that were there are the same but for their listeners. -/
structure Drifts (st st' : Store) : Prop where
  size : st.scopes.size ≤ st'.scopes.size
  fresh : st.fresh ≤ st'.fresh
  scope {t : ScopeId} : st.alive t = true → st'.alive t = true ∧ (st.scope t).Steady (st'.scope t)

theorem drifts_of_scope? {st st' : Store} (hsize : st'.scopes.size = st.scopes.size) (hfresh : st.fresh ≤ st'.fresh)
    (hs : ∀ t, st'.scope? t = st.scope? t) : st.Drifts st' where
  size := Nat.le_of_eq hsize.symm
  fresh := hfresh
  scope {t} ht := by
    rw [alive, scope, scope, hs]
    exact ⟨ht, .refl _⟩

theorem Drifts.refl (st : Store) : st.Drifts st := drifts_of_scope? rfl (Nat.le_refl _) fun _ => rfl

theorem drifts_addChild {st : Store} {p : ScopeId} (hp : st.alive p = true) (values : List (String × Value)) :
    st.Drifts (st.addChild p values).2 where
  size := by simp
  fresh := Nat.le_refl _
  scope {t} ht := by
    obtain ⟨l, hc⟩ := scope?_addChild_of_scope? hp values (scope?_eq_of_alive ht)
    rw [scope_of_scope? hc]
    exact ⟨alive_of_scope? hc, ⟨rfl, rfl, rfl, fun _ => rfl⟩⟩

/-! ## Twin stores -/

/-- **Twin stores.** -/
structure Twinned (S : Scene) (W : Twinning) (st su : Store) : Prop where
  first : st.Formed .unassigning
  second : su.Formed .unassigning
  trees : S.strict → st.trees = su.trees
  floor : S.past.scopes.size ≤ S.floor ∧ S.floor ≤ su.scopes.size
  fresh : S.past.fresh ≤ su.fresh
  alive {t : ScopeId} : W.scopes t → st.alive (W.twin.scope t) = true ∧ su.alive t = true
  scopes {t u : ScopeId} : W.scopes t → W.scopes u → W.twin.scope t = W.twin.scope u → t = u
  lambdas {l m : Nat} : W.lambdas l → W.lambdas m → W.twin.lambda l = W.twin.lambda m → l = m
  lambda_lt {l : Nat} : W.lambdas l → W.twin.lambda l < st.fresh ∧ l < su.fresh
  oldLambda {l : Nat} : W.lambdas l → S.OldLambda l → W.twin.lambda l = l
  settled {t : ScopeId} : W.scopes t → S.Old t → S.Settled W t (st.scope t) (su.scope t)
  matched {t : ScopeId} : W.scopes t → ¬ S.Old t → S.Matched W t (st.scope (W.twin.scope t)) (su.scope t)
  veiled {b : ScopeId} : S.veiled b → S.Veiled W su b
  past {t : ScopeId} : S.past.alive t = true → su.alive t = true ∧ (S.past.scope t).Kept (su.scope t)
  gap {g : Gap} : S.gap = some g →
    g.scope < S.floor ∧ su.alive g.scope = true ∧ ((su.scope g.scope).slots.get? g.name = none → S.Open W st su g)
  site {x : Site} : S.site = some x → S.Halts W st su x
  exact {t : ScopeId} {name : String} : S.exact → S.Old t → S.past.alive t = true →
    (S.past.scope t).slots.get? name = none → (su.scope t).slots.get? name = none

variable {S : Scene} {W W' : Twinning} {st st' su su' : Store} {s t u : ScopeId} {name : String} {v w : Value}

namespace Twinned

variable (h : Twinned S W st su)
include h

theorem supports_second (hv : W.Twins v w) : su.Supports .unassigning w :=
  fun p hp => ⟨(hv.holds p hp).1, (h.alive (hv.knows p hp).1).2, (hv.holds p hp).2⟩

theorem supports_first (hv : W.Twins v w) : st.Supports .unassigning v := by
  intro p hp
  rw [hv.eq, Value.procedures_rename] at hp
  obtain ⟨q, hq, rfl⟩ := List.mem_map.1 hp
  exact ⟨(hv.holds q hq).1, (h.alive (hv.knows q hq).1).1, rfl⟩

theorem lt_size (ht : W.scopes t) : W.twin.scope t < st.scopes.size ∧ t < su.scopes.size :=
  ⟨lt_size_of_alive (h.alive ht).1, lt_size_of_alive (h.alive ht).2⟩

theorem separates : W.twin.Separates W.Knows :=
  ⟨fun hp hq he => h.scopes hp.1 hq.1 he, fun hp hq he => h.lambdas hp.2 hq.2 he⟩

theorem not_hidden (ht : W.scopes t) : ¬ S.Hidden t := fun hh => ((h.veiled hh.2).hidden hh.1).1 ht

/-- What is above an old scope is old. -/
theorem old_above (ht : W.scopes t) (ho : S.Old t) {u : ScopeId} (hu : u ∈ (st.scope t).ancestors) :
    W.scopes u ∧ S.Old u := by
  have hs := h.settled ht ho
  have ha : st.alive t = true := hs.self ▸ (h.alive ht).1
  have hle := (h.first.alive_of_mem_chain ha (chain_of_scope? (scope?_eq_of_alive ha) ▸ List.mem_cons_of_mem _ hu)).2
  exact ⟨hs.ancestors u hu, ho.1, Nat.lt_of_le_of_lt hle ho.2⟩

/-- **The ways up from twin scopes go side by side.** -/
theorem aligned (ht : W.scopes t) : Aligned S.Hidden W (st.chain (W.twin.scope t)) (su.chain t) := by
  rw [chain, chain]
  refine .twin ht ?_
  by_cases ho : S.Old t
  · have hs := h.settled ht ho
    rw [hs.self, hs.kept.ancestors]
    refine Scene.aligned_self fun u hu => ?_
    obtain ⟨hu, huo⟩ := h.old_above ht ho hu
    exact ⟨hu, (h.settled hu huo).self⟩
  · exact (h.matched ht ho).ancestors

theorem tree (ht : W.scopes t) : (st.scope (W.twin.scope t)).tree = (su.scope t).tree := by
  by_cases ho : S.Old t
  · rw [(h.settled ht ho).kept.tree, (h.settled ht ho).self]
  · exact (h.matched ht ho).tree

theorem mem_of_aligned {up up' : List ScopeId} (ha : Aligned S.Hidden W up up') (hs : W.scopes s) :
    W.twin.scope s ∈ up ↔ s ∈ up' := by
  induction ha with
  | nil => simp
  | @twin t _ _ ht _ ih =>
    rw [List.mem_cons, List.mem_cons, ih]
    exact or_congr_left ⟨h.scopes hs ht, congrArg W.twin.scope⟩
  | @hidden t _ _ ht _ ih =>
    rw [List.mem_cons, ih]
    exact ⟨.inr, fun he => he.resolve_left fun he => h.not_hidden hs (he ▸ ht)⟩

/-- A scope is below another one as their twins are. -/
theorem mem_chain_iff (hs : W.scopes s) (ht : W.scopes t) :
    W.twin.scope s ∈ st.chain (W.twin.scope t) ↔ s ∈ su.chain t := h.mem_of_aligned (h.aligned ht) hs

/-! ### Changes that leave what has twins -/

/-- **Twin stores drift apart** in what has no twins, and their scopes get listeners. -/
theorem drift (hst : st.Drifts st') (hsu : su.Drifts su') (hf : st'.Formed .unassigning) (hf' : su'.Formed .unassigning)
    (htrees : S.strict → st'.trees = su'.trees) : Twinned S W st' su' where
  first := hf
  second := hf'
  trees := htrees
  floor := ⟨h.floor.1, Nat.le_trans h.floor.2 hsu.size⟩
  fresh := Nat.le_trans h.fresh hsu.fresh
  alive ht := ⟨(hst.scope (h.alive ht).1).1, (hsu.scope (h.alive ht).2).1⟩
  scopes := h.scopes
  lambdas := h.lambdas
  lambda_lt hl := ⟨Nat.lt_of_lt_of_le (h.lambda_lt hl).1 hst.fresh, Nat.lt_of_lt_of_le (h.lambda_lt hl).2 hsu.fresh⟩
  oldLambda := h.oldLambda
  settled {t} ht ho := by
    have hs := h.settled ht ho
    have hc := (hst.scope (h.alive ht).1).2
    have hd := (hsu.scope (h.alive ht).2).2
    rw [hs.self] at hc
    exact
      { self := hs.self
        kept :=
          { tree := (hd.tree.trans hs.kept.tree).trans hc.tree.symm
            ancestors := (hd.ancestors.trans hs.kept.ancestors).trans hc.ancestors.symm
            definitions := (hd.definitions.trans hs.kept.definitions).trans hc.definitions.symm
            slots := fun hslot => (hd.slots _).trans (hs.kept.slots ((hc.slots _).symm.trans hslot)) }
        ancestors := fun u hu => hs.ancestors u (hc.ancestors ▸ hu)
        slots := fun hslot => hs.slots ((hc.slots _).symm.trans hslot) }
  matched {t} ht ho := by
    have hs := h.matched ht ho
    have hc := (hst.scope (h.alive ht).1).2
    have hd := (hsu.scope (h.alive ht).2).2
    exact
      { tree := (hc.tree.trans hs.tree).trans hd.tree.symm
        ancestors := by rw [hc.ancestors, hd.ancestors]; exact hs.ancestors
        definitions := fun n => by rw [hc.definitions, hd.definitions]; exact hs.definitions n
        slots := fun n => by rw [hc.slots, hd.slots]; exact hs.slots n }
  veiled {b} hb := by
    have hv := h.veiled hb
    have hd := (hsu.scope hv.alive).2
    obtain ⟨u, hu, hW, hslots⟩ := hv.slots
    have hdu := (hsu.scope (h.alive hW).2).2
    exact
      { alive := (hsu.scope hv.alive).1
        definitions := fun n => by rw [hd.definitions]; exact hv.definitions n
        slots := ⟨u, hd.parent? ▸ hu, hW, fun n slot hs =>
          by rw [hdu.slots]; exact hslots n slot ((hd.slots n).symm.trans hs)⟩
        hidden :=
          fun hh => ⟨(hv.hidden hh).1, fun n slot hs => (hv.hidden hh).2 n slot ((hd.slots n).symm.trans hs)⟩ }
  past ht := ⟨(hsu.scope (h.past ht).1).1, (h.past ht).2.trans (hsu.scope (h.past ht).1).2.kept⟩
  gap {g} hg := by
    obtain ⟨hlt, ha, hopen⟩ := h.gap hg
    obtain ⟨ha', hd⟩ := hsu.scope ha
    refine ⟨hlt, ha', fun hnone => ?_⟩
    rw [hd.slots] at hnone
    have ho := hopen hnone
    exact ⟨ho.past, ho.scope, hd.definitions ▸ ho.definition, ho.target,
      ⟨Nat.lt_of_lt_of_le ho.lambda_lt.1 hst.fresh, Nat.lt_of_lt_of_le ho.lambda_lt.2 hsu.fresh⟩, ho.lambda⟩
  site {x} hx := by
    have hs := h.site hx
    have hu : ∀ {u}, x.segment u → (su.scope u).Steady (su'.scope u) := fun hu =>
      (hsu.scope (h.alive (hs.segment hu).1).2).2
    have hscope := (hs.segment hs.here).1
    exact
      { past := hs.past
        gap := hs.gap
        veiled := hs.veiled
        here := hs.here
        first := (hst.scope (h.alive hscope).1).2.definitions ▸ hs.first
        second := (hu hs.here).definitions ▸ hs.second
        segment := fun hseg => by
          rw [(hu hseg).slots, (hu hseg).definitions, (hu hseg).parent?]
          exact hs.segment hseg }
  exact {t n} he ho ht hn := ((hsu.scope (h.past ht).1).2.slots n).trans (h.exact he ho ht hn)

/-! ### More twins -/

/-- **Lambdas that are made now become twins.** -/
theorem addLambda {l l' : Nat} (hl : l < su.fresh) (hl' : l' < st.fresh) (hnew : ¬ W.lambdas l)
    (hnew' : ∀ m, W.lambdas m → W.twin.lambda m ≠ l') (hold : S.OldLambda l → l' = l)
    (hgap : ∀ g, S.gap = some g → (su.scope g.scope).slots.get? g.name = none →
      l' = g.procedure.lambda.id ∨ l = g.number → g.may l l') :
    Twinned S (W.addLambda l l') st su := by
  have hW : W.Le (W.addLambda l l') := Twinning.le_addLambda hnew l'
  have hne : ∀ {m}, W.lambdas m → m ≠ l := fun hm he => hnew (he ▸ hm)
  have htwin : ∀ {m}, W.lambdas m → (W.addLambda l l').twin.lambda m = W.twin.lambda m := fun hm => (hW.lambda hm).2
  refine
    { h with
      lambdas := ?_
      lambda_lt := ?_
      oldLambda := ?_
      settled := fun ht ho => (h.settled ht ho).mono hW ht
      matched := fun ht ho => (h.matched ht ho).mono hW
      veiled :=
        fun hb => ⟨(h.veiled hb).alive, (h.veiled hb).definitions, (h.veiled hb).slots, (h.veiled hb).hidden⟩
      gap := fun {g} hg => ⟨(h.gap hg).1, (h.gap hg).2.1, fun hnone => ?_⟩
      site := fun hx =>
        have hs := h.site hx
        ⟨hs.past, hs.gap, hs.veiled, hs.here, hs.first, hs.second, hs.segment⟩ }
  · rintro m n (hm | rfl) (hn | rfl) he
    · rw [htwin hm, htwin hn] at he
      exact h.lambdas hm hn he
    · rw [htwin hm, Twinning.addLambda_self] at he
      exact absurd he (hnew' m hm)
    · rw [htwin hn, Twinning.addLambda_self] at he
      exact absurd he.symm (hnew' n hn)
    · rfl
  · rintro m (hm | rfl)
    · rw [htwin hm]
      exact h.lambda_lt hm
    · rw [Twinning.addLambda_self]
      exact ⟨hl', hl⟩
  · rintro m (hm | rfl) ho
    · rw [htwin hm]
      exact h.oldLambda hm ho
    · rw [Twinning.addLambda_self, hold ho]
  · have ho := (h.gap hg).2.2 hnone
    refine ⟨ho.past, ho.scope, ho.definition, ho.target, ho.lambda_lt, ?_⟩
    rintro m (hm | rfl) he
    · rw [htwin hm] at he ⊢
      exact ho.lambda hm he
    · rw [Twinning.addLambda_self] at he ⊢
      exact hgap g hg hnone he

/-- **Scopes that are made now become twins.** -/
theorem addScope {s s' : ScopeId} (hs : su.alive s = true) (hs' : st.alive s' = true) (hnew : ¬ W.scopes s)
    (hnew' : ∀ t, W.scopes t → W.twin.scope t ≠ s') (hold : ¬ S.Old s) (hhidden : ¬ S.Hidden s)
    (hmatched : S.Matched W s (st.scope s') (su.scope s)) : Twinned S (W.addScope s s') st su := by
  have hW : W.Le (W.addScope s s') := Twinning.le_addScope hnew s'
  have htwin : ∀ {t}, W.scopes t → (W.addScope s s').twin.scope t = W.twin.scope t := fun ht => (hW.scope ht).2
  refine
    { h with
      alive := ?_
      scopes := ?_
      settled := ?_
      matched := ?_
      veiled := fun {b} hb => ?_
      gap := fun {g} hg => ⟨(h.gap hg).1, (h.gap hg).2.1, fun hnone => ?_⟩
      site := fun {x} hx => ?_ }
  · rintro t (ht | rfl)
    · rw [htwin ht]
      exact h.alive ht
    · rw [Twinning.addScope_self]
      exact ⟨hs', hs⟩
  · rintro t u (ht | rfl) (hu | rfl) he
    · rw [htwin ht, htwin hu] at he
      exact h.scopes ht hu he
    · rw [htwin ht, Twinning.addScope_self] at he
      exact absurd he (hnew' t ht)
    · rw [htwin hu, Twinning.addScope_self] at he
      exact absurd he.symm (hnew' u hu)
    · rfl
  · rintro t (ht | rfl) ho
    · exact (h.settled ht ho).mono hW ht
    · exact absurd ho hold
  · rintro t (ht | rfl) ho
    · rw [htwin ht]
      exact (h.matched ht ho).mono hW
    · rw [Twinning.addScope_self]
      exact hmatched.mono hW
  · have hv := h.veiled hb
    obtain ⟨u, hu, hWu, hslots⟩ := hv.slots
    refine ⟨hv.alive, hv.definitions, ⟨u, hu, .inl hWu, hslots⟩, fun hh => ⟨?_, (hv.hidden hh).2⟩⟩
    rintro (hb' | rfl)
    · exact (hv.hidden hh).1 hb'
    · exact hhidden ⟨hh, hb⟩
  · have ho := (h.gap hg).2.2 hnone
    obtain ⟨t, ht, htt, hread⟩ := ho.target
    refine ⟨ho.past, ⟨.inl ho.scope.1, ?_⟩, ho.definition, ⟨t, .inl ht, ?_, hread⟩, ho.lambda_lt, ho.lambda⟩
    · rw [htwin ho.scope.1, ho.scope.2]
    · rw [htwin ht, htt]
  · have hx' := h.site hx
    refine ⟨hx'.past, hx'.gap, hx'.veiled, hx'.here, ?_, hx'.second, fun hu => ?_⟩
    · rw [htwin (hx'.segment hx'.here).1]
      exact hx'.first
    · obtain ⟨hWu, hrest⟩ := hx'.segment hu
      exact ⟨.inl hWu, hrest⟩

omit h in
/-- **Twin stores in another scene**, where less has to be the same. -/
theorem rescene (h : Twinned S W st su) {S' : Scene} (hpast : S'.past = S.past) (hfollows : S'.follows = S.follows)
    (hveiled : S'.veiled = S.veiled) (hhidden : S'.hidden = S.hidden) (hgap : S'.gap = S.gap) (hsite : S'.site = S.site)
    (hfloor : S'.floor = S.floor) (htrees : S'.strict → st.trees = su.trees)
    (hexact : S'.exact → S.exact) : Twinned S' W st su := by
  obtain ⟨past, floor, follows, exact, strict, veiled, hidden, gap, site, bound⟩ := S
  obtain ⟨past', floor', follows', exact', strict', veiled', hidden', gap', site', bound'⟩ := S'
  dsimp only at *
  subst hpast hfollows hveiled hhidden hgap hsite hfloor
  exact
    { h with
      trees := htrees
      settled := fun ht ho =>
        have hs := h.settled ht ho
        ⟨hs.self, hs.kept, hs.ancestors, hs.slots⟩
      matched := fun ht ho =>
        have hm := h.matched ht ho
        ⟨hm.tree, hm.ancestors, hm.definitions, hm.slots⟩
      veiled := fun hb =>
        have hv := h.veiled hb
        ⟨hv.alive, hv.definitions, hv.slots, hv.hidden⟩
      gap := fun hg => ⟨(h.gap hg).1, (h.gap hg).2.1, fun hnone =>
        have ho := (h.gap hg).2.2 hnone
        ⟨ho.past, ho.scope, ho.definition, ho.target, ho.lambda_lt, ho.lambda⟩⟩
      site := fun hx =>
        have hs := h.site hx
        ⟨hs.past, hs.gap, hs.veiled, hs.here, hs.first, hs.second, hs.segment⟩
      exact := fun he => h.exact (hexact he) }

end Twinned
end Store
end LazyFormula
