import LazyFormula.Proofs.Histories
import LazyFormula.Proofs.Targets
/-!
# Owners of names

A name means what the nearest scope says that has a written value of it or defines it: its owner. Look-ups leave
memoized values in the scopes that they pass, and owners come and go afterwards. As long as no assignment overwrites a
memoized value, each of them has an owner, and it is the written value of the owner if there is one (`Store.Coherent`).
So what was memoized never decides what a name means (`Host.Run.resolution`).
-/
namespace LazyFormula

/-- Whether a scope says what a name means: it has a written value of it or defines it. -/
def Scope.owns (c : Scope) (name : String) : Bool := (c.bound? name).isSome || c.definitions.contains name

namespace Scope

variable {c : Scope} {name : String}

theorem owns_eq_false_iff : c.owns name = false ↔ c.bound? name = none ∧ c.definitions.get? name = none := by
  rw [owns, Bool.or_eq_false_iff, Bindings.contains, Option.isSome_eq_false_iff, Option.isSome_eq_false_iff,
    Option.isNone_iff_eq_none, Option.isNone_iff_eq_none]

theorem owns_of_bound? {v : Value} (h : c.bound? name = some v) : c.owns name = true := by
  rw [owns, h]
  rfl

theorem owns_of_definition {e : Expr} (h : c.definitions.get? name = some e) : c.owns name = true := by
  rw [owns, Bindings.contains, h, Option.isSome_some, Bool.or_true]

end Scope

/-- **The same value**, but for how its procedures hold their scopes. -/
def Value.Agrees (v w : Value) : Prop := v.mapProcedures Procedure.held = w.mapProcedures Procedure.held

theorem Value.agrees_detach (v : Value) (s : ScopeId) : (v.detach s).Agrees v := by
  rw [Agrees, detach, mapProcedures_mapProcedures]
  refine mapProcedures_congr fun p _ => ?_
  rw [Function.comp_apply]
  split <;> rfl

namespace Store

variable {L : Fragment} {st st' : Store} {s t u : ScopeId} {name : String} {v w : Value}

theorem Keeps.agrees_attach (h : st.Keeps L s v) : (v.attach st.alive).Agrees v := by
  rw [h.attach_eq, Value.Agrees, Value.mapProcedures_mapProcedures]
  rfl

/-! ## Owners -/

/-- **The owner of a name**, seen from a scope. -/
def owner? (st : Store) (s : ScopeId) (name : String) : Option ScopeId :=
  (st.chain s).find? fun t => (st.scope t).owns name

theorem owner?_self (h : (st.scope s).owns name = true) : st.owner? s name = some s := List.find?_cons_of_pos h

theorem mem_chain_of_owner? (h : st.owner? s name = some t) : t ∈ st.chain s := List.mem_of_find?_eq_some h

theorem owns_of_owner? (h : st.owner? s name = some t) : (st.scope t).owns name = true :=
  List.find?_some (p := fun t => (st.scope t).owns name) h

/-- Scopes that own nothing of a name are passed on the way to its owner. -/
theorem owner?_of_way (h : st.Formed L) (hs : st.alive s = true) {way above : List ScopeId}
    (hchain : st.chain s = way ++ u :: above) (hway : ∀ t ∈ way, (st.scope t).owns name = false) :
    st.owner? s name = st.owner? u name := by
  have hnone : way.find? (fun t => (st.scope t).owns name) = none :=
    List.find?_eq_none.2 fun t ht => by rw [hway t ht]; exact Bool.false_ne_true
  rw [owner?, hchain, List.find?_append, hnone, Option.none_or, owner?, h.chain_of_split hs hchain]

/-- **A value that its owner backs**: the name has an owner, and a written value of the owner is this one. -/
def Backed (st : Store) (s : ScopeId) (name : String) (v : Value) : Prop :=
  ∃ u, st.owner? s name = some u ∧ ∀ w, (st.scope u).bound? name = some w → v.Agrees w

/-- A scope that dropped nothing sees the same owner. -/
theorem Precedes.owner? (hp : st.Precedes st') (ht : st.alive t = true) (ht' : st'.alive t = true)
    (hg : (st'.scope t).generation = (st.scope t).generation) (name : String) :
    st'.owner? t name = st.owner? t name := by
  rw [Store.owner?, hp.chain ht ht']
  refine List.find?_congr fun u hu => ?_
  obtain ⟨hd, hb⟩ := hp.kept ht ht' hg hu
  rw [Scope.owns, hb, hd, Scope.owns]

theorem Precedes.backed (hp : st.Precedes st') (ht : st.alive t = true) (ht' : st'.alive t = true)
    (hg : (st'.scope t).generation = (st.scope t).generation) (h : st.Backed t name v) : st'.Backed t name v := by
  obtain ⟨u, hu, hw⟩ := h
  refine ⟨u, (hp.owner? ht ht' hg name).trans hu, fun w hb => hw w ?_⟩
  rwa [← (hp.kept ht ht' hg (mem_chain_of_owner? hu)).2 name]

/-! ## Coherent stores -/

/-- **Every memoized value is backed.** -/
def Coherent (st : Store) : Prop :=
  ∀ ⦃t : ScopeId⦄ ⦃name : String⦄ ⦃slot : Slot⦄, st.alive t = true →
    (st.scope t).slots.get? name = some slot →
    slot.kind = .derived → st.Backed t name slot.value

theorem coherent_empty : (empty : Store).Coherent := fun _ _ _ ht => nomatch lt_size_of_alive ht

/-- **What a look-up finds is backed.** -/
theorem Coherent.found (hc : st.Coherent) (h : st.Formed L) : ∀ {scopes : List ScopeId} {s : ScopeId},
    st.alive s = true → scopes = st.chain s → st.Finds name v scopes → st.Backed s name v := by
  intro scopes s hs hchain hf
  induction hf generalizing s with
  | @value t up slot hslot hv =>
    obtain ⟨rfl, -⟩ := List.cons.inj hchain
    have hagrees := (h.slots (scope?_eq_of_alive hs) hslot).agrees_attach
    rw [← hv] at hagrees
    rcases hk : slot.kind with _ | _
    · have hb := Scope.bound?_of_slot hslot hk
      refine ⟨t, owner?_self (Scope.owns_of_bound? hb), fun w hw => ?_⟩
      cases hb.symm.trans hw
      exact hagrees
    · obtain ⟨u, hu, hw⟩ := hc hs hslot hk
      exact ⟨u, hu, fun w hb => hagrees.trans (hw w hb)⟩
  | @definition t up e hslot hdef =>
    obtain ⟨rfl, -⟩ := List.cons.inj hchain
    refine ⟨t, owner?_self (Scope.owns_of_definition hdef), fun w hw => ?_⟩
    rw [Scope.bound?_eq_none hslot] at hw
    cases hw
  | @up t up hslot hdef hf ih =>
    obtain ⟨rfl, hup⟩ := List.cons.inj hchain
    cases up with
    | nil => nomatch hf
    | cons p rest =>
      have hsplit : st.chain t = [t] ++ p :: rest := hchain.symm
      have hpa := (h.alive_of_mem_chain hs (hsplit ▸ List.mem_append_right _ List.mem_cons_self)).1
      obtain ⟨u, hu, hw⟩ := ih hpa (h.chain_of_split hs hsplit).symm
      refine ⟨u, (owner?_of_way h hs hsplit fun t' ht' => ?_).trans hu, hw⟩
      rw [List.mem_singleton.1 ht']
      exact Scope.owns_eq_false_iff.2 ⟨Scope.bound?_eq_none hslot, hdef⟩

/-- Changes after which every memoized value was there before, in a scope that dropped nothing. -/
theorem Coherent.of_precedes (hc : st.Coherent) (hp : st.Precedes st')
    (hs : ∀ {t c' name slot}, st'.scope? t = some c' → c'.slots.get? name = some slot → slot.kind = .derived →
      ∃ c, st.scope? t = some c ∧ c'.generation = c.generation ∧ c.slots.get? name = some slot) :
      st'.Coherent := by
  intro t name slot ht' hslot hk
  have hc' := scope?_eq_of_alive ht'
  obtain ⟨c, hcc, hg, hold⟩ := hs hc' hslot hk
  rw [← scope_of_scope? hcc] at hg hold
  exact hp.backed (alive_of_scope? hcc) ht' hg (hc (alive_of_scope? hcc) hold hk)

theorem Coherent.of_quiet (hc : st.Coherent) (hq : st.Quiet st') (hp : st.Precedes st') : st'.Coherent := by
  refine hc.of_precedes hp fun {t c' name slot} hc' hslot hk => ?_
  by_cases ht : t < st.scopes.size
  · obtain ⟨c, l, hcc, rfl⟩ := hq.scope ht hc'
    exact ⟨c, hcc, rfl, hslot⟩
  · rw [hq.newborn ht hc' hslot] at hk
    cases hk

end Store

/-- A write that overwrites no memoized value leaves none where it drops values. -/
theorem Write.Effect.not_derived {w : Write} {s t : ScopeId} {st st' : Store} (he : w.Effect s st st')
    (hw : ∀ n, .assigning s n .derived ∉ w.events s) (ht : st'.alive t = true) (hs : s ∈ st.chain t)
    {name : String}
    {slot : Slot} (hslot : (st'.scope t).slots.get? name = some slot) : slot.kind ≠ .derived := by
  have hremains : ∀ {old : Option Slot}, w.remains old = some slot → slot.kind ≠ .derived := by
    intro old h hk
    cases w with
    | define => cases h
    | update | assign =>
      have hb := (Option.filter_eq_some_iff.1 h).2
      rw [hk] at hb
      cases hb
  by_cases hts : t = s
  · subst hts
    rw [(he.here ht name).1, Option.or_eq_some_iff] at hslot
    rcases hslot with hslot | ⟨-, hslot⟩
    · cases w with
      | define => cases hslot
      | update values =>
        obtain ⟨v, -, rfl⟩ := Option.map_eq_some_iff.1 hslot
        exact nofun
      | assign n v kind =>
        rintro hk
        rw [slot?] at hslot
        split at hslot
        · cases hslot
          cases hk
          exact hw n (List.mem_cons_of_mem _ List.mem_cons_self)
        · cases hslot
    · exact hremains hslot
  · rw [(he.below ht hs hts).1] at hslot
    exact hremains hslot

namespace History

variable {g g' : History} {events : List Event} {st : Store}

/-- All stores are coherent. -/
def Coherent (g : History) : Prop := ∀ st ∈ g.stores, st.Coherent

theorem Change.coherent (hc : Change g events st) (hg : g.Sound) (h : g.Coherent)
    (hd : ∀ t n, .assigning t n .derived ∉ events) : st.Coherent := by
  have hnow := h g.now List.mem_cons_self
  have hp := (hc.formed hg).2
  cases hc with
  | aside _ hsize hs => exact hnow.of_quiet (Store.quiet_of_scope? hsize hs) hp
  | orphan maxDepth => exact hnow.of_quiet (Store.quiet_addOrphan _ maxDepth) hp
  | child hpa hv => exact hnow.of_quiet (Store.quiet_addChild hpa _) hp
  | fade hf => exact hnow.of_quiet hf.quiet hp
  | @memoize began s n v hbegan hs hslot₀ hfound halive hgen hv =>
    intro t name slot ht hslot hk
    have ht' : g.now.alive t = true := (Store.alive_put ..).symm.trans ht
    refine hp.backed ht' ht (Store.generation_put ..) ?_
    rw [Store.slot_put _ ht'] at hslot
    split at hslot
    · rename_i hput
      obtain ⟨rfl, rfl⟩ := hput
      cases hslot
      -- the scope dropped nothing since the look-up began, so it still sees the owner that the look-up found
      have hbacked := (h began hbegan).found (hg.formed hbegan) hs rfl hfound
      obtain ⟨u, hu, hw⟩ := (hg.precedes hbegan).backed hs halive hgen hbacked
      exact ⟨u, hu, fun w hb => (v.agrees_detach t).trans (hw w hb)⟩
    · exact hnow ht' hslot hk
  | @write s w hs hv =>
    have he := Write.effect_run hg.now hs w
    refine hnow.of_precedes hp fun {t c' name slot} hc' hslot hk => ?_
    have ht := Store.alive_of_scope? hc'
    rw [← Store.scope_of_scope? hc'] at hslot
    have hnot : s ∉ g.now.chain t := fun hm => he.not_derived (hd s) ht hm hslot hk
    obtain ⟨c, hcc⟩ := Store.alive_iff.1 (he.alive ht)
    obtain ⟨c'', hc'', -, -, hgen⟩ := Write.scope?_run hg.now hs w hcc
    cases hc''.symm.trans hc'
    rw [(he.elsewhere ht hnot).1, Store.scope_of_scope? hcc] at hslot
    exact ⟨c, hcc, hgen hnot, hslot⟩

/-- **Histories stay coherent**, unless a memoized value is overwritten. -/
theorem Path.coherent (hp : Path g events g') (hg : g.Sound) (h : g.Coherent)
    (hd : ∀ t n, .assigning t n .derived ∉ events) : g'.Coherent := by
  induction hp with
  | refl => exact h
  | step hp hc ih =>
    have hold := ih fun t n he => hd t n (List.mem_append_right _ he)
    intro st hst
    rcases List.mem_cons.1 hst with rfl | hst
    · exact hc.coherent (hp.sound hg) hold fun t n he => hd t n (List.mem_append_left _ he)
    · exact hold st hst

end History

/-! ## What names mean -/

namespace Store

variable {L : Fragment} {st : Store} {s t : ScopeId} {name : String} {w : Value}

/-- Without an owner there is not even a memoized value. -/
theorem Coherent.slots_of_no_owner (hc : st.Coherent) (h : st.Formed L) (hs : st.alive s = true)
    (ho : st.owner? s name = none) (ht : t ∈ st.chain s) :
    (st.scope t).slots.get? name = none ∧ (st.scope t).definitions.get? name = none := by
  have hno : ∀ u ∈ st.chain s, (st.scope u).owns name = false := fun u hu => by
    simpa using List.find?_eq_none.1 ho u hu
  obtain ⟨hb, hdef⟩ := Scope.owns_eq_false_iff.1 (hno t ht)
  refine ⟨?_, hdef⟩
  cases hslot : (st.scope t).slots.get? name with
  | none => rfl
  | some slot =>
    obtain ⟨u, hu, -⟩ := hc (h.alive_of_mem_chain hs ht).1 hslot (Scope.kind_eq_derived hslot hb)
    have hus := h.mem_chain_trans hs ht (mem_chain_of_owner? hu)
    exact absurd (owns_of_owner? hu) (Bool.eq_false_iff.1 (hno u hus))

theorem lookupAlong_of_unknown (ev : Evaluator) (name : String) : ∀ {scopes : List ScopeId},
    (∀ t ∈ scopes, (st.scope t).slots.get? name = none ∧ (st.scope t).definitions.get? name = none) →
      lookupAlong ev name scopes st = (.error (.unresolved name), st)
  | [], _ => rfl
  | t :: up, h => by
    obtain ⟨hslot, hdef⟩ := h t List.mem_cons_self
    rw [lookupAlong, get_apply]
    simp only [hslot, hdef]
    rw [bind_apply, lookupAlong_of_unknown ev name fun u hu => h u (List.mem_cons_of_mem _ hu)]

/-- **A name is what its owner has written for it.** -/
theorem Coherent.lookup_of_owner (hc : st.Coherent) (h : st.Formed L) (hs : st.alive s = true)
    (ho : st.owner? s name = some t) (hw : (st.scope t).bound? name = some w) :
    (Eval.lookup s name st).1 = .ok (w.mapProcedures Procedure.held) := by
  -- the first scope that knows anything of the name
  obtain ⟨u, hfirst⟩ : ∃ u, (st.chain s).find? (fun u => (st.scope u).slots.contains name ||
      (st.scope u).definitions.contains name) = some u := by
    refine Option.isSome_iff_exists.1 (List.find?_isSome.2 ⟨t, mem_chain_of_owner? ho, ?_⟩)
    rw [Bindings.contains, Scope.bound?_eq_some.1 hw]
    rfl
  obtain ⟨hknows, way, above, hchain, hway⟩ := List.find?_eq_some_iff_append.1 hfirst
  have hunknown : ∀ v ∈ way, (st.scope v).slots.get? name = none ∧ (st.scope v).definitions.get? name = none := by
    intro v hv
    simpa [Bindings.contains] using hway v hv
  have hua := (h.alive_of_mem_chain hs (hchain ▸ List.mem_append_right _ List.mem_cons_self)).1
  -- it sees the same owner
  have hou : st.owner? u name = some t := by
    refine (owner?_of_way h hs hchain fun v hv => ?_).symm.trans ho
    exact Scope.owns_eq_false_iff.2 ⟨Scope.bound?_eq_none (hunknown v hv).1, (hunknown v hv).2⟩
  have hup := h.chain_of_split hs hchain
  have hfound : ∃ slot, (st.scope u).slots.get? name = some slot ∧ slot.value.Agrees w := by
    cases hslot : (st.scope u).slots.get? name with
    | none =>
      -- a definition without any value makes an owner that has no written value
      rw [Bindings.contains, hslot, Option.isSome_none, Bool.false_or] at hknows
      obtain ⟨e, he⟩ := Option.isSome_iff_exists.1 hknows
      cases hou.symm.trans (owner?_self (Scope.owns_of_definition he))
      rw [Scope.bound?_eq_none hslot] at hw
      cases hw
    | some slot =>
      refine ⟨slot, rfl, ?_⟩
      cases hk : slot.kind with
      | bound =>
        have hb := Scope.bound?_of_slot hslot hk
        cases hou.symm.trans (owner?_self (Scope.owns_of_bound? hb))
        cases hb.symm.trans hw
        rfl
      | derived =>
        obtain ⟨t', ht', hagrees⟩ := hc hua hslot hk
        cases hou.symm.trans ht'
        exact hagrees w hw
  obtain ⟨slot, hslot, hagrees⟩ := hfound
  rw [Eval.lookup_apply, hchain]
  refine lookupAlong_append _ name hunknown ?_
  rw [← hup, ← Eval.lookup_apply, lookup_of_slot hslot, (h.slots (scope?_eq_of_alive hua) hslot).attach_eq, hagrees]

end Store

namespace Host

variable {L : Fragment} {h h' : Host} {events : List Event}

/-- **Names mean what their owners say.** After any run of a host in which no memoized value was overwritten: a name
without an owner is not known, has no value in any scope on the way, and looking it up fails and changes nothing; a name
with an owner is known, and it is what the owner has written for it, whatever was memoized on the way. -/
theorem Run.resolution (hr : Run .full ⟨.empty, [], []⟩ events h) (hd : ∀ t n, .assigning t n .derived ∉ events)
    {E : ScopeId} (hE : h.store.alive E = true) (name : String) :
    (h.store.owner? E name = none →
      h.store.contains E name = false ∧ (∀ t ∈ h.store.chain E, (h.store.scope t).slots.get? name = none) ∧
        Eval.lookup E name h.store = (.error (.unresolved name), h.store)) ∧
    ∀ T, h.store.owner? E name = some T →
      h.store.contains E name = true ∧
        ∀ w, (h.store.scope T).bound? name = some w →
          (Eval.lookup E name h.store).1 = .ok (w.mapProcedures Procedure.held) := by
  have hempty : Formed .full ⟨.empty, [], []⟩ := Reachable.init.formed
  have hf := (hr.formed hempty).store
  obtain ⟨events', past', hp, hsub⟩ := hr.path hempty []
  have hstart : History.Coherent ⟨[], .empty⟩ := by
    rintro st hst
    rw [List.mem_singleton.1 hst]
    exact Store.coherent_empty
  have hc : h.store.Coherent := by
    refine hp.coherent (History.sound_of_formed hempty.store) hstart (fun t n he => hd t n (hsub he)) _ ?_
    exact List.mem_cons_self
  refine ⟨fun ho => ?_, fun T ho => ⟨?_, fun w hw => hc.lookup_of_owner hf hE ho hw⟩⟩
  · have hnone := fun t ht => hc.slots_of_no_owner hf hE ho (t := t) ht
    refine ⟨?_, fun t ht => (hnone t ht).1, ?_⟩
    · rw [Store.contains, List.any_eq_false]
      intro t ht
      simp [Bindings.contains, hnone t ht]
    · rw [Eval.lookup_apply]
      exact Store.lookupAlong_of_unknown _ name hnone
  · rw [Store.contains, List.any_eq_true]
    refine ⟨T, Store.mem_chain_of_owner? ho, ?_⟩
    have howns := Store.owns_of_owner? ho
    rw [Scope.owns, Bool.or_eq_true] at howns
    rw [Bool.or_eq_true]
    refine howns.imp_left fun hb => ?_
    obtain ⟨w, hw⟩ := Option.isSome_iff_exists.1 hb
    rw [Bindings.contains, Scope.bound?_eq_some.1 hw]
    rfl

/-- A host whose log was never taken away: it has all that was logged. -/
def Logged (L : Fragment) (h : Host) : Prop := Run L ⟨.empty, [], []⟩ h.store.log h

theorem logged_init : Logged L ⟨.empty, [], []⟩ := .refl

theorem Logged.step (hl : Logged L h) (hs : Step L h h') (new : List Event) (hlog : h'.store.log = new ++ h.store.log) :
    Logged L h' := by
  rw [Logged, hlog]
  exact Run.step hl hs hlog

theorem Logged.child (hl : Logged L h) {s : ScopeId} (hs : s ∈ h.scopes) :
    Logged L ⟨(h.store.addChild s []).2, h.store.scopes.size :: h.scopes, h.values⟩ :=
  hl.step (.child hs (List.forall_mem_nil _)) [] rfl

theorem Logged.update (hl : Logged L h) {s : ScopeId} {values : List (String × Value)} (hs : s ∈ h.scopes)
    (hv : ∀ x ∈ values, h.Knows x.2) : Logged L { h with store := h.store.update s values } :=
  hl.step (.update hs hv) _ (Store.log_write (.update values) s h.store)

/-- Four scopes one below the other, with a counter in the highest. -/
def stack : Store :=
  let root := (Store.empty.addOrphan 10).2.update 0 [("counter", .int 0)]
  (((root.addChild 0 []).2.addChild 1 []).2.addChild 2 []).2

theorem logged_stack : Logged L ⟨stack, [3, 2, 1, 0], []⟩ := by
  have hroot : Logged L ⟨(Store.empty.addOrphan 10).2, [0], []⟩ := logged_init.step (.root 10 true) [] rfl
  have hcounter := hroot.update (s := 0) (List.mem_singleton_self 0) (knows_int _ "counter" 0)
  exact ((hcounter.child (s := 0) (by decide)).child (s := 1) (by decide)).child (s := 2) (by decide)

/-- The lowest scope of a stack was asked for the counter; then a counter was bound in the middle and counted up from
below. -/
def layered : Store :=
  let middle := (Eval.lookup 3 "counter" stack).2.update 2 [("counter", .int 5)]
  (Write.assign "counter" (.int 6) .bound).run 2 middle

theorem logged_layered : Logged .full ⟨layered, [3, 2, 1, 0], [.int 0]⟩ := by
  have hasked : Logged .full ⟨(Eval.lookup 3 "counter" stack).2, [3, 2, 1, 0], [.int 0]⟩ :=
    logged_stack.step (.lookup (s := 3) "counter" (by decide)) [_] rfl
  have hmiddle := hasked.update (s := 2) (by decide) (knows_int _ "counter" 5)
  have hassign : ((Eval.lookup 3 "counter" stack).2.update 2 [("counter", .int 5)]).assign? 3 "counter" (.int 6) =
    some layered := rfl
  exact hmiddle.step (.assign (by decide) trivial (knows_int _ "counter" 6 _ List.mem_cons_self) hassign) [_, _] rfl

/-- The counter in the middle hides the one of the root, whose copy further up stays as it is. -/
theorem resolution_of_layered :
    layered.owner? 3 "counter" = some 2 ∧ (Eval.lookup 3 "counter" layered).1 = .ok (.int 6) ∧
      layered.owner? 1 "counter" = some 0 ∧ (Eval.lookup 1 "counter" layered).1 = .ok (.int 0) ∧
      Eval.lookup 3 "total" layered = (.error (.unresolved "total"), layered) := by
  have hd : ∀ t n, Event.assigning t n .derived ∉ layered.log := by
    intro t n hm
    have hlog : layered.log = [.invalidation 2 .derived ["counter"], .assigning 2 "counter" .bound,
      .invalidation 2 .derived ["counter"], .cacheHit 0 "counter", .invalidation 0 .derived ["counter"]] := rfl
    rw [hlog] at hm
    simp at hm
  have hlow : layered.owner? 3 "counter" = some 2 := rfl
  have hhigh : layered.owner? 1 "counter" = some 0 := rfl
  have hcounter := (Run.resolution logged_layered hd (E := 3) rfl "counter").2 2 hlow
  have hcopy := (Run.resolution logged_layered hd (E := 1) rfl "counter").2 0 hhigh
  have htotal := (Run.resolution logged_layered hd (E := 3) rfl "total").1 rfl
  exact ⟨hlow, hcounter.2 _ rfl, hhigh, hcopy.2 _ rfl, htotal.2.2⟩

end Host
end LazyFormula
