import LazyFormula.Proofs.Hosts
/-!
# Weak captures never leak

A procedure is held weakly in the scope that it closes over and nowhere else. So what is read from a scope is what was
written there, and no procedure outlives its scope (`Host.Reachable.weak_captures`).
-/
namespace LazyFormula

variable {L : Fragment}

/-- A procedure that holds its scope. -/
def Procedure.held (p : Procedure) : Procedure := { p with hold := .strong }

namespace Store

variable {st : Store} {s : ScopeId} {name : String} {v : Value}

theorem Keeps.attach_eq (h : st.Keeps L s v) : v.attach st.alive = v.mapProcedures Procedure.held := by
  refine Value.mapProcedures_congr fun p hp => ?_
  obtain ⟨-, ha, -⟩ := h p hp
  rcases p with ⟨l, t, hold⟩
  cases hold with
  | strong => rfl
  | weak => simp [ha, Procedure.held]

/-- A scope that has a value answers with it. -/
theorem lookup_of_slot {slot : Slot} (h : (st.scope s).slots.get? name = some slot) :
    Eval.lookup s name st = (.ok (slot.value.attach st.alive), st.record (.cacheHit s name)) := by
  rw [Eval.lookup_apply, chain, lookupAlong, get_apply]
  simp only [h]
  rfl

/-- **What was put into a scope is read there.** -/
theorem Supports.lookup_put (hv : st.Supports L v) (hs : st.alive s = true) (name : String) (kind : SlotKind) :
    (Eval.lookup s name (st.put s name v kind)).1 = .ok v := by
  have hslot : ((st.put s name v kind).scope s).slots.get? name = some ⟨v.detach s, kind⟩ :=
    (slot_put st hs ..).trans (if_pos ⟨rfl, rfl⟩)
  rw [lookup_of_slot hslot]
  have ha : (st.put s name v kind).alive = st.alive := funext (alive_put st s name v kind)
  rw [ha, hv.attach_detach]

/-- A new scope is read what it was made with. -/
theorem lookup_addChild {p : ScopeId} (hp : st.alive p = true) {values : List (String × Value)}
    (hv : ∀ x ∈ values, st.Supports L x.2) (hn : values.reverse.lookup name = some v) :
    (Eval.lookup st.scopes.size name (st.addChild p values).2).1 = .ok v := by
  have hslot : ((st.addChild p values).2.scope st.scopes.size).slots.get? name = some ⟨v, .bound⟩ := by
    rw [scope, scope?_addChild hp, if_pos rfl, Option.getD_some, get?_newborn, hn]
    rfl
  have hmem : (name, v) ∈ values := mem_of_lookup_reverse hn
  rw [lookup_of_slot hslot, Value.attach]
  refine congrArg Except.ok (Value.mapProcedures_eq_self fun q hq => ?_)
  simp [(hv _ hmem q hq).2.2]

/-- A scope is read what was written last. -/
theorem lookup_update (hs : st.alive s = true) {values : List (String × Value)}
    (hv : ∀ x ∈ values, st.Supports L x.2) (hn : values.reverse.lookup name = some v) :
    (Eval.lookup s name (st.update s values)).1 = .ok v := by
  have hmem : (name, v) ∈ values := mem_of_lookup_reverse hn
  obtain ⟨c, hc⟩ := alive_iff.1 ((alive_invalidate st s .derived (values.map Prod.fst) s).trans hs)
  have hslot : ((st.update s values).scope s).slots.get? name = some ⟨v.detach s, .bound⟩ := by
    rw [scope, update, scope?_puts, if_pos rfl, hc]
    show (Bindings.insertAll _ _).get? name = _
    rw [Bindings.get?_insertAll_map _ fun v : Value => Slot.mk (v.detach s) .bound, hn]
    rfl
  have ha : (st.update s values).alive = st.alive := funext fun t => alive_update st s t values
  rw [lookup_of_slot hslot, ha, (hv _ hmem).attach_detach]

/-- The scope that an assignment wrote to is read what was assigned. -/
theorem lookup_assign? {st' : Store} (h : st.Formed L) (hs : st.alive s = true) (hv : st.Supports L v)
    (ha : st.assign? s name v = some st') : ∃ t ∈ st.chain s, (Eval.lookup t name st').1 = .ok v := by
  obtain ⟨⟨t, slot⟩, hfound, rfl⟩ := Option.map_eq_some_iff.1 ha
  obtain ⟨below, above, hchain, -⟩ := assignable?_eq_some hfound
  have ht : t ∈ st.chain s := hchain ▸ List.mem_append_right _ List.mem_cons_self
  refine ⟨t, ht, ?_⟩
  have hv' : (st.record (.assigning t name slot.kind)).Supports L v := hv
  exact (supports_invalidate hv' t .derived [name]).lookup_put
    ((alive_invalidate ..).trans (h.alive_of_mem_chain hs ht).1) name slot.kind

end Store

namespace Host

variable {h : Host}

/-- What a computation that yields does not fail for. -/
theorem ne_scopeGone {α : Type} {own : ScopeId → Prop} {st : Store} {x : Eval α} {P : α → Store → Prop}
    (hx : Eval.Yields (Store.Moves L own) st x P) : (x st).1 ≠ .error .scopeGone := by
  intro hr
  have h := hx.2
  rw [hr] at h
  exact h rfl

/-- **Weak captures never leak.** After whatever a host did, and at every point of an evaluation that starts there, a
procedure is held weakly exactly in the slots of the very scope that it closes over, at any depth of lists; what is
written to a scope is what is read there, and what is read has the procedures of the slot, which hold their scopes; and
nothing ever fails because a procedure outlived its scope. -/
theorem Reachable.weak_captures (hr : Reachable .full h) {own : ScopeId → Prop} {st : Store}
    (hm : Store.Moves .full own h.store st) :
    -- a weak capture is in a slot of its scope, and there is no other capture of a scope in its slots
    (∀ s c name slot, st.scope? s = some c → c.slots.get? name = some slot →
      ∀ p ∈ slot.value.procedures, (p.hold = .weak → p.scope = s) ∧ (p.hold = .strong → p.scope ≠ s)) ∧
    (∀ v, h.Knows v → st.Supports .full v ∧ ∀ p ∈ v.procedures, p.hold = .strong) ∧
    -- reading a slot
    (∀ s c name slot, st.scope? s = some c → c.slots.get? name = some slot →
      (Eval.lookup s name st).1 = .ok (slot.value.mapProcedures Procedure.held)) ∧
    -- reading what was written
    (∀ s name v, st.alive s = true → st.Supports .full v →
      (∀ kind, (Eval.lookup s name (st.put s name v kind)).1 = .ok v) ∧
      ∀ st', st.assign? s name v = some st' → ∃ t ∈ st.chain s, (Eval.lookup t name st').1 = .ok v) ∧
    (∀ s values name v, st.alive s = true → (∀ x ∈ values, st.Supports .full x.2) →
      values.reverse.lookup name = some v →
      (Eval.lookup s name (st.update s values)).1 = .ok v ∧
      (Eval.lookup (st.addChild s values).1 name (st.addChild s values).2).1 = .ok v) ∧
    -- no procedure outlives its scope
    (∀ s, st.alive s = true → (∀ e, (Eval.evaluate e s st).1 ≠ .error .scopeGone) ∧
      (∀ e, (Eval.evaluateIn e s st).1 ≠ .error .scopeGone) ∧
      ∀ name, (Eval.lookup s name st).1 ≠ .error .scopeGone) ∧
    (∀ f args, st.Supports .full f → (∀ v ∈ args, st.Supports .full v) →
      (Eval.call f args st).1 ≠ .error .scopeGone) := by
  have hst := hm.formed hr.formed.store
  have hready : st.Ready .full fun _ => True := ⟨hst, fun _ => trivial⟩
  refine ⟨?_, ?_, ?_, ?_, ?_, ?_, ?_⟩
  · intro s c name slot hc hslot p hp
    obtain ⟨-, -, hiff⟩ := hst.slots hc hslot p hp
    refine ⟨hiff.1, fun hstrong hs => ?_⟩
    rw [hiff.2 hs] at hstrong
    cases hstrong
  · intro v hv
    have := hm.supports (hr.formed.knows hv)
    exact ⟨this, fun p hp => (this p hp).2.2⟩
  · intro s c name slot hc hslot
    rw [← (hst.slots hc hslot).attach_eq]
    rw [← Store.scope_of_scope? hc] at hslot
    rw [Store.lookup_of_slot hslot]
  · intro s name v hs hv
    exact ⟨hv.lookup_put hs name, fun st' ha => Store.lookup_assign? hst hs hv ha⟩
  · intro s values name v hs hv hn
    exact ⟨Store.lookup_update hs hv hn, Store.lookup_addChild hs hv hn⟩
  · intro s hs
    exact ⟨fun e => ne_scopeGone (Eval.evaluate_yields hready trivial hs),
      fun e => ne_scopeGone (Eval.evaluateIn_yields hready trivial hs trivial),
      fun name => ne_scopeGone (Eval.lookup_yields hready hs name)⟩
  · intro f args hf ha
    exact ne_scopeGone (Eval.call_yields hready hf ha)

/-- A host of one root without builtins, after it evaluated an expression there. -/
def evaluated (e : Expr) : Host :=
  let root : Host := ⟨(Store.empty.addOrphan 10).2, [0], []⟩
  root.after (Eval.evaluateIn e 0 root.store)

theorem reachable_evaluated (e : Expr) : Reachable .full (evaluated e) :=
  .step (.step .init (.root 10 true)) (.evaluateIn (List.mem_singleton_self 0) trivial)

/-- A scope that defines a procedure holds it weakly and gives it out held strongly. -/
theorem captures_of_definition :
    let h := evaluated (.list [.symbol "define", .symbol "f", .list [.symbol "lambda", .list [], .number (.int 1)]])
    (h.store.scope 0).slots.get? "f" = some ⟨.procedure ⟨⟨0, [], .number (.int 1)⟩, 0, .weak⟩, .bound⟩ ∧
      (Eval.lookup 0 "f" h.store).1 = .ok (.procedure ⟨⟨0, [], .number (.int 1)⟩, 0, .strong⟩) := by
  intro h
  have hm : Store.Moves .full (fun _ => True) h.store h.store := .refl _
  have hread := (Reachable.weak_captures (reachable_evaluated _ : Reachable .full h) hm).2.2.1
  have hslot : (h.store.scope 0).slots.get? "f" =
      some ⟨.procedure ⟨⟨0, [], .number (.int 1)⟩, 0, .weak⟩, .bound⟩ := rfl
  exact ⟨hslot, hread 0 _ "f" _ (Store.scope?_eq_of_alive rfl) hslot⟩

end Host
end LazyFormula
