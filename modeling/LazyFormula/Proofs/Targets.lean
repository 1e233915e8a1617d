import LazyFormula.Proofs.Assignment
import LazyFormula.Proofs.Bounds
/-!
# The target of an assignment

An assignment looks for the nearest scope that has a value of the name and does not define it. Without one it fails and
nothing changes; with one it overwrites that value, which stays written or memoized, and the new value is read from the
scope that assigned and from everything below it that has nothing of its own in the way
(`Host.Reachable.assignment_reads_back`).
-/
namespace LazyFormula

/-- Whether an assignment may overwrite the value that a scope has of a name: a scope that defines the name is passed
over. -/
def Scope.assignable (c : Scope) (name : String) : Bool := c.slots.contains name && !c.definitions.contains name

namespace Scope

variable {c : Scope} {name : String}

theorem assignable_iff :
    c.assignable name = true ↔ (∃ slot, c.slots.get? name = some slot) ∧ c.definitions.get? name = none := by
  rw [assignable, Bool.and_eq_true, Bool.not_eq_true', Bindings.contains, Bindings.contains, Option.isSome_iff_exists,
    Option.isSome_eq_false_iff, Option.isNone_iff_eq_none]

end Scope

namespace Store

variable {L : Fragment} {st : Store} {s t : ScopeId} {name : String} {v : Value}

/-- **The scope that an assignment of a name writes to**: the nearest one that it may overwrite. -/
def target? (st : Store) (s : ScopeId) (name : String) : Option ScopeId :=
  (st.chain s).find? fun t => (st.scope t).assignable name

theorem assignable?_eq (st : Store) (name : String) : ∀ scopes : List ScopeId,
    st.assignable? name scopes = (scopes.find? fun t => (st.scope t).assignable name).bind fun t =>
      ((st.scope t).slots.get? name).map (t, ·)
  | [] => rfl
  | s :: up => by
    rw [assignable?, List.find?_cons, Scope.assignable, Bindings.contains, Bindings.contains, assignable?_eq st name up]
    cases hslot : (st.scope s).slots.get? name with
    | none => rfl
    | some slot =>
      cases (st.scope s).definitions.get? name with
      | none => simp [hslot]
      | some e => rfl

/-- **An assignment fails exactly without a target.** -/
theorem assign?_eq_none_iff : st.assign? s name v = none ↔ st.target? s name = none := by
  rw [assign?, Option.map_eq_none_iff, assignable?_eq, target?]
  cases h : (st.chain s).find? fun t => (st.scope t).assignable name with
  | none => simp
  | some t =>
    have ht : (st.scope t).assignable name = true := List.find?_some (p := fun t => (st.scope t).assignable name) h
    obtain ⟨⟨slot, hslot⟩, -⟩ := Scope.assignable_iff.1 ht
    simp [hslot]

/-- **An assignment writes to its target**, where the value stays written or memoized as it was. -/
theorem assign?_of_target {slot : Slot} (ht : st.target? s name = some t)
    (hslot : (st.scope t).slots.get? name = some slot) :
    st.assign? s name v = some ((st.record (.assigning t name slot.kind)).written t name v slot.kind) := by
  rw [target?] at ht
  rw [assign?, assignable?_eq, ht]
  simp only [Option.bind_some, hslot, Option.map_some, written]

/-- Before its target an assignment passes scopes that have no value of the name, or define it. -/
theorem slot_of_before_target {below above : List ScopeId} (ht : st.target? s name = some t)
    (hchain : st.chain s = below ++ t :: above) (hnot : t ∉ below) {u : ScopeId} (hu : u ∈ below)
    (hdef : (st.scope u).definitions.get? name = none) : (st.scope u).slots.get? name = none := by
  rw [target?, List.find?_eq_some_iff_append] at ht
  obtain ⟨-, front, back, hfront, hpass⟩ := ht
  -- both splits are at the first place of the target
  have hmem : u ∈ front := by
    rcases List.append_eq_append_iff.1 (hchain.symm.trans hfront) with ⟨mid, rfl, -⟩ | ⟨mid, rfl, hm⟩
    · exact List.mem_append_left _ hu
    · cases mid with
      | nil => simpa using hu
      | cons w mid =>
        refine absurd ?_ hnot
        rw [(List.cons.inj hm).1]
        simp
  have hno := hpass u hmem
  cases hslot : (st.scope u).slots.get? name with
  | none => rfl
  | some slot =>
    rw [Scope.assignable_iff.2 ⟨⟨slot, hslot⟩, hdef⟩] at hno
    cases hno

/-- **What was assigned is read back** from the scope that assigned and from below it, unless a definition or another
written value is in the way. -/
theorem lookup_of_target {kind : SlotKind} {below above : List ScopeId} (h : st.Formed L) (hs : st.alive s = true)
    (hv : st.Supports L v) (ht : st.target? s name = some t) (hchain : st.chain s = below ++ t :: above)
    (hdef : ∀ u ∈ below, (st.scope u).definitions.get? name = none) {d : ScopeId} (hd : st.alive d = true)
    {way : List ScopeId} (hway : st.chain d = way ++ st.chain s)
    (hfree : ∀ u ∈ way, (st.scope u).bound? name = none ∧ (st.scope u).definitions.get? name = none) :
    (Eval.lookup d name (st.written t name v kind)).1 = .ok v := by
  have htm : t ∈ st.chain s := hchain ▸ List.mem_append_right _ List.mem_cons_self
  have hta := (h.alive_of_mem_chain hs htm).1
  have hnot : t ∉ below := fun hm => (h.mem_chain_of_before hs hchain hm).2 rfl
  -- all scopes between the reader and the target
  have hbetween : ∀ u ∈ way ++ below, (st.scope u).bound? name = none ∧
      (st.scope u).definitions.get? name = none := by
    intro u hu
    rcases List.mem_append.1 hu with hu | hu
    · exact hfree u hu
    · refine ⟨?_, hdef u hu⟩
      rw [Scope.bound?, slot_of_before_target ht hchain hnot hu (hdef u hu)]
      rfl
  rw [hchain, ← List.append_assoc] at hway
  refine lookup_written h hta hv hd (hway.trans (by rw [h.chain_of_split hs hchain])) fun u hu => ?_
  have hut : u ∈ st.chain d := hway ▸ List.mem_append_left _ hu
  have hua := (h.alive_of_mem_chain hd hut).1
  have hne : u ≠ t := (h.mem_chain_of_before hd hway hu).2
  obtain ⟨c', hc', hev⟩ := (evolves_write st t name v kind).scope (scope?_eq_of_alive hua)
  have hsame : (st.written t name v kind).scope u = c' := scope_of_scope? hc'
  rw [hsame, hev.definitions, hev.bound fun e he hw => hne ?_]
  · exact hbetween u hu
  · rw [List.mem_singleton.1 he] at hw
    exact hw.1.symm

end Store

/-- What a host is answered when it assigns. -/
theorem Session.act_assign {n : Session} {handle name : String} {value : Operand} {s : ScopeId} {v : Value}
    (hs : n.handles.get? handle = some s) (hv : Act.operand value n = (.ok v, n)) :
    act (.assign handle name value) n = match n.store.assign? s name v with
      | some st => (.ok .done, { n with store := st })
      | none => (.error (.failed (.unassignable name)), n) := by
  have hscope : Act.scope handle n = (.ok s, n) := by
    rw [Act.scope, get_apply, hs]
    rfl
  rw [act, bind_apply, hscope]
  dsimp only
  rw [bind_apply, hv]
  dsimp only
  rw [get_apply]
  cases n.store.assign? s name v with
  | none => rfl
  | some st => rfl

namespace Host

variable {h : Host}

/-- **Where an assignment goes, what it leaves and what is read back.** Whatever a host did, and at every point of an
evaluation that starts there: without a target an assignment fails and the session is as it was. With one it succeeds,
the target has the value and it stays written or memoized, and if no scope up to the target defines the name, the value
is read from the scope that assigned and from every scope below it that neither has a written value or a definition of
the name itself nor has one in between. -/
theorem Reachable.assignment_reads_back (hr : Reachable .full h) {own : ScopeId → Prop} {st : Store}
    (hm : Store.Moves .full own h.store st) {E : ScopeId} {name : String} {v : Value} (hE : st.alive E = true)
    (hv : st.Supports .full v) :
    -- no target
    (st.target? E name = none → st.assign? E name v = none ∧
      ∀ (n : Session) handle value, n.store = st → n.handles.get? handle = some E →
        Session.Act.operand value n = (.ok v, n) →
        Session.act (.assign handle name value) n = (.error (.failed (.unassignable name)), n)) ∧
    -- a target
    ∀ S slot, st.target? E name = some S → (st.scope S).slots.get? name = some slot →
      ∃ st', st.assign? E name v = some st' ∧
        (∀ (n : Session) handle value, n.store = st → n.handles.get? handle = some E →
          Session.Act.operand value n = (.ok v, n) →
          Session.act (.assign handle name value) n = (.ok .done, { n with store := st' })) ∧
        (st'.scope S).slots.get? name = some ⟨v.detach S, slot.kind⟩ ∧
        -- what is read back
        ∀ below above, st.chain E = below ++ S :: above →
          (∀ t ∈ below, (st.scope t).definitions.get? name = none) →
          (Eval.lookup E name st').1 = .ok v ∧
          ∀ D way, st.alive D = true → st.chain D = way ++ st.chain E →
            (∀ t ∈ way, (st.scope t).bound? name = none ∧ (st.scope t).definitions.get? name = none) →
            (Eval.lookup D name st').1 = .ok v := by
  have hst := hm.formed hr.formed.store
  refine ⟨fun ht => ?_, fun S slot ht hslot => ?_⟩
  · have hnone : st.assign? E name v = none := Store.assign?_eq_none_iff.2 ht
    refine ⟨hnone, fun n handle value hn hh ho => ?_⟩
    rw [Session.act_assign hh ho, hn, hnone]
  · have hsome := Store.assign?_of_target (v := v) ht hslot
    have hS : st.alive S = true := (hst.alive_of_mem_chain hE (List.mem_of_find?_eq_some ht)).1
    refine ⟨_, hsome, fun n handle value hn hh ho => ?_, Store.slot_written hS, fun below above hchain hdef => ?_⟩
    · rw [Session.act_assign hh ho, hn, hsome]
    -- that the assignment is logged changes no scope
    have hrec : (st.record (.assigning S name slot.kind)).Formed .full := hst.congr rfl fun _ => rfl
    have hread : ∀ D way, st.alive D = true → st.chain D = way ++ st.chain E →
        (∀ t ∈ way, (st.scope t).bound? name = none ∧ (st.scope t).definitions.get? name = none) →
        (Eval.lookup D name ((st.record (.assigning S name slot.kind)).written S name v slot.kind)).1 = .ok v :=
      fun D way hD hway hfree =>
        Store.lookup_of_target hrec hE hv ht hchain hdef hD hway hfree
    exact ⟨hread E [] hE rfl nofun, hread⟩

/-- A host that counts, with two more scopes below; the middle one was asked for the counter. -/
def stacked : Host :=
  let first : Host := ⟨(counting.store.addChild 1 []).2, [2, 1, 0], []⟩
  let second : Host := ⟨(first.store.addChild 2 []).2, [3, 2, 1, 0], []⟩
  second.after (Eval.lookup 1 "counter" second.store)

theorem reachable_stacked : Reachable .full stacked := by
  have hfirst : Reachable .full ⟨(counting.store.addChild 1 []).2, [2, 1, 0], []⟩ :=
    .step reachable_counting (.child (s := 1) (by decide) nofun)
  have hsecond : Reachable .full ⟨((counting.store.addChild 1 []).2.addChild 2 []).2, [3, 2, 1, 0], []⟩ :=
    .step hfirst (.child (s := 2) (by decide) nofun)
  exact .step hsecond (.lookup (s := 1) "counter" (by decide))

/-- The copy that was memoized below the owner is overwritten and read from everything below, and what no scope has a
value of is not assigned. -/
theorem assignment_of_copy :
    (∃ st', stacked.store.assign? 2 "counter" (.int 7) = some st' ∧
      (st'.scope 1).slots.get? "counter" = some ⟨.int 7, .derived⟩ ∧
      (Eval.lookup 2 "counter" st').1 = .ok (.int 7) ∧ (Eval.lookup 3 "counter" st').1 = .ok (.int 7)) ∧
    stacked.store.assign? 2 "total" (.int 7) = none := by
  have hv : stacked.store.Supports .full (.int 7) := nofun
  have hm : Store.Moves .full (fun _ => True) stacked.store stacked.store := .refl _
  have hslot : (stacked.store.scope 1).slots.get? "counter" = some ⟨.int 0, .derived⟩ := rfl
  obtain ⟨-, hcopy⟩ := @Reachable.assignment_reads_back stacked reachable_stacked _ _ hm 2 "counter" _ rfl hv
  obtain ⟨hfails, -⟩ := @Reachable.assignment_reads_back stacked reachable_stacked _ _ hm 2 "total" _ rfl hv
  obtain ⟨st', hsome, -, hput, hread⟩ := hcopy 1 _ rfl hslot
  obtain ⟨hown, hbelow⟩ := hread [2] [0] rfl (by decide)
  exact ⟨⟨st', hsome, hput, hown, hbelow 3 [3] rfl rfl (by decide)⟩, (hfails rfl).1⟩

end Host
end LazyFormula
