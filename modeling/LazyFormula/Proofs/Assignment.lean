import LazyFormula.Proofs.Captures
/-!
# Where an assignment goes

An assignment overwrites the nearest value of the name that any scope on the way up has once the right side was
evaluated. Reading the name on the right side memoizes it below its owner, so it is such a copy that is overwritten
then, and the owner keeps what it had (`Host.Reachable.assignment_target`, `Host.assignment_misses_owner`).
-/
namespace LazyFormula

variable {L : Fragment}

/-- The form that assigns a name. -/
def Expr.assignment (name : String) (e : Expr) : Expr := .list [.symbol "set!", .symbol name, e]

namespace Eval

/-- What is assigned is what the right side evaluates to in the same scope. -/
theorem evaluateIn_assignment {e : Expr} {s : ScopeId} {name : String} {st st' : Store} {r : Value}
    (h : evaluateIn (.assignment name e) s st = (.ok r, st')) :
    ∃ v st₁, evaluateIn e s st = (.ok v, st₁) ∧ st₁.assign? s name v = some st' := by
  rw [evaluateIn, withEvaluator_apply] at h ⊢
  cases hd : st.depthLeft with
  | zero =>
    rw [hd] at h
    cases h
  | succ depth =>
    rw [hd] at h
    obtain ⟨st₂, hn, hst'⟩ := nested_eq_ok h
    replace hn : evaluateForm (evaluateWithin depth) s (.assign name e) (st.setDepth (st.scope s).tree (· + 1)) =
      (.ok r, st₂) := hn
    obtain ⟨v, st₁, hv, hn⟩ := bind_eq_ok.1 hn
    obtain ⟨hv', ht⟩ := evaluateWithin_of_entered (Nat.le_succ depth) hv
    refine ⟨v, _, hv', ?_⟩
    rw [get_apply] at hn
    cases ha : st₁.assign? s name v with
    | none =>
      rw [ha] at hn
      cases hn
    | some st₃ =>
      rw [ha] at hn
      cases hn
      rw [Store.assign?_withTrees, ha, hst', setDepth_entered ((Store.trees_assign? ha).trans ht)]
      rfl

end Eval
namespace Store

variable {st : Store} {s t : ScopeId} {name : String} {v : Value} {kind : SlotKind}

/-- What one scope after the other does not know is looked up in those that follow. -/
theorem lookupAlong_append (ev : Evaluator) (name : String) {rest : List ScopeId} : ∀ {way : List ScopeId},
    (∀ t ∈ way, (st.scope t).slots.get? name = none ∧ (st.scope t).definitions.get? name = none) →
      (lookupAlong ev name rest st).1 = .ok v → (lookupAlong ev name (way ++ rest) st).1 = .ok v
  | [], _, h => h
  | t :: way, hw, h => by
    obtain ⟨hslot, hdef⟩ := hw t List.mem_cons_self
    have ih := lookupAlong_append ev name (fun u hu => hw u (List.mem_cons_of_mem _ hu)) h
    rw [List.cons_append, lookupAlong, get_apply]
    simp only [hslot, hdef]
    rw [bind_apply]
    rcases hr : lookupAlong ev name (way ++ rest) st with ⟨r, st₁⟩
    rw [hr] at ih
    cases ih
    rfl

/-- A value that is written with what was memoized below it dropped. -/
def written (st : Store) (s : ScopeId) (name : String) (v : Value) (kind : SlotKind) : Store :=
  (st.invalidate s .derived [name]).put s name v kind

theorem slot_written (hs : st.alive s = true) :
    ((st.written s name v kind).scope s).slots.get? name = some ⟨v.detach s, kind⟩ := by
  rw [written, slot_put _ ((alive_invalidate st s .derived [name] s).trans hs)]
  exact if_pos ⟨rfl, rfl⟩

/-- Scopes below a write are left with written values. -/
theorem slot_of_below_written (h : st.Formed L) (hs : st.alive s = true) (ht : st.alive t = true)
    (hst : s ∈ st.chain t) (hne : t ≠ s) (hb : ((st.written s name v kind).scope t).bound? name = none) :
    ((st.written s name v kind).scope t).slots.get? name = none := by
  obtain ⟨c, hc⟩ := alive_iff.1 ht
  obtain ⟨c', hc', hd⟩ := dropped_of_mem_reach ((h.mem_reach hs).2 ⟨ht, hst⟩) hc .derived [name]
  have hscope : (st.written s name v kind).scope? t = some c' := by rw [written, scope?_put, if_neg hne, hc']
  rw [scope_of_scope? hscope] at hb ⊢
  rw [hd.slots, Scope.get?_clear_derived_eq_bound?, ← hd.bound?, hb]
  rfl

/-- Other scopes than those below a write stay as they are. -/
theorem scope?_written_of_not_mem (h : st.Formed L) (hs : st.alive s = true) (hst : s ∉ st.chain t) (hne : t ≠ s) :
    (st.written s name v kind).scope? t = st.scope? t := by
  rw [written, scope?_put, if_neg hne, scope?_invalidate_of_not_mem]
  exact fun hm => hst ((h.mem_reach hs).1 hm).2

/-- Scopes above a write stay as they are. -/
theorem scope_written_above (h : st.Formed L) (hs : st.alive s = true) (hst : t ∈ st.chain s) (hne : s ≠ t) :
    (st.written s name v kind).scope t = st.scope t := by
  have hts : s ∉ st.chain t := fun hm => hne (h.chain_antisymm hs hst hm)
  rw [scope, scope?_written_of_not_mem h hs hts hne.symm, scope]

theorem chain_written (t : ScopeId) (ht : st.alive t = true) : (st.written s name v kind).chain t = st.chain t :=
  (evolves_write st s name v kind).chain ht

/-- **What was written is read from everywhere below**, as far as nothing is in the way. -/
theorem lookup_written (h : st.Formed L) (hs : st.alive s = true) (hv : st.Supports L v) (ht : st.alive t = true)
    {way : List ScopeId} (hchain : st.chain t = way ++ st.chain s)
    (hway : ∀ u ∈ way, ((st.written s name v kind).scope u).bound? name = none ∧
      ((st.written s name v kind).scope u).definitions.get? name = none) :
    (Eval.lookup t name (st.written s name v kind)).1 = .ok v := by
  have hread : ∀ ev, (lookupAlong ev name (st.chain s) (st.written s name v kind)).1 = .ok v := by
    intro ev
    have ha : (st.written s name v kind).alive = st.alive :=
      funext fun u => (alive_put ..).trans (alive_invalidate ..)
    rw [chain, lookupAlong, get_apply]
    simp only [slot_written hs]
    show Except.ok ((v.detach s).attach (st.written s name v kind).alive) = _
    rw [ha, hv.attach_detach]
  rw [Eval.lookup_apply, chain_written t ht, hchain]
  refine lookupAlong_append _ name (fun u hu => ⟨?_, (hway u hu).2⟩) (hread _)
  have hut : u ∈ st.chain t := hchain ▸ List.mem_append_left _ hu
  obtain ⟨hsu, hne⟩ := h.mem_chain_of_before ht hchain hu
  exact slot_of_below_written h hs (h.alive_of_mem_chain ht hut).1 hsu hne (hway u hu).1

/-- An assignment writes the first value on the way up, if no scope there defines the name. -/
theorem assign?_eq_some {st' : Store} (h : st.assign? s name v = some st')
    (hdef : ∀ t ∈ st.chain s, (st.scope t).definitions.get? name = none) :
    ∃ near t far slot, st.chain s = near ++ t :: far ∧ (∀ u ∈ near, (st.scope u).slots.get? name = none) ∧
      (st.scope t).slots.get? name = some slot ∧
      st' = (st.record (.assigning t name slot.kind)).written t name v slot.kind := by
  obtain ⟨⟨t, slot⟩, hfound, rfl⟩ := Option.map_eq_some_iff.1 h
  obtain ⟨near, far, hchain, hslot, -, hnear⟩ := assignable?_eq_some hfound
  refine ⟨near, t, far, slot, hchain, fun u hu => ?_, hslot, rfl⟩
  exact (hnear u hu).resolve_right fun hn => hn (hdef u (hchain ▸ List.mem_append_left _ hu))

/-- Of two scopes on a chain the one that has a value is not behind the first one that has. -/
theorem near_or_eq {near far below above : List ScopeId} {T S : ScopeId} {P : ScopeId → Prop}
    (h : near ++ T :: far = below ++ S :: above) (hnear : ∀ u ∈ near, ¬ P u) (hS : P S) :
    T = S ∧ near = below ∨ T ∈ below := by
  rcases List.append_eq_append_iff.1 h with ⟨mid, hb, hm⟩ | ⟨mid, hn, hm⟩
  · cases mid with
    | nil =>
      rw [List.nil_append] at hm
      exact .inl ⟨(List.cons.inj hm).1, by rw [hb, List.append_nil]⟩
    | cons u mid =>
      rw [hb, (List.cons.inj hm).1]
      exact .inr (List.mem_append_right _ List.mem_cons_self)
  · cases mid with
    | nil =>
      rw [List.nil_append] at hm
      exact .inl ⟨(List.cons.inj hm).1.symm, by rw [hn, List.append_nil]⟩
    | cons u mid =>
      refine absurd hS (hnear S ?_)
      rw [hn, (List.cons.inj hm).1]
      exact List.mem_append_right _ List.mem_cons_self

end Store

namespace Host

variable {h : Host}

/-- **Where an assignment goes.** Whatever a host did, and at every point of an evaluation that starts there, so also
for an assignment within a body or between other forms: a name has its nearest written value in the scope `S` and no
definition on the way up from `E`. If the right side evaluates to `v` and writes the name nowhere on that way, then
the assignment puts `v` into the first scope `T` that has any value of the name by then: that is `S` if there is no
copy below it, else a scope below with a memoized copy, which stays memoized while `S` keeps what it had. Look-ups
from `T`, and from below it with no written value and no definition in the way, answer `v`. -/
theorem Reachable.assignment_target (hr : Reachable .full h) {own : ScopeId → Prop} {st : Store}
    (hm : Store.Moves .full own h.store st) {E S : ScopeId} {below above : List ScopeId} {name : String} {e : Expr}
    {v r : Value} {st₁ st' : Store} (hE : st.alive E = true) (hchain : st.chain E = below ++ S :: above)
    (hdef : ∀ t ∈ st.chain E, (st.scope t).definitions.get? name = none)
    (hbelow : ∀ t ∈ below, (st.scope t).bound? name = none) (hS : ((st.scope S).bound? name).isSome = true)
    (hv : Eval.evaluateIn e E st = (.ok v, st₁))
    (hw : ∀ events, st₁.log = events ++ st.log → ∀ t ∈ st.chain E, ∀ ev ∈ events, ¬ ev.Writes t name)
    (hset : Eval.evaluateIn (.assignment name e) E st = (.ok r, st')) :
    ∃ near T far kind, st.chain E = near ++ T :: far ∧
      -- the first scope with any value
      (∀ t ∈ near, (st₁.scope t).slots.get? name = none) ∧
      (∃ w, (st₁.scope T).slots.get? name = some ⟨w, kind⟩) ∧
      (T = S ↔ ∀ t ∈ below, (st₁.scope t).slots.get? name = none) ∧
      (T = S ∧ kind = .bound ∨
        T ∈ below ∧ kind = .derived ∧ (st'.scope S).slots.get? name = (st.scope S).slots.get? name) ∧
      -- has what was assigned
      (st'.scope T).slots.get? name = some ⟨v.detach T, kind⟩ ∧
      ∀ D way, st'.alive D = true → st'.chain D = way ++ st'.chain T →
        (∀ t ∈ way, (st'.scope t).bound? name = none ∧ (st'.scope t).definitions.get? name = none) →
        (Eval.lookup D name st').1 = .ok v := by
  have hf := hm.formed hr.formed.store
  have hready : st.Ready .full fun _ => True := ⟨hf, fun _ => trivial⟩
  obtain ⟨v', st₂, hv', ha⟩ := Eval.evaluateIn_assignment hset
  cases hv.symm.trans hv'
  -- the state after the right side was evaluated
  obtain ⟨hrun, hpost⟩ := Eval.evaluateIn_yields (e := e) hready trivial hE trivial
  rw [hv] at hrun hpost
  have hsup : st₁.Supports .full v := hpost
  have hf₁ := hrun.formed hf
  obtain ⟨events, hev⟩ := hrun.evolves
  have halive : ∀ t ∈ st.chain E, st.alive t = true := fun t ht => (hf.alive_of_mem_chain hE ht).1
  have hsame : ∀ t ∈ st.chain E, (st₁.scope t).definitions = (st.scope t).definitions ∧
      (st₁.scope t).bound? name = (st.scope t).bound? name :=
    fun t ht => hev.unwritten (halive t ht) (hw events hev.log t ht)
  have hchain₁ := hev.chain hE
  obtain ⟨near, T, far, slot, hnear, hnone, hslot, rfl⟩ :=
    Store.assign?_eq_some ha (hchain₁ ▸ fun t ht => by rw [(hsame t ht).1, hdef t ht])
  rw [hchain₁] at hnear
  have hrec : (st₁.record (.assigning T name slot.kind)).Formed .full := hf₁.congr rfl fun _ => rfl
  have hTmem : T ∈ st.chain E := hnear ▸ List.mem_append_right _ List.mem_cons_self
  have hTa : (st₁.record (.assigning T name slot.kind)).alive T = true := hev.alive (halive T hTmem)
  have hSmem : S ∈ st.chain E := hchain ▸ List.mem_append_right _ List.mem_cons_self
  obtain ⟨w, hw'⟩ := Option.isSome_iff_exists.1 hS
  have hSslot : (st₁.scope S).slots.get? name = some ⟨w, .bound⟩ :=
    Scope.bound?_eq_some.1 ((hsame S hSmem).2.trans hw')
  have hcase : T = S ∧ near = below ∨ T ∈ below :=
    Store.near_or_eq (P := fun u => (st₁.scope u).slots.get? name ≠ none)
      (hnear.symm.trans hchain) (fun u hu hn => hn (hnone u hu)) (by rw [hSslot]; exact nofun)
  have hcopy : T = S ↔ ∀ t ∈ below, (st₁.scope t).slots.get? name = none := by
    rcases hcase with ⟨rfl, rfl⟩ | hb
    · exact ⟨fun _ => hnone, fun _ => rfl⟩
    · refine ⟨fun hTS => absurd hTS (hf.mem_chain_of_before hE hchain hb).2, fun hfree => ?_⟩
      rw [hfree T hb] at hslot
      cases hslot
  refine ⟨near, T, far, slot.kind, hnear, hnone, ⟨slot.value, hslot⟩, hcopy, ?_, Store.slot_written hTa, ?_⟩
  · rcases hcase with ⟨rfl, -⟩ | hb
    · rw [hSslot] at hslot
      cases hslot
      exact .inl ⟨rfl, rfl⟩
    · -- a copy was memoized below
      obtain ⟨hST, hne⟩ := hf.mem_chain_of_before hE hchain hb
      refine .inr ⟨hb, Scope.kind_eq_derived hslot ((hsame T hTmem).2.trans (hbelow T hb)), ?_⟩
      rw [Store.scope_written_above hrec hTa (hev.chain (halive T hTmem) ▸ hST) hne]
      exact hSslot.trans (Scope.bound?_eq_some.1 hw').symm
  · intro D way hD hway hfree
    have hsup' : (st₁.record (.assigning T name slot.kind)).Supports .full v := hsup
    rw [Store.written, Store.alive_put, Store.alive_invalidate] at hD
    rw [Store.chain_written D hD, Store.chain_written T hTa] at hway
    exact Store.lookup_written hrec hTa hsup' hD hway hfree

/-! ## A counter -/

/-- A host with a counter and the addition in a root, and a scope below the root. -/
def counting : Host :=
  let root := (Store.empty.addOrphan 10).2
  let bound := root.update 0 [("counter", .int 0), ("+", .builtin ⟨0, .primitive .add⟩)]
  ⟨(bound.addChild 0 []).2, [1, 0], []⟩

/-- The counter and one more. -/
def next : Expr := .list [.symbol "+", .symbol "counter", .number (.int 1)]

theorem reachable_counting : Reachable .full counting := by
  have hroot : Reachable .full ⟨(Store.empty.addOrphan 10).2, [0], []⟩ := .step .init (.root 10 true)
  have hbound : Reachable .full ⟨(Store.empty.addOrphan 10).2.update 0
      [("counter", .int 0), ("+", .builtin ⟨0, .primitive .add⟩)], [0], []⟩ :=
    .step hroot (.update (List.mem_singleton_self 0) (by simp [Knows, Value.int, Value.procedures]))
  exact .step hbound (.child (List.mem_singleton_self 0) nofun)

theorem next_writes_nothing :
    ∀ events, (Eval.evaluateIn next 1 counting.store).2.log = events ++ counting.store.log →
    ∀ t, ∀ ev ∈ events, ¬ ev.Writes t "counter" := by
  intro events h t ev hev
  have hlog : (Eval.evaluateIn next 1 counting.store).2.log =
    [.cacheHit 0 "counter", .cacheHit 0 "+"] ++ counting.store.log := rfl
  rw [List.append_cancel_right (h.symm.trans hlog)] at hev
  simp only [List.mem_cons, List.not_mem_nil, or_false] at hev
  rcases hev with rfl | rfl <;> exact id

/-- The right side reads the counter, so a copy of it is counted up below the root. -/
theorem assignment_of_counter : ∃ near T far kind, [1, 0] = near ++ T :: far ∧
    (T = 0 ∧ kind = .bound ∨ T ∈ [1] ∧ kind = .derived) ∧
    ((Eval.evaluateIn (.assignment "counter" next) 1 counting.store).2.scope T).slots.get? "counter" =
      some ⟨.int 1, kind⟩ := by
  have hm : Store.Moves .full (fun _ => True) counting.store counting.store := .refl _
  have hchain : counting.store.chain 1 = [1] ++ 0 :: [] := rfl
  have hdef : ∀ t ∈ [1, 0], (counting.store.scope t).definitions.get? "counter" = none := by decide
  have hbelow : ∀ t ∈ [1], (counting.store.scope t).bound? "counter" = none := by decide
  obtain ⟨near, T, far, kind, hchain, -, -, -, hT, hslot, -⟩ :=
    Reachable.assignment_target reachable_counting hm rfl hchain hdef hbelow rfl
      (rfl : Eval.evaluateIn next 1 counting.store = (.ok (.int 1), _))
      (fun events h t _ => next_writes_nothing events h t)
      (rfl : Eval.evaluateIn (.assignment "counter" next) 1 counting.store = (.ok .unspecified, _))
  exact ⟨near, T, far, kind, hchain, hT.imp id fun h => ⟨h.1, h.2.1⟩, hslot⟩

/-- **An assignment may miss the scope that owns the name**: counting up from below leaves the counter at zero. -/
theorem assignment_misses_owner :
    Reachable .full counting ∧ counting.store.chain 1 = [1, 0] ∧
      (∀ t ∈ [1, 0], (counting.store.scope t).definitions.get? "counter" = none) ∧
      (counting.store.scope 1).bound? "counter" = none ∧ (counting.store.scope 0).bound? "counter" = some (.int 0) ∧
      ∃ st₁ st', Eval.evaluateIn next 1 counting.store = (.ok (.int 1), st₁) ∧
        (∀ events, st₁.log = events ++ counting.store.log →
          ∀ t, ∀ ev ∈ events, ¬ ev.Writes t "counter") ∧
        Eval.evaluateIn (.assignment "counter" next) 1 counting.store = (.ok .unspecified, st') ∧
        (st'.scope 0).bound? "counter" = some (.int 0) ∧ (Eval.lookup 0 "counter" st').1 = .ok (.int 0) ∧
        Value.int 0 ≠ .int 1 :=
  ⟨reachable_counting, rfl, by decide, rfl, rfl, _, _, rfl, next_writes_nothing, rfl, rfl, rfl, by simp [Value.int]⟩

end Host
end LazyFormula
