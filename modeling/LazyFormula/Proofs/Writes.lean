import LazyFormula.Proofs.Hosts
import LazyFormula.Proofs.Staleness
import LazyFormula.Proofs.Walks
/-!
# What a write does

Every scope with a parent is listed once by it, at every point of every evaluation and whatever has died by then, so
the walk of an invalidation reaches what is below the written scope and nothing else. A definition leaves no value
there; any other write drops what was memoized, keeps what was written, and stores its own values in the written scope
(`Host.Reachable.write_effect`).
-/
namespace LazyFormula

namespace Store

variable {L : Fragment} {st st' : Store} {s p : ScopeId}

/-! ## Parents list their children -/

/-- **What becomes of a store** while an evaluation is in progress: the evaluation makes its moves, and scopes die. -/
inductive Course (L : Fragment) : Store → Store → Prop
  | refl (st : Store) : Course L st st
  | move {st st₁ st' : Store} {own : ScopeId → Prop} (h : Move L own st st₁) (rest : Course L st₁ st') :
      Course L st st'
  | fade {st st₁ st' : Store} {held : List ScopeId} (h : Fades held st st₁) (rest : Course L st₁ st') :
      Course L st st'

theorem Course.formed (hc : Course L st st') (h : st.Formed L) : st'.Formed L := by
  induction hc with
  | refl => exact h
  | move hm _ ih => exact ih (hm.formed h)
  | fade hf _ ih => exact ih (hf.formed h)

/-- The living children of a scope. -/
def children (st : Store) (p : ScopeId) : List ScopeId :=
  (List.range st.scopes.size).filter fun s => st.alive s && (st.scope s).parent? == some p

theorem Formed.nodup_live_listeners (h : st.Formed L) (p : ScopeId) :
    ((st.scope p).listeners.filter st.alive).Nodup := by
  refine List.Nodup.sublist List.filter_sublist ?_
  by_cases hp : st.alive p = true
  · exact h.nodup_listeners (scope?_eq_of_alive hp)
  · rw [listeners_of_dead (by simpa using hp)]
    exact List.nodup_nil

/-- **A child is listed once.** -/
theorem Formed.count_live_listeners (h : st.Formed L) (hs : st.alive s = true) (hp : (st.scope s).parent? = some p) :
    ((st.scope p).listeners.filter st.alive).count s = 1 :=
  List.count_eq_one_of_mem (h.nodup_live_listeners p) (h.mem_live_listeners.2 ⟨hs, hp⟩)

theorem Formed.listenerCount_eq (h : st.Formed L) (p : ScopeId) : st.listenerCount p = (st.children p).length := by
  refine List.Perm.length_eq ((List.perm_ext_iff_of_nodup (h.nodup_live_listeners p) ?_).2 fun s => ?_)
  · exact List.nodup_range.sublist List.filter_sublist
  · rw [h.mem_live_listeners, children, List.mem_filter, List.mem_range]
    simp only [Bool.and_eq_true, beq_iff_eq]
    exact ⟨fun hs => ⟨lt_size_of_alive hs.1, hs⟩, fun hs => hs.2⟩

end Store

/-! ## Writes -/

/-- **A write to a scope.** -/
inductive Write where
  | define (name : String) (e : Expr)
  | update (values : List (String × Value))
  /-- The value of a name is overwritten and stays what it was, written or memoized. -/
  | assign (name : String) (v : Value) (kind : SlotKind)

namespace Write

variable {L : Fragment} {w : Write} {st st₁ st' : Store} {s t : ScopeId} {held : List ScopeId}

/-- What a write drops. -/
def reach : Write → Reach
  | define .. => .everything
  | update _ | assign .. => .derived

/-- The names that are written. -/
def names : Write → List String
  | define name _ | assign name .. => [name]
  | update values => values.map Prod.fst

/-- The store when the walk starts. -/
def prepare (s : ScopeId) : Write → Store → Store
  | define name e, st => (st.record (.defining s name e)).modify s (·.putDefinition name e)
  | update _, st => st
  | assign name _ kind, st => st.record (.assigning s name kind)

/-- What is stored when the walk has ended. -/
def finish (s : ScopeId) : Write → Store → Store
  | define .., st => st
  | update values, st => values.foldl (fun st (name, v) => st.put s name v .bound) st
  | assign name v kind, st => st.put s name v kind

/-- **A write** to a store in which nothing dies meanwhile. -/
def run (w : Write) (s : ScopeId) (st : Store) : Store := w.finish s ((w.prepare s st).invalidate s w.reach w.names)

/-- What is left of the value of a name at the written scope and below it. -/
def remains : Write → Option Slot → Option Slot
  | define .., _ => none
  | update _, slot | assign .., slot => slot.filter (·.kind == .bound)

/-- The value that the written scope gets for a name. -/
def slot? (s : ScopeId) : Write → String → Option Slot
  | define .., _ => none
  | update values, n => (values.reverse.lookup n).map fun v => ⟨v.detach s, .bound⟩
  | assign name v kind, n => if n = name then some ⟨v.detach s, kind⟩ else none

/-- The definition that the written scope gets for a name. -/
def definition? : Write → String → Option Expr
  | define name e, n => if n = name then some e else none
  | update _, _ | assign .., _ => none

/-- **What a write does to the scopes that are left.** -/
structure Effect (w : Write) (s : ScopeId) (st st' : Store) : Prop where
  alive {t : ScopeId} : st'.alive t = true → st.alive t = true
  elsewhere {t : ScopeId} : st'.alive t = true → s ∉ st.chain t →
    (st'.scope t).slots = (st.scope t).slots ∧ (st'.scope t).definitions = (st.scope t).definitions
  below {t : ScopeId} : st'.alive t = true → s ∈ st.chain t → t ≠ s →
    (∀ n, (st'.scope t).slots.get? n = w.remains ((st.scope t).slots.get? n)) ∧
      (st'.scope t).definitions = (st.scope t).definitions
  here : st'.alive s = true → ∀ n,
    (st'.scope s).slots.get? n = (w.slot? s n).or (w.remains ((st.scope s).slots.get? n)) ∧
      (st'.scope s).definitions.get? n = (w.definition? n).or ((st.scope s).definitions.get? n)

theorem get?_clear (w : Write) (c : Scope) (n : String) :
    (c.clear w.reach).slots.get? n = w.remains (c.slots.get? n) := by
  cases w with
  | define => rfl
  | update | assign => exact c.get?_clear_derived n

theorem scope_of_prepare {c' : Scope} (hc' : (w.prepare s st).scope? t = some c') :
    ∃ c, st.scope? t = some c ∧ c'.ancestors = c.ancestors ∧ c'.slots = c.slots ∧
      (t ≠ s → c'.definitions = c.definitions) ∧
      (t = s → ∀ n, c'.definitions.get? n = (w.definition? n).or (c.definitions.get? n)) := by
  cases w with
  | define name e =>
    rcases Store.scope_of_modify hc' with ⟨c, hc, hts, rfl⟩ | ⟨hts, hc'⟩
    · refine ⟨c, hc, rfl, rfl, fun hne => absurd hts hne, fun _ n => ?_⟩
      rw [Scope.putDefinition, Bindings.get?_insert, definition?]
      split <;> rfl
    · exact ⟨c', hc', rfl, rfl, fun _ => rfl, fun h => absurd h hts⟩
  | update | assign => exact ⟨c', hc', rfl, rfl, fun _ => rfl, fun _ _ => rfl⟩

theorem alive_prepare (w : Write) (s : ScopeId) (st : Store) (t : ScopeId) :
    (w.prepare s st).alive t = st.alive t := by
  cases w with
  | define => exact Store.alive_modify ..
  | update | assign => rfl

theorem formed_prepare (h : st.Formed .full) (w : Write) (s : ScopeId) : (w.prepare s st).Formed .full := by
  cases w with
  | define name e =>
    have hrecord : (st.record (.defining s name e)).Formed .full := h.congr rfl fun _ => rfl
    exact hrecord.putDefinition trivial s name
  | update => exact h
  | assign => exact h.congr rfl fun _ => rfl

theorem scope_of_finish {c' : Scope} (hc' : (w.finish s st).scope? t = some c') :
    ∃ c, st.scope? t = some c ∧ c'.definitions = c.definitions ∧ (t ≠ s → c'.slots = c.slots) ∧
      (t = s → ∀ n, c'.slots.get? n = (w.slot? s n).or (c.slots.get? n)) := by
  cases w with
  | define => exact ⟨c', hc', rfl, fun _ => rfl, fun _ _ => rfl⟩
  | update values =>
    rw [finish, Store.scope?_puts] at hc'
    split at hc'
    · rename_i hts
      obtain ⟨c, hc, rfl⟩ := Option.map_eq_some_iff.1 hc'
      refine ⟨c, hts ▸ hc, rfl, fun hne => absurd hts hne, fun _ n => ?_⟩
      exact Bindings.get?_insertAll_map _ (fun v : Value => Slot.mk (v.detach s) .bound) n values
    · rename_i hts
      exact ⟨c', hc', rfl, fun _ => rfl, fun h => absurd h hts⟩
  | assign name v kind =>
    rcases Store.scope_of_put hc' with ⟨c, hc, hts, rfl⟩ | ⟨hts, hc'⟩
    · refine ⟨c, hc, rfl, fun hne => absurd hts hne, fun _ n => ?_⟩
      rw [Scope.get?_put, slot?]
      split <;> rfl
    · exact ⟨c', hc', rfl, fun _ => rfl, fun h => absurd h hts⟩

/-- **A write whose walk has ended** did what it does, whatever died during the walk and after it. -/
theorem effect_of_walk (h : (w.prepare s st).Formed L) (hs : st.alive s = true)
    (hw : Walk.Steps held w.reach ⟨w.prepare s st, [s]⟩ ⟨st₁, []⟩)
    (hf : Store.Fades held (w.finish s st₁) st') :
    w.Effect s st st' := by
  have hstage := (Walk.stage_start h ((alive_prepare w s st s).trans hs)).steps h hw
  -- what is left is followed back to what it was
  have hleft : ∀ {t}, st'.alive t = true → ∃ c c', st.scope? t = some c ∧ st'.scope? t = some c' ∧
      (t ≠ s → c'.definitions = c.definitions) ∧
      (t = s → ∀ n, c'.definitions.get? n = (w.definition? n).or (c.definitions.get? n)) ∧
      (s ∉ st.chain t → t ≠ s → c'.slots = c.slots) ∧
      (s ∈ st.chain t → t ≠ s → ∀ n, c'.slots.get? n = w.remains (c.slots.get? n)) ∧
      (s ∈ st.chain t → t = s → ∀ n, c'.slots.get? n = (w.slot? s n).or (w.remains (c.slots.get? n))) := by
    intro t ht
    obtain ⟨c', hc'⟩ := Store.alive_iff.1 ht
    obtain ⟨c₂, l, hc₂, rfl, -⟩ := hf.scope hc'
    obtain ⟨c₁, hc₁, hdef₂, hslots₂, hslots₂'⟩ := scope_of_finish hc₂
    obtain ⟨c₀, hc₀, hdef₁, hslots₁, hslots₁'⟩ := hstage.finish rfl hc₁
    obtain ⟨c, hc, hanc, hslots₀, hdef₀, hdef₀'⟩ := scope_of_prepare hc₀
    have hchain : (w.prepare s st).chain t = st.chain t := by
      rw [Store.chain_of_scope? hc₀, Store.chain_of_scope? hc, hanc]
    have hclear : ∀ n, (c₀.clear w.reach).slots.get? n = w.remains (c.slots.get? n) := fun n => by
      rw [get?_clear, hslots₀]
    rw [hchain] at hslots₁ hslots₁'
    have hdef : c₂.definitions = c₀.definitions := hdef₂.trans hdef₁
    refine ⟨c, _, hc, hc', fun hts => hdef.trans (hdef₀ hts), fun hts n => ?_, fun hm hts => ?_, fun hm hts n => ?_,
      fun hm hts n => ?_⟩
    · exact (congrArg (·.get? n) hdef).trans (hdef₀' hts n)
    · exact (hslots₂ hts).trans ((hslots₁ hm).trans hslots₀)
    · exact (congrArg (·.get? n) (hslots₂ hts)).trans ((hslots₁' hm n).trans (hclear n))
    · rw [← hclear, ← hslots₁' hm n]
      exact hslots₂' hts n
  refine ⟨fun {t} ht => ?_, fun {t} ht hm => ?_, fun {t} ht hm hts => ?_, fun ht n => ?_⟩
  · obtain ⟨c, -, hc, -⟩ := hleft ht
    exact Store.alive_of_scope? hc
  all_goals
    obtain ⟨c, c', hc, hc', hdef, hdef', helse, hbelow, hhere⟩ := hleft ht
    rw [Store.scope_of_scope? hc, Store.scope_of_scope? hc']
  · have hts : t ≠ s := fun hts => hm (hts ▸ List.mem_cons_self)
    exact ⟨helse hm hts, hdef hts⟩
  · exact ⟨hbelow hm hts, hdef hts⟩
  · exact ⟨hhere List.mem_cons_self rfl n, hdef' rfl n⟩

theorem finish_record (w : Write) (s : ScopeId) (st : Store) (e : Event) :
    w.finish s (st.record e) = (w.finish s st).record e := by
  cases w with
  | define | assign => rfl
  | update values =>
    rw [finish, finish]
    induction values generalizing st with
    | nil => rfl
    | cons x values ih => exact ih (st.put s x.1 x.2 .bound)

/-- A write in which nothing dies is one of those. -/
theorem effect_run (h : st.Formed .full) (hs : st.alive s = true) (w : Write) : w.Effect s st (w.run s st) := by
  have hprep := formed_prepare h w s
  obtain ⟨st₁, hwalk, heq⟩ :=
    Walk.exists_invalidate hprep ((alive_prepare w s st s).trans hs) [] w.reach w.names
  rw [run, heq, finish_record]
  exact effect_of_walk hprep hs hwalk (Store.fades_of_scope? _ rfl fun _ => rfl)

end Write

namespace Host

variable {h : Host}

/-- **Exact reach of a write.** Whatever a host did, whatever an evaluation that starts there has done so far, and
whatever has died: a scope with a parent is listed by it once, so that the living children are counted; and a write ends
and does to each scope that is left what `Write.Effect` says, whatever dies during its walk and after it. -/
theorem Reachable.write_effect (hr : Reachable .full h) {st : Store} (hc : Store.Course .full h.store st) :
    -- what is listed
    (∀ s p, st.alive s = true → (st.scope s).parent? = some p →
      st.alive p = true ∧ ((st.scope p).listeners.filter st.alive).count s = 1) ∧
    (∀ p, st.listenerCount p = (st.children p).length) ∧
    -- the writes
    (∀ s name e, st.define s name e = (Write.define name e).run s st) ∧
    (∀ s values, st.update s values = (Write.update values).run s st) ∧
    (∀ s name v, st.add s name v = (Write.update [(name, v)]).run s st) ∧
    (∀ s name v, st.assign? s name v =
      (st.assignable? name (st.chain s)).map fun (t, slot) => (Write.assign name v slot.kind).run t st) ∧
    -- what they do
    ∀ (w : Write) (s : ScopeId), st.alive s = true →
      w.Effect s st (w.run s st) ∧
      ∀ held, Acc (fun next walk => Walk.Step held w.reach walk next) ⟨w.prepare s st, [s]⟩ ∧
        (∀ walk : Walk, walk.pending ≠ [] → ∃ next, Walk.Step held w.reach walk next) ∧
        ∀ st₁ st', Walk.Steps held w.reach ⟨w.prepare s st, [s]⟩ ⟨st₁, []⟩ →
          Store.Fades held (w.finish s st₁) st' → w.Effect s st st' := by
  have hst := hc.formed hr.formed.store
  refine ⟨fun s p hs hp => ?_, hst.listenerCount_eq, fun _ _ _ => rfl, fun _ _ => rfl, fun _ _ _ => rfl,
    fun _ _ _ => rfl, fun w s hs => ⟨Write.effect_run hst hs w, fun held => ⟨?_, ?_, ?_⟩⟩⟩
  · obtain ⟨up, hup⟩ := List.head?_eq_some_iff.1 hp
    exact ⟨(hst.parented (Store.scope?_eq_of_alive hs) hup).2.1, hst.count_live_listeners hs hp⟩
  · exact Walk.ends (Write.formed_prepare hst w s)
  · exact fun walk => Walk.exists_step held w.reach
  · exact fun st₁ st' hw hf => Write.effect_of_walk (Write.formed_prepare hst w s) hs hw hf

/-- A host of a root that defines a name and a scope below it that has a value and was asked for the name. -/
def asked : Host :=
  let root := (Store.empty.addOrphan 10).2.define 0 "x" (.number (.int 1))
  let h : Host := ⟨(root.addChild 0 [("k", .int 2)]).2, [1, 0], []⟩
  h.after (Eval.lookup 1 "x" h.store)

theorem reachable_asked : Reachable .full asked := by
  have hroot : Reachable .full ⟨(Store.empty.addOrphan 10).2, [0], []⟩ := .step .init (.root 10 true)
  have hdefined : Reachable .full ⟨(Store.empty.addOrphan 10).2.define 0 "x" (.number (.int 1)), [0], []⟩ :=
    .step hroot (.define "x" (by simp) trivial)
  exact .step (.step hdefined (.child (by simp) (knows_int _ "k" 2))) (.lookup "x" (by decide))

/-- The scope in which the definition was evaluated has died. What is written to the root drops the memoized value in
the scope below and keeps the written one. -/
theorem write_effect_of_asked :
    let st := asked.store.sweep [1, 0]
    asked.store.listenerCount 0 = 2 ∧ st.listenerCount 0 = 1 ∧
      (st.scope 1).slots.get? "x" = some ⟨.int 1, .derived⟩ ∧
      ((st.update 0 [("y", .int 3)]).scope 1).slots.get? "x" = none ∧
      ((st.update 0 [("y", .int 3)]).scope 1).slots.get? "k" = some ⟨.int 2, .bound⟩ ∧
      ((st.update 0 [("y", .int 3)]).scope 0).slots.get? "y" = some ⟨.int 3, .bound⟩ ∧
      ((st.update 0 [("y", .int 3)]).scope 0).definitions.get? "x" = some (.number (.int 1)) := by
  intro st
  have hfades := Store.fades_sweep [1, 0] asked.store
  have halive : ∀ t ∈ [1, 0], st.alive t = true := fun t ht => hfades.host ht (by
    rcases List.mem_cons.1 ht with rfl | ht
    · rfl
    · cases List.mem_singleton.1 ht
      rfl)
  have hold : ∀ t ∈ [1, 0], (st.scope t).slots = (asked.store.scope t).slots ∧
      (st.scope t).definitions = (asked.store.scope t).definitions ∧
      (st.scope t).ancestors = (asked.store.scope t).ancestors := by
    intro t ht
    obtain ⟨c', hc'⟩ := Store.alive_iff.1 (halive t ht)
    obtain ⟨c, l, hc, rfl, -⟩ := hfades.scope hc'
    rw [Store.scope_of_scope? hc', Store.scope_of_scope? hc]
    exact ⟨rfl, rfl, rfl⟩
  have hcourse : Store.Course .full asked.store st := .fade hfades (.refl _)
  obtain ⟨-, -, -, hupdate, -, -, heffect⟩ := Reachable.write_effect reachable_asked hcourse
  obtain ⟨he, -⟩ := heffect (.update [("y", .int 3)]) 0 (halive 0 (by simp))
  rw [← hupdate] at he
  obtain ⟨-, hdefs, -⟩ := hold 0 (by simp)
  obtain ⟨hslots₁, -, hanc₁⟩ := hold 1 (by simp)
  have hbelow := he.below (t := 1) ((Store.alive_update ..).trans (halive 1 (by simp)))
    (by rw [Store.chain, hanc₁]; decide) (by decide)
  have hhere := he.here ((Store.alive_update ..).trans (halive 0 (by simp)))
  refine ⟨rfl, by decide +kernel, ?_, ?_, ?_, ?_, ?_⟩
  · rw [hslots₁]
    rfl
  · rw [hbelow.1, hslots₁]
    rfl
  · rw [hbelow.1, hslots₁]
    rfl
  · rw [(hhere "y").1]
    rfl
  · rw [(hhere "x").2, hdefs]
    rfl

end Host
end LazyFormula
