import LazyFormula.Proofs.Writes
/-!
# Histories

What becomes of the store, change by change, with the stores that were there before: an evaluation logs, makes scopes,
memoizes and writes, a host does so between evaluations, and scopes die. A value is memoized only if it was found from
an earlier store, where the scope had no value of the name, and the scope dropped nothing since. Everything that hosts
do is a path through such changes (`Host.Run.path`). A scope that dropped nothing between two stores of a history knows
the same in both, and so do all scopes above it (`Store.Precedes.kept`).
-/
namespace LazyFormula

namespace Store

variable {L : Fragment} {st st₁ st' : Store} {s t : ScopeId}

/-! ## Earlier and later stores -/

/-- **What an earlier store says about a later one.** No scope comes back, and one that dropped nothing has the written
values and the definitions that it had, and so have the scopes above it. -/
structure Precedes (st st' : Store) : Prop where
  size : st.scopes.size ≤ st'.scopes.size
  alive {t : ScopeId} : t < st.scopes.size → st'.alive t = true → st.alive t = true
  chain {t : ScopeId} : st.alive t = true → st'.alive t = true → st'.chain t = st.chain t
  generation {t : ScopeId} : st.alive t = true → st'.alive t = true →
    (st.scope t).generation ≤ (st'.scope t).generation
  kept {t u : ScopeId} : st.alive t = true → st'.alive t = true →
    (st'.scope t).generation = (st.scope t).generation → u ∈ st.chain t →
    (st'.scope u).definitions = (st.scope u).definitions ∧
    ∀ name, (st'.scope u).bound? name = (st.scope u).bound? name

theorem Precedes.trans (h : st.Precedes st₁) (h' : st₁.Precedes st') : st.Precedes st' := by
  have hmid : ∀ {t}, st.alive t = true → st'.alive t = true → st₁.alive t = true := fun ht ht' =>
    h'.alive (Nat.lt_of_lt_of_le (lt_size_of_alive ht) h.size) ht'
  refine ⟨Nat.le_trans h.size h'.size, fun hlt ht' => ?_, fun ht ht' => ?_, fun ht ht' => ?_,
    fun ht ht' hg hu => ?_⟩
  · exact h.alive hlt (h'.alive (Nat.lt_of_lt_of_le hlt h.size) ht')
  · exact (h'.chain (hmid ht ht') ht').trans (h.chain ht (hmid ht ht'))
  · exact Nat.le_trans (h.generation ht (hmid ht ht')) (h'.generation (hmid ht ht') ht')
  · have ht₁ := hmid ht ht'
    have hle := h.generation ht ht₁
    have hle' := h'.generation ht₁ ht'
    obtain ⟨hd, hb⟩ := h.kept ht ht₁ (by omega) hu
    obtain ⟨hd', hb'⟩ := h'.kept ht₁ ht' (by omega) (h.chain ht ht₁ ▸ hu)
    exact ⟨hd'.trans hd, fun name => (hb' name).trans (hb name)⟩

/-- Changes that write nothing to the scopes that were there. -/
theorem precedes_of_bound (hf : st'.Formed L) (hsize : st.scopes.size ≤ st'.scopes.size)
    (hs : ∀ {t c'}, t < st.scopes.size → st'.scope? t = some c' → ∃ c, st.scope? t = some c ∧
      c'.ancestors = c.ancestors ∧ c'.definitions = c.definitions ∧ c'.generation = c.generation ∧
      ∀ name, c'.bound? name = c.bound? name) : st.Precedes st' := by
  have hscope : ∀ {t}, st.alive t = true → st'.alive t = true →
      (st'.scope t).ancestors = (st.scope t).ancestors ∧ (st'.scope t).definitions = (st.scope t).definitions ∧
        (st'.scope t).generation = (st.scope t).generation ∧
        ∀ name, (st'.scope t).bound? name = (st.scope t).bound? name := by
    intro t ht ht'
    obtain ⟨c', hc'⟩ := alive_iff.1 ht'
    obtain ⟨c, hc, hsame⟩ := hs (lt_size_of_alive ht) hc'
    rw [scope_of_scope? hc', scope_of_scope? hc]
    exact hsame
  have hchain : ∀ {t}, st.alive t = true → st'.alive t = true → st'.chain t = st.chain t := fun ht ht' => by
    rw [chain, chain, (hscope ht ht').1]
  refine ⟨hsize, fun hlt ht' => ?_, hchain, fun ht ht' => Nat.le_of_eq (hscope ht ht').2.2.1.symm,
    fun {t u} ht ht' _ hu => ?_⟩
  · obtain ⟨c', hc'⟩ := alive_iff.1 ht'
    obtain ⟨c, hc, -⟩ := hs hlt hc'
    exact alive_of_scope? hc
  · have hu' := (hf.alive_of_mem_chain ht' (hchain ht ht' ▸ hu)).1
    obtain ⟨c', hc'⟩ := alive_iff.1 hu'
    -- a scope above one that was there was there too
    have hlt : u < st.scopes.size := by
      have hle := (hf.alive_of_mem_chain ht' (hchain ht ht' ▸ hu)).2
      exact Nat.lt_of_le_of_lt hle (lt_size_of_alive ht)
    obtain ⟨c, hc, -⟩ := hs hlt hc'
    exact ⟨(hscope (alive_of_scope? hc) hu').2.1, (hscope (alive_of_scope? hc) hu').2.2.2⟩

theorem precedes_memoize (h : st.Formed L) {name : String} {v : Value} (hv : st.Supports L v)
    (hb : (st.scope s).bound? name = none) : st.Precedes (st.put s name v .derived) := by
  refine precedes_of_bound (h.put hv s name .derived) (Nat.le_of_eq (size_modify ..).symm) fun {t c'} _ hc' => ?_
  rcases scope_of_put hc' with ⟨c, hc, rfl, rfl⟩ | ⟨-, hc'⟩
  · rw [scope_of_scope? hc] at hb
    exact ⟨c, hc, rfl, rfl, rfl, Scope.bound?_put_derived _ hb⟩
  · exact ⟨c', hc', rfl, rfl, rfl, fun _ => rfl⟩

/-! ## Quiet changes -/

/-- **Changes that write nothing and drop nothing**: the scopes that were there keep all but their listeners, and the
new ones have written values only. -/
structure Quiet (st st' : Store) : Prop where
  size : st.scopes.size ≤ st'.scopes.size
  scope {t : ScopeId} {c' : Scope} : t < st.scopes.size → st'.scope? t = some c' →
    ∃ c l, st.scope? t = some c ∧ c' = { c with listeners := l }
  newborn {t : ScopeId} {c' : Scope} {name : String} {slot : Slot} : ¬ t < st.scopes.size →
    st'.scope? t = some c' →
    c'.slots.get? name = some slot → slot.kind = .bound

theorem Fades.quiet {held : List ScopeId} (hf : Fades held st st') : st.Quiet st' where
  size := Nat.le_of_eq hf.size.symm
  scope _ hc' := by
    obtain ⟨c, l, hc, he, -⟩ := hf.scope hc'
    exact ⟨c, l, hc, he⟩
  newborn ht hc' _ := absurd (hf.size ▸ lt_size_of_alive (alive_of_scope? hc')) ht

theorem quiet_of_scope? (hsize : st'.scopes.size = st.scopes.size) (hs : ∀ t, st'.scope? t = st.scope? t) :
    st.Quiet st' := (fades_of_scope? [] hsize hs).quiet

theorem quiet_addOrphan (st : Store) (maxDepth : Nat) : st.Quiet (st.addOrphan maxDepth).2 where
  size := by
    rw [addOrphan, Array.size_push]
    exact Nat.le_succ _
  scope {t c'} ht hc' := by
    rw [scope?_addOrphan, if_neg (Nat.ne_of_lt ht)] at hc'
    exact ⟨c', c'.listeners, hc', rfl⟩
  newborn {t c' name slot} ht hc' hslot := by
    rw [scope?_addOrphan] at hc'
    split at hc'
    · cases hc'
      cases hslot
    · exact absurd (lt_size_of_alive (alive_of_scope? hc')) ht

theorem quiet_addChild {p : ScopeId} (hp : st.alive p = true) (values : List (String × Value)) :
    st.Quiet (st.addChild p values).2 where
  size := by
    rw [size_addChild]
    exact Nat.le_succ _
  scope ht hc' := by
    obtain ⟨c, hc, he⟩ := exists_of_addChild hp (Nat.ne_of_lt ht) hc'
    exact ⟨c, _, hc, he⟩
  newborn {t c' name slot} ht hc' hslot := by
    by_cases hts : t = st.scopes.size
    · subst hts
      cases eq_newborn_of_addChild hp hc'
      obtain ⟨x, -, -, rfl⟩ := newborn_slot hslot
      rfl
    · obtain ⟨c, hc, -⟩ := exists_of_addChild hp hts hc'
      exact absurd (lt_size_of_alive (alive_of_scope? hc)) ht

theorem Quiet.precedes (hq : st.Quiet st') (hf : st'.Formed L) : st.Precedes st' := by
  refine precedes_of_bound hf hq.size fun {t c'} ht hc' => ?_
  obtain ⟨c, l, hc, rfl⟩ := hq.scope ht hc'
  exact ⟨c, hc, rfl, rfl, rfl, fun _ => rfl⟩

theorem Quiet.slots (hq : st.Quiet st') (ht : t < st.scopes.size) (ht' : st'.alive t = true) :
    (st'.scope t).slots = (st.scope t).slots := by
  obtain ⟨c', hc'⟩ := alive_iff.1 ht'
  obtain ⟨c, l, hc, rfl⟩ := hq.scope ht hc'
  rw [scope_of_scope? hc', scope_of_scope? hc]

end Store

/-! ## Writes -/

namespace Write

variable {w : Write} {st : Store} {s t : ScopeId} {c : Scope}

/-- What a write logs, the last event first. -/
def events (s : ScopeId) : Write → List Event
  | define name e => [.invalidation s .everything [name], .defining s name e]
  | update values => [.invalidation s .derived (values.map Prod.fst)]
  | assign name _ kind => [.invalidation s .derived [name], .assigning s name kind]

/-- The values that a write stores. -/
def values : Write → List Value
  | define .. => []
  | update values => values.map Prod.snd
  | assign _ v _ => [v]

theorem invalidation_mem_events (w : Write) (s : ScopeId) : .invalidation s w.reach w.names ∈ w.events s := by
  cases w <;> exact List.mem_cons_self

theorem formed_run (h : st.Formed .full) (hv : ∀ v ∈ w.values, st.Supports .full v) :
    (w.run s st).Formed .full := by
  cases w with
  | define name e => exact h.define trivial s name
  | update values => exact h.update (fun x hx => hv x.2 (List.mem_map.2 ⟨x, hx, rfl⟩)) s
  | assign name v kind =>
    have hrec : (st.record (.assigning s name kind)).Formed .full := h.congr rfl fun _ => rfl
    have hv' : (st.record (.assigning s name kind)).Supports .full v := hv v (List.mem_singleton_self v)
    exact (hrec.invalidate s .derived [name]).put (Store.supports_invalidate hv' s _ _) s name kind

theorem size_run (w : Write) (s : ScopeId) (st : Store) : (w.run s st).scopes.size = st.scopes.size := by
  cases w with
  | define name e =>
    rw [run, finish, Store.size_invalidate]
    exact Array.size_modify ..
  | update values => exact Store.size_update ..
  | assign name v kind =>
    rw [run, finish, Store.put, Store.size_modify, Store.size_invalidate]
    rfl

theorem scope?_prepare (w : Write) (s : ScopeId) (hc : st.scope? t = some c) :
    ∃ c', (w.prepare s st).scope? t = some c' ∧
    c'.ancestors = c.ancestors ∧ c'.generation = c.generation := by
  cases w with
  | define name e =>
    rw [prepare, Store.scope?_modify]
    split
    · rename_i hts
      rw [← hts, Store.scope?_record, hc]
      exact ⟨_, rfl, rfl, rfl⟩
    · exact ⟨c, hc, rfl, rfl⟩
  | update | assign => exact ⟨c, hc, rfl, rfl⟩

theorem scope?_finish (w : Write) (s : ScopeId) (hc : st.scope? t = some c) :
    ∃ c', (w.finish s st).scope? t = some c' ∧
    c'.ancestors = c.ancestors ∧ c'.generation = c.generation := by
  cases w with
  | define => exact ⟨c, hc, rfl, rfl⟩
  | update values =>
    rw [finish, Store.scope?_puts]
    split
    · rename_i hts
      rw [← hts, hc]
      exact ⟨_, rfl, rfl, rfl⟩
    · exact ⟨c, hc, rfl, rfl⟩
  | assign name v kind =>
    rw [finish, Store.scope?_put]
    split
    · rename_i hts
      rw [← hts, hc]
      exact ⟨_, rfl, rfl, rfl⟩
    · exact ⟨c, hc, rfl, rfl⟩

/-- A write leaves the place of every scope, and those that it reached drop values. -/
theorem scope?_run (h : st.Formed .full) (hs : st.alive s = true) (w : Write) (hc : st.scope? t = some c) :
    ∃ c', (w.run s st).scope? t = some c' ∧ c'.ancestors = c.ancestors ∧
      (s ∈ st.chain t → c.generation < c'.generation) ∧ (s ∉ st.chain t → c'.generation = c.generation) := by
  obtain ⟨c₀, hc₀, hanc₀, hgen₀⟩ := w.scope?_prepare s hc
  have hprep := formed_prepare h w s
  have hchain : (w.prepare s st).chain t = st.chain t := by
    rw [Store.chain_of_scope? hc₀, Store.chain_of_scope? hc, hanc₀]
  obtain ⟨c₁, hc₁⟩ : ∃ c₁, ((w.prepare s st).invalidate s w.reach w.names).scope? t = some c₁ :=
    Store.alive_iff.1 ((Store.alive_invalidate ..).trans (Store.alive_of_scope? hc₀))
  obtain ⟨c₀', hc₀', hanc₁, hin, hout⟩ := hprep.scope?_of_invalidate ((alive_prepare w s st s).trans hs) hc₁
  cases hc₀.symm.trans hc₀'
  obtain ⟨c₂, hc₂, hanc₂, hgen₂⟩ := w.scope?_finish s hc₁
  rw [hchain] at hin hout
  refine ⟨c₂, hc₂, hanc₂.trans (hanc₁.trans hanc₀), fun hm => ?_, fun hm => ?_⟩
  · rw [hgen₂, ← hgen₀]
    exact (hin hm).generation
  · rw [hgen₂, hout hm, hgen₀]

theorem alive_run (h : st.Formed .full) (hs : st.alive s = true) (w : Write) (ht : st.alive t = true) :
    (w.run s st).alive t = true := by
  obtain ⟨c', hc', -⟩ := scope?_run h hs w (Store.scope?_eq_of_alive ht)
  exact Store.alive_of_scope? hc'

theorem precedes_run (h : st.Formed .full) (hs : st.alive s = true) (w : Write) : st.Precedes (w.run s st) := by
  have heffect := effect_run h hs w
  have hscope : ∀ {t}, st.alive t = true → ((w.run s st).scope t).ancestors = (st.scope t).ancestors ∧
      (s ∈ st.chain t → (st.scope t).generation < ((w.run s st).scope t).generation) ∧
      (s ∉ st.chain t → ((w.run s st).scope t).generation = (st.scope t).generation) := by
    intro t ht
    obtain ⟨c', hc', hsame⟩ := scope?_run h hs w (Store.scope?_eq_of_alive ht)
    rw [Store.scope_of_scope? hc']
    exact hsame
  refine ⟨Nat.le_of_eq (size_run w s st).symm, fun _ => heffect.alive, fun ht _ => ?_, fun {t} ht _ => ?_,
    fun {t u} ht _ hg hu => ?_⟩
  · rw [Store.chain, Store.chain, (hscope ht).1]
  · by_cases hm : s ∈ st.chain t
    · exact Nat.le_of_lt ((hscope ht).2.1 hm)
    · exact Nat.le_of_eq ((hscope ht).2.2 hm).symm
  · -- the write reached neither the scope nor any scope above it
    have hnot : s ∉ st.chain t := fun hm => Nat.ne_of_gt ((hscope ht).2.1 hm) hg
    have hua := (h.alive_of_mem_chain ht hu).1
    obtain ⟨hslots, hdefs⟩ := heffect.elsewhere (alive_run h hs w hua) fun hm => hnot (h.mem_chain_trans ht hu hm)
    exact ⟨hdefs, fun name => by rw [Scope.bound?, Scope.bound?, hslots]⟩

end Write

/-! ## Histories -/

/-- **A store with those that came before it**, the last one first. -/
structure History where
  past : List Store
  now : Store

namespace History

/-- All stores, the last one first. -/
def stores (g : History) : List Store := g.now :: g.past

def next (g : History) (st : Store) : History := ⟨g.stores, st⟩

/-- **One change of the store**, with what it logs. -/
inductive Change (g : History) : List Event → Store → Prop
  /-- No scope changes. -/
  | aside {st : Store} (events : List Event) (hsize : st.scopes.size = g.now.scopes.size)
      (hs : ∀ t, st.scope? t = g.now.scope? t) : Change g events st
  | orphan (maxDepth : Nat) : Change g [] (g.now.addOrphan maxDepth).2
  | child {p : ScopeId} {values : List (String × Value)} (hp : g.now.alive p = true)
      (hv : ∀ x ∈ values, g.now.Supports .full x.2) : Change g [] (g.now.addChild p values).2
  /-- What was found when a look-up began is memoized where nothing was dropped since. -/
  | memoize {began : Store} {s : ScopeId} {name : String} {v : Value} (hbegan : began ∈ g.stores)
      (hs : began.alive s = true) (hslot : (began.scope s).slots.get? name = none)
      (hfound : began.Finds name v (began.chain s)) (halive : g.now.alive s = true)
      (hg : (g.now.scope s).generation = (began.scope s).generation) (hv : g.now.Supports .full v) :
      Change g [] (g.now.put s name v .derived)
  | write {s : ScopeId} (w : Write) (hs : g.now.alive s = true) (hv : ∀ v ∈ w.values, g.now.Supports .full v) :
      Change g (w.events s) (w.run s g.now)
  | fade {held : List ScopeId} {st : Store} (hf : Store.Fades held g.now st) : Change g [] st

/-- **Changes one after the other**, with all that they log. -/
inductive Path (g : History) : List Event → History → Prop
  | refl : Path g [] g
  | step {events new : List Event} {g' : History} {st : Store} (hp : Path g events g') (hc : Change g' new st) :
      Path g (new ++ events) (g'.next st)

variable {g g₁ g' : History} {events new : List Event} {st : Store}

theorem Change.path (hc : Change g events st) : Path g events (g.next st) := by
  have hp := Path.step .refl hc
  rwa [List.append_nil] at hp

theorem Path.trans (hp : Path g events g₁) (hp' : Path g₁ new g') : Path g (new ++ events) g' := by
  induction hp' with
  | refl => exact hp
  | step _ hc ih =>
    rw [List.append_assoc]
    exact .step ih hc

/-- Nothing of the past is forgotten. -/
theorem Path.stores_subset (hp : Path g events g') : g.stores ⊆ g'.stores := by
  induction hp with
  | refl => exact fun _ => id
  | step _ _ ih => exact fun st hst => List.mem_cons_of_mem _ (ih hst)

/-- **A sound history**: its stores are formed, and each says of the last one what an earlier store says. -/
structure Sound (g : History) : Prop where
  formed {st : Store} : st ∈ g.stores → st.Formed .full
  precedes {st : Store} : st ∈ g.stores → st.Precedes g.now

theorem Sound.now (hg : g.Sound) : g.now.Formed .full := hg.formed List.mem_cons_self

/-- A history that begins. -/
theorem sound_of_formed (h : st.Formed .full) : Sound ⟨[], st⟩ := by
  refine ⟨fun hst => ?_, fun hst => ?_⟩
  all_goals rw [List.mem_singleton.1 hst]
  · exact h
  · exact (Store.quiet_of_scope? rfl fun _ => rfl).precedes h

/-- A scope in which nothing was dropped since a look-up of a name found no value there has none that is written. -/
theorem Sound.bound?_of_began (hg : g.Sound) {began : Store} {s : ScopeId} {name : String} (hbegan : began ∈ g.stores)
    (hs : began.alive s = true) (hslot : (began.scope s).slots.get? name = none) (halive : g.now.alive s = true)
    (hgen : (g.now.scope s).generation = (began.scope s).generation) : (g.now.scope s).bound? name = none := by
  rw [((hg.precedes hbegan).kept hs halive hgen List.mem_cons_self).2 name, Scope.bound?_eq_none hslot]

theorem Change.formed (hc : Change g events st) (hg : g.Sound) : st.Formed .full ∧ g.now.Precedes st := by
  have h := hg.now
  cases hc with
  | aside events hsize hs =>
    have hf := h.congr hsize hs
    exact ⟨hf, (Store.quiet_of_scope? hsize hs).precedes hf⟩
  | orphan maxDepth =>
    have hf := h.addOrphan maxDepth
    exact ⟨hf, (Store.quiet_addOrphan _ maxDepth).precedes hf⟩
  | child hp hv =>
    have hf := h.addChild hp hv
    exact ⟨hf, (Store.quiet_addChild hp _).precedes hf⟩
  | memoize hbegan hs hslot _ halive hgen hv =>
    exact ⟨h.put hv _ _ _, Store.precedes_memoize h hv (hg.bound?_of_began hbegan hs hslot halive hgen)⟩
  | write w hs hv => exact ⟨Write.formed_run h hv, Write.precedes_run h hs w⟩
  | fade hf => exact ⟨hf.formed h, hf.quiet.precedes (hf.formed h)⟩

theorem Sound.next (hg : g.Sound) (hc : Change g events st) : (g.next st).Sound := by
  obtain ⟨hf, hp⟩ := hc.formed hg
  refine ⟨fun hst => ?_, fun hst => ?_⟩
  · rcases List.mem_cons.1 hst with rfl | hst
    · exact hf
    · exact hg.formed hst
  · rcases List.mem_cons.1 hst with rfl | hst
    · exact (Store.quiet_of_scope? rfl fun _ => rfl).precedes hf
    · exact (hg.precedes hst).trans hp

/-- **Histories are sound**: what a scope knew stays known as long as it drops nothing. -/
theorem Path.sound (hp : Path g events g') (hg : g.Sound) : g'.Sound := by
  induction hp with
  | refl => exact hg
  | step _ hc ih => exact ih.next hc

end History

/-! ## Evaluations go on with every history -/

namespace Store

variable {own : ScopeId → Prop} {st st₁ st' : Store} {s : ScopeId} {name : String} {v : Value}

/-- **Changes that go on with every history** and log what they say. -/
structure Recorded (own : ScopeId → Prop) (st st' : Store) : Prop where
  moves : Moves .full own st st'
  path (past : List Store) : ∃ events past', History.Path ⟨past, st⟩ events ⟨past', st'⟩ ∧
    st'.log = events ++ st.log

theorem Recorded.trans (h : Recorded own st st₁) (h' : Recorded own st₁ st') : Recorded own st st' := by
  refine ⟨h.moves.trans h'.moves, fun past => ?_⟩
  obtain ⟨events, past₁, hp, hlog⟩ := h.path past
  obtain ⟨events', past', hp', hlog'⟩ := h'.path past₁
  exact ⟨_, past', hp.trans hp', by rw [hlog', hlog, List.append_assoc]⟩

theorem Move.recorded (hm : Move .full own st st') (events : List Event)
    (hc : ∀ past, History.Change ⟨past, st⟩ events st') (hlog : st'.log = events ++ st.log) :
    Recorded own st st' :=
  ⟨hm.moves, fun past => ⟨events, _, (hc past).path, hlog⟩⟩

theorem log_addChild (st : Store) (p : ScopeId) (values : List (String × Value)) :
    (st.addChild p values).2.log = st.log := rfl

/-- What is written is logged. -/
theorem log_write (w : Write) (s : ScopeId) (st : Store) : (w.run s st).log = w.events s ++ st.log := by
  cases w with
  | define name e => exact log_invalidate ..
  | update values => exact log_update ..
  | assign name v kind => exact log_invalidate ..

instance : Invariant .full own (Recorded own) where
  moves h := h.moves
  refl st := ⟨.refl _, fun past => ⟨[], past, .refl, rfl⟩⟩
  trans := .trans
  cacheHit st s name := (Move.record fun _ _ => id).recorded [_] (fun _ => .aside _ rfl fun _ => rfl) rfl
  forcing _ _ _ := (Move.record fun _ _ => id).recorded [_] (fun _ => .aside _ rfl fun _ => rfl) rfl
  child _ hp hv := (Move.child hp hv).recorded [] (fun _ => .child hp hv) rfl
  memoize hm hs hslot hfound hg hv hb := by
    refine ⟨hm.moves.trans (Move.memoize (hm.moves.alive hs) hv hb).moves, fun past => ?_⟩
    obtain ⟨events, past', hp, hlog⟩ := hm.path past
    have hbegan := hp.stores_subset List.mem_cons_self
    exact ⟨events, _, .step hp (.memoize hbegan hs hslot hfound (hm.moves.alive hs) hg hv), hlog⟩
  bind {st s name v} _ hs ho hv := by
    refine (Move.bind hs ho hv).recorded _ (fun past => ?_) (log_write (.update [(name, v)]) s st)
    exact .write (.update [(name, v)]) hs (List.forall_mem_singleton.2 hv)
  assign {st st' s name v} hst hs hL hv ha := by
    have hmove : Move .full own st st' := .assign hs hL hv ha
    obtain ⟨⟨t, slot⟩, hfound, rfl⟩ := Option.map_eq_some_iff.1 ha
    obtain ⟨below, above, hchain, -⟩ := assignable?_eq_some hfound
    have ht : st.alive t = true := (hst.formed.alive_of_mem_chain hs (by simp [hchain])).1
    refine hmove.recorded _ (fun past => ?_) (log_write (.assign name v slot.kind) t st)
    exact .write (.assign name v slot.kind) ht (List.forall_mem_singleton.2 hv)
  count st b := (Move.count b).recorded [] (fun _ => .aside _ rfl fun _ => rfl) rfl
  fresh st := Move.fresh.recorded [] (fun _ => .aside _ rfl fun _ => rfl) rfl
  depth st tree f := (Move.depth tree f).recorded [] (fun _ => .aside _ rfl fun _ => rfl) rfl

theorem log_sweepRounds (host : List ScopeId) : ∀ (rounds : Nat) (st : Store),
    (sweepRounds host rounds st).log = st.log
  | 0, _ => rfl
  | rounds + 1, st => by
    rw [sweepRounds]
    split
    · rfl
    · exact log_sweepRounds host rounds (st.keepHeld host)

theorem log_sweep (st : Store) (host : List ScopeId) : (st.sweep host).log = st.log := log_sweepRounds host _ st

end Store

/-! ## Hosts go on with every history -/

namespace Host

variable {L : Fragment} {h h' : Host} {st : Store} {events : List Event}

/-- **Steps of a host one after the other**, with all that they log. The log may be taken away in between. -/
inductive Run (L : Fragment) (h : Host) : List Event → Host → Prop
  | refl : Run L h [] h
  | step {events new : List Event} {h₁ h' : Host} (hr : Run L h events h₁) (hs : Step L h₁ h')
      (hlog : h'.store.log = new ++ h₁.store.log) : Run L h (new ++ events) h'
  | log {events : List Event} {h₁ : Host} (hr : Run L h events h₁) (log : List Event) :
      Run L h events { h₁ with store := { h₁.store with log := log } }

theorem Run.formed (hr : Run L h events h') (hf : h.Formed L) : h'.Formed L := by
  induction hr with
  | refl => exact hf
  | step _ hs _ ih => exact hs.formed ih
  | log _ log ih => exact (Step.log log).formed ih

open History in
/-- A new root is made, filled and given a child. -/
theorem path_addRoot (maxDepth : Nat) (bare : Bool) (past : List Store) :
    ∃ events past', Path ⟨past, st⟩ events ⟨past', (Session.addRoot st maxDepth bare).2⟩ ∧
      (Session.addRoot st maxDepth bare).2.log = events ++ st.log := by
  cases bare with
  | true => exact ⟨[], _, (Change.orphan maxDepth).path, rfl⟩
  | false =>
    let orphan := (st.addOrphan maxDepth).2
    let numbered : Store := { orphan with fresh := st.fresh + Root.actions.length }
    let filling := Write.update (Root.standardValues st.fresh)
    have hfilling : st.withBuiltins maxDepth = filling.run st.scopes.size numbered := rfl
    have hsupports : ∀ v ∈ filling.values, numbered.Supports .full v := fun v hv => by
      obtain ⟨x, hx, rfl⟩ := List.mem_map.1 hv
      exact Store.supports_of_procedures_eq_nil (Store.procedures_standardValues _ x hx)
    have horphan : Path ⟨past, st⟩ [] ⟨st :: past, orphan⟩ := (Change.orphan maxDepth).path
    have haside : Change ⟨st :: past, orphan⟩ [] numbered := .aside [] rfl fun _ => rfl
    have hwrite : Change ⟨orphan :: st :: past, numbered⟩ (filling.events st.scopes.size)
        (st.withBuiltins maxDepth) := by
      rw [hfilling]
      exact .write filling (Store.alive_addOrphan_size st maxDepth) hsupports
    have hchild : Change ⟨numbered :: orphan :: st :: past, st.withBuiltins maxDepth⟩ []
        ((st.withBuiltins maxDepth).addChild st.scopes.size []).2 :=
      .child (Store.alive_withBuiltins_size st maxDepth) nofun
    refine ⟨filling.events st.scopes.size, _, ((horphan.step haside).step hwrite).step hchild, ?_⟩
    have hroot : Session.addRoot st maxDepth false = (st.withBuiltins maxDepth).addChild st.scopes.size [] := rfl
    rw [hroot, Store.log_addChild, hfilling]
    exact Store.log_write filling st.scopes.size numbered

open History in
/-- **A step of a host is a path** through changes that it logs, or concerns the log alone. -/
theorem Step.path (hs : Step .full h h') (hf : h.Formed .full) (past : List Store) :
    (∃ events past', Path ⟨past, h.store⟩ events ⟨past', h'.store⟩ ∧
      h'.store.log = events ++ h.store.log) ∨
      ∃ log, h' = { h with store := { h.store with log := log } } := by
  have haside : ∀ {st : Store}, st.scopes.size = h.store.scopes.size → (∀ t, st.scope? t = h.store.scope? t) →
      st.log = h.store.log →
      ∃ events past', Path ⟨past, h.store⟩ events ⟨past', st⟩ ∧ st.log = events ++ h.store.log :=
    fun hsize hs hlog => ⟨[], _, (Change.aside [] hsize hs).path, hlog⟩
  have hwrite : ∀ (w : Write) {s}, s ∈ h.scopes → (∀ v ∈ w.values, h.store.Supports .full v) →
      ∃ events past', Path ⟨past, h.store⟩ events ⟨past', w.run s h.store⟩ ∧
        (w.run s h.store).log = events ++ h.store.log :=
    fun w s hs hv => ⟨_, _, (Change.write w (hf.scopes hs) hv).path, Store.log_write w s h.store⟩
  have heval : ∀ {x : Eval Value},
      Eval.Yields (Store.Recorded fun _ => True) h.store x (fun v st => st.Supports .full v) →
        ∃ events past', Path ⟨past, h.store⟩ events ⟨past', (h.after (x h.store)).store⟩ ∧
          (h.after (x h.store)).store.log = events ++ h.store.log := fun hx => hx.1.path past
  cases hs with
  | root maxDepth bare => exact .inl (path_addRoot maxDepth bare past)
  | child hs hv =>
    exact .inl ⟨[], _, (Change.child (hf.scopes hs) fun x hx => hf.knows (hv x hx)).path, rfl⟩
  | parent | fresh | drop => exact .inl (haside rfl (fun _ => rfl) rfl)
  | define name hs he => exact .inl (hwrite (.define name _) hs nofun)
  | @update s values hs hv =>
    refine .inl (hwrite (.update values) hs fun v hm => ?_)
    obtain ⟨x, hx, rfl⟩ := List.mem_map.1 hm
    exact hf.knows (hv x hx)
  | assign hs hL hv ha =>
    have hrec : Store.Recorded (fun _ => True) h.store _ :=
      Store.Invariant.assign hf.ready (hf.scopes hs) hL (hf.knows hv) ha
    exact .inl (hrec.path past)
  | evaluate hs he => exact .inl (heval (Eval.evaluate_yields hf.ready he (hf.scopes hs)))
  | evaluateIn hs he => exact .inl (heval (Eval.evaluateIn_yields hf.ready he (hf.scopes hs) trivial))
  | lookup name hs => exact .inl (heval (Eval.lookup_yields hf.ready (hf.scopes hs) name))
  | call hc ha => exact .inl (heval (Eval.call_yields hf.ready (hf.knows hc) fun v hv => hf.knows (ha v hv)))
  | sweep =>
    refine .inl ⟨[], _, (Change.fade (Store.fades_sweep h.held h.store)).path, ?_⟩
    exact Store.log_sweep h.store h.held
  | log events => exact .inr ⟨events, rfl⟩

/-- **A run of a host is a path** through changes that it logs. -/
theorem Run.path (hr : Run .full h events h') (hf : h.Formed .full) (past : List Store) :
    ∃ events' past', History.Path ⟨past, h.store⟩ events' ⟨past', h'.store⟩ ∧ events' ⊆ events := by
  induction hr with
  | refl => exact ⟨[], past, .refl, fun _ => id⟩
  | step hr hs hlog ih =>
    obtain ⟨events₁, past₁, hp, hsub⟩ := ih
    rcases hs.path (hr.formed hf) past₁ with ⟨new, past', hp', hlog'⟩ | ⟨log, rfl⟩
    · refine ⟨_, past', hp.trans hp', fun e he => ?_⟩
      rw [List.append_cancel_right (hlog.symm.trans hlog')]
      exact (List.mem_append.1 he).elim (List.mem_append_left _) fun he => List.mem_append_right _ (hsub he)
    · exact ⟨_, _, .step hp (.aside [] rfl fun _ => rfl), fun e he => List.mem_append_right _ (hsub he)⟩
  | log _ log ih =>
    obtain ⟨events₁, past₁, hp, hsub⟩ := ih
    exact ⟨_, _, .step hp (.aside [] rfl fun _ => rfl), hsub⟩

/-- **Whatever a host does is a run.** -/
theorem Reachable.run (hr : Reachable .full h) : ∃ events, Run .full ⟨.empty, [], []⟩ events h := by
  induction hr with
  | init => exact ⟨[], .refl⟩
  | step hr hs ih =>
    obtain ⟨events, ih⟩ := ih
    rcases hs.path hr.formed [] with ⟨new, past', -, hlog⟩ | ⟨log, rfl⟩
    · exact ⟨_, .step ih hs hlog⟩
    · exact ⟨_, .log ih log⟩

end Host
end LazyFormula
