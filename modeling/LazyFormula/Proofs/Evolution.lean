import LazyFormula.Proofs.Moves
/-!
# What an evaluation leaves of the scopes that were there

No scope dies during an evaluation. A scope keeps its place among the others and its definitions, and its written
values change only by writes, each of which is logged and makes the scope drop what it memoized. So a scope that has
dropped nothing since a look-up began still has the written values it had then, which is what `memoize` relies on.
-/
namespace LazyFormula

variable {L : Fragment}

/-- A scope before and after changes that an evaluation made, with what was logged meanwhile. -/
structure Scope.Evolves (events : List Event) (t : ScopeId) (c c' : Scope) : Prop where
  tree : c'.tree = c.tree
  ancestors : c'.ancestors = c.ancestors
  definitions : c'.definitions = c.definitions
  generation : c.generation ≤ c'.generation
  /-- Whoever writes at a scope makes it drop values. -/
  dropped {name : String} : (∃ e ∈ events, e.Writes t name) → c.generation < c'.generation
  bound {name : String} : (∀ e ∈ events, ¬ e.Writes t name) → c'.bound? name = c.bound? name

namespace Scope.Evolves

variable {events events' : List Event} {t : ScopeId} {c c₁ c' : Scope}

/-- A scope that changes only by what it memoizes and who listens to it. -/
theorem of_bound (hw : ∀ e ∈ events, ∀ name, ¬ e.Writes t name) (htree : c'.tree = c.tree)
    (hanc : c'.ancestors = c.ancestors) (hdef : c'.definitions = c.definitions) (hgen : c'.generation = c.generation)
    (hb : ∀ name, c'.bound? name = c.bound? name) : c.Evolves events t c' :=
  ⟨htree, hanc, hdef, Nat.le_of_eq hgen.symm, fun ⟨e, he, h⟩ => absurd h (hw e he _), fun _ => hb _⟩

theorem trans (h : c.Evolves events t c₁) (h' : c₁.Evolves events' t c') : c.Evolves (events' ++ events) t c' where
  tree := h'.tree.trans h.tree
  ancestors := h'.ancestors.trans h.ancestors
  definitions := h'.definitions.trans h.definitions
  generation := Nat.le_trans h.generation h'.generation
  dropped := by
    rintro name ⟨e, he, hw⟩
    rcases List.mem_append.1 he with he | he
    · exact Nat.lt_of_le_of_lt h.generation (h'.dropped ⟨e, he, hw⟩)
    · exact Nat.lt_of_lt_of_le (h.dropped ⟨e, he, hw⟩) h'.generation
  bound hn := by
    rw [h'.bound fun e he => hn e (List.mem_append_left _ he), h.bound fun e he => hn e (List.mem_append_right _ he)]

/-- As long as a scope drops nothing, its written values stay. -/
theorem bound?_eq (h : c.Evolves events t c') (hg : c'.generation = c.generation) (name : String) :
    c'.bound? name = c.bound? name := by
  refine h.bound fun e he hw => ?_
  have := h.dropped ⟨e, he, hw⟩
  rw [hg] at this
  exact Nat.lt_irrefl _ this

end Scope.Evolves

namespace Store

variable {events events' : List Event} {own : ScopeId → Prop} {st st₁ st' : Store} {s : ScopeId}
  {name : String} {v : Value}

/-- **A store before and after changes that an evaluation made**: the log grew, and of the scopes that were there none
died. -/
structure Evolves (st : Store) (events : List Event) (st' : Store) : Prop where
  log : st'.log = events ++ st.log
  size : st.scopes.size ≤ st'.scopes.size
  scope {t : ScopeId} {c : Scope} : st.scope? t = some c → ∃ c', st'.scope? t = some c' ∧ c.Evolves events t c'

theorem Evolves.trans (h : st.Evolves events st₁) (h' : st₁.Evolves events' st') :
    st.Evolves (events' ++ events) st' where
  log := by rw [h'.log, h.log, List.append_assoc]
  size := Nat.le_trans h.size h'.size
  scope hc := by
    obtain ⟨c₁, hc₁, he₁⟩ := h.scope hc
    obtain ⟨c', hc', he'⟩ := h'.scope hc₁
    exact ⟨c', hc', he₁.trans he'⟩

theorem Evolves.alive (h : st.Evolves events st') {t : ScopeId} (ht : st.alive t = true) : st'.alive t = true := by
  obtain ⟨c, hc⟩ := alive_iff.1 ht
  obtain ⟨c', hc', -⟩ := h.scope hc
  exact alive_of_scope? hc'

theorem Evolves.chain (h : st.Evolves events st') {t : ScopeId} (ht : st.alive t = true) :
    st'.chain t = st.chain t := by
  obtain ⟨c, hc⟩ := alive_iff.1 ht
  obtain ⟨c', hc', he⟩ := h.scope hc
  rw [chain_of_scope? hc', chain_of_scope? hc, he.ancestors]

/-- What is not written stays. -/
theorem Evolves.unwritten (h : st.Evolves events st') {t : ScopeId} (ht : st.alive t = true)
    (hw : ∀ e ∈ events, ¬ e.Writes t name) : (st'.scope t).definitions = (st.scope t).definitions ∧
      (st'.scope t).bound? name = (st.scope t).bound? name := by
  obtain ⟨c', hc', he⟩ := h.scope (scope?_eq_of_alive ht)
  rw [scope_of_scope? hc']
  exact ⟨he.definitions, he.bound hw⟩

/-- Changes that write nothing. -/
theorem evolves_of_bound {st st' : Store} (hw : ∀ e ∈ events, ∀ t name, ¬ e.Writes t name)
    (hlog : st'.log = events ++ st.log) (hsize : st.scopes.size ≤ st'.scopes.size)
    (hs : ∀ {t c}, st.scope? t = some c → ∃ c', st'.scope? t = some c' ∧ c'.tree = c.tree ∧
      c'.ancestors = c.ancestors ∧ c'.definitions = c.definitions ∧ c'.generation = c.generation ∧
      ∀ n, c'.bound? n = c.bound? n) : st.Evolves events st' where
  log := hlog
  size := hsize
  scope {t c} hc := by
    obtain ⟨c', hc', htree, hanc, hdef, hgen, hb⟩ := hs hc
    exact ⟨c', hc', .of_bound (fun e he => hw e he t) htree hanc hdef hgen hb⟩

/-- Changes that leave all scopes. -/
theorem evolves_of_scopes_eq {st st' : Store} (hw : ∀ e ∈ events, ∀ t name, ¬ e.Writes t name)
    (hlog : st'.log = events ++ st.log) (hs : st'.scopes = st.scopes) : st.Evolves events st' :=
  evolves_of_bound hw hlog (Nat.le_of_eq (by rw [hs])) fun {t c} hc =>
    ⟨c, by rw [scope?, hs]; exact hc, rfl, rfl, rfl, rfl, fun _ => rfl⟩

@[simp] theorem log_foldl_clear (reach : Reach) : ∀ (l : List ScopeId) (st : Store),
    (l.foldl (fun st t => st.modify t (·.clear reach)) st).log = st.log
  | [], _ => rfl
  | u :: l, st => by rw [List.foldl_cons, log_foldl_clear reach l]; rfl

theorem log_invalidate (st : Store) (s : ScopeId) (reach : Reach) (written : List String) :
    (st.invalidate s reach written).log = .invalidation s reach written :: st.log := by
  rw [invalidate, log_record, log_foldl_clear]

theorem log_puts (s : ScopeId) : ∀ (values : List (String × Value)) (st : Store),
    (values.foldl (fun st (name, v) => st.put s name v .bound) st).log = st.log
  | [], _ => rfl
  | x :: values, st => log_puts s values (st.put s x.1 x.2 .bound)

theorem log_update (st : Store) (s : ScopeId) (values : List (String × Value)) :
    (st.update s values).log = .invalidation s .derived (values.map Prod.fst) :: st.log :=
  (log_puts s values _).trans (log_invalidate ..)

/-- A name is written at a scope, and what was memoized there and below is dropped. -/
theorem evolves_write (st : Store) (s : ScopeId) (name : String) (v : Value) (kind : SlotKind) :
    st.Evolves [.invalidation s .derived [name]] ((st.invalidate s .derived [name]).put s name v kind) where
  log := log_invalidate ..
  size := Nat.le_of_eq (by rw [put, size_modify, size_invalidate])
  scope {t c} hc := by
    -- the scope after the values were dropped
    have hinv : ∃ c₁, (st.invalidate s .derived [name]).scope? t = some c₁ ∧ c₁.tree = c.tree ∧
        c₁.ancestors = c.ancestors ∧ c₁.definitions = c.definitions ∧ c.generation ≤ c₁.generation ∧
        (t = s → c.generation < c₁.generation) ∧ ∀ n, c₁.bound? n = c.bound? n := by
      by_cases ht : t ∈ st.reach s
      · obtain ⟨c₁, hc₁, hd⟩ := dropped_of_mem_reach ht hc .derived [name]
        exact ⟨c₁, hc₁, hd.tree, hd.ancestors, hd.definitions, Nat.le_of_lt hd.generation, fun _ => hd.generation,
          hd.bound?⟩
      · refine ⟨c, by rw [scope?_invalidate_of_not_mem ht, hc], rfl, rfl, rfl, Nat.le_refl _, ?_, fun _ => rfl⟩
        rintro rfl
        exact absurd (self_mem_reach st t) ht
    obtain ⟨c₁, hc₁, htree, hanc, hdef, hgen, hlt, hbound⟩ := hinv
    have hwrites : ∀ {n}, (∃ e ∈ [Event.invalidation s .derived [name]], e.Writes t n) ↔
        s = t ∧ n = name := by
      intro n
      simp [Event.Writes]
    rw [scope?_put]
    by_cases ht : t = s
    · subst ht
      rw [if_pos rfl, hc₁]
      refine ⟨_, rfl, htree, hanc, hdef, hgen, fun _ => hlt rfl, fun {n} hn => ?_⟩
      have hne : n ≠ name := fun h => by
        obtain ⟨e, he, hw⟩ := hwrites.2 ⟨rfl, h⟩
        exact hn e he hw
      rw [← hbound, Scope.bound?, Scope.get?_put, if_neg hne, Scope.bound?]
    · rw [if_neg ht]
      exact ⟨c₁, hc₁, htree, hanc, hdef, hgen, fun hw => absurd (hwrites.1 hw).1.symm ht, fun _ => hbound _⟩

theorem Move.evolves (h : Move L own st st') : ∃ events, st.Evolves events st' := by
  cases h with
  | @record e he =>
    refine ⟨[e], evolves_of_scopes_eq (fun e' h => ?_) rfl rfl⟩
    rw [List.mem_singleton.1 h]
    exact he
  | @child p values hp hv =>
    refine ⟨[], evolves_of_bound nofun rfl (Nat.le_of_lt (by rw [size_addChild]; exact Nat.lt_succ_self _)) ?_⟩
    intro t c hc
    obtain ⟨l, hc'⟩ := scope?_addChild_of_scope? hp values hc
    exact ⟨_, hc', rfl, rfl, rfl, rfl, fun _ => rfl⟩
  | @memoize s name v hs hv hb =>
    refine ⟨[], evolves_of_bound nofun rfl (Nat.le_of_eq (by rw [put, size_modify])) ?_⟩
    intro t c hc
    rw [scope?_put]
    split
    · rename_i ht
      subst ht
      rw [scope_of_scope? hc] at hb
      rw [hc]
      exact ⟨_, rfl, rfl, rfl, rfl, rfl, Scope.bound?_put_derived _ hb⟩
    · exact ⟨c, hc, rfl, rfl, rfl, rfl, fun _ => rfl⟩
  | bind hs ho hv => exact ⟨_, evolves_write ..⟩
  | @assign s name v _ hs hL hv ha =>
    obtain ⟨⟨t, slot⟩, -, rfl⟩ := Option.map_eq_some_iff.1 ha
    have hr : st.Evolves [.assigning t name slot.kind] (st.record (.assigning t name slot.kind)) := by
      refine evolves_of_scopes_eq (fun e h => ?_) rfl rfl
      rw [List.mem_singleton.1 h]
      exact fun _ _ => id
    exact ⟨_, hr.trans (evolves_write ..)⟩
  | count b | fresh | depth tree f => exact ⟨[], evolves_of_scopes_eq nofun rfl rfl⟩

/-- **What an evaluation leaves of the scopes that were there.** -/
theorem Moves.evolves (h : Moves L own st st') : ∃ events, st.Evolves events st' := by
  induction h with
  | refl st => exact ⟨[], evolves_of_scopes_eq nofun rfl rfl⟩
  | head hm _ ih =>
    obtain ⟨events, he⟩ := hm.evolves
    obtain ⟨events', he'⟩ := ih
    exact ⟨events' ++ events, he.trans he'⟩

end Store
end LazyFormula
