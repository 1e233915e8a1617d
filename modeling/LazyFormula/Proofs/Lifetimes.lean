import LazyFormula.Proofs.Formed
import LazyFormula.Store.Lifetime
/-!
# Formed stores after a sweep

A round of a sweep keeps what the host and the living scopes hold. What a living scope holds are its parent and the
scopes of the procedures in it, so no scope loses what it needs: the store stays formed (`Formed.sweep`), and what the
host holds stays alive.
-/
namespace LazyFormula
namespace Store

variable {L : Fragment} {st st' : Store} {s : ScopeId} {host : List ScopeId}

/-! ## Marks -/

/-- Marks that are set stay set. -/
theorem mark_of_mem : ∀ {ids : List ScopeId} {marks : Array Bool}, s < marks.size →
    s ∈ ids ∨ marks[s]? = some true → (ids.foldl (·.setIfInBounds · true) marks)[s]? = some true
  | [], _, _, h => h.resolve_left List.not_mem_nil
  | t :: ids, marks, hlt, h => by
    rw [List.foldl_cons]
    refine mark_of_mem (by rw [Array.size_setIfInBounds]; exact hlt) ?_
    rw [Array.getElem?_setIfInBounds]
    by_cases ht : t = s
    · rw [if_pos ht, if_pos (ht ▸ hlt)]
      exact .inr rfl
    · rw [if_neg ht]
      exact h.imp_left fun h => (List.mem_cons.1 h).resolve_left (Ne.symm ht)

theorem size_mark (ids : List ScopeId) (marks : Array Bool) :
    (ids.foldl (·.setIfInBounds · true) marks).size = marks.size := by
  induction ids generalizing marks with
  | nil => rfl
  | cons t ids ih => rw [List.foldl_cons, ih, Array.size_setIfInBounds]

/-- Whatever a list of scopes holds gets a mark. -/
theorem mark_of_held : ∀ {cs : List (Option Scope)} {marks : Array Bool}, s < marks.size →
    (∃ c, some c ∈ cs ∧ s ∈ c.held) ∨ marks[s]? = some true →
      (cs.foldl (fun marks c => (c.map Scope.held |>.getD []).foldl (·.setIfInBounds · true) marks) marks)[s]? =
        some true
  | [], _, _, h => h.resolve_left fun ⟨_, hc, _⟩ => nomatch hc
  | d :: cs, marks, hlt, h => by
    rw [List.foldl_cons]
    refine mark_of_held (by rw [size_mark]; exact hlt) ?_
    rcases h with ⟨c, hc, hs⟩ | h
    · rcases List.mem_cons.1 hc with rfl | hc
      · exact .inr (mark_of_mem hlt (.inl hs))
      · exact .inl ⟨c, hc, hs⟩
    · exact .inr (mark_of_mem hlt (.inr h))

theorem heldMarks_of_held (hlt : s < st.scopes.size)
    (h : s ∈ host ∨ ∃ t c, st.scope? t = some c ∧ s ∈ c.held) : (st.heldMarks host)[s]? = some true := by
  unfold heldMarks
  have hsize : s < (host.foldl (·.setIfInBounds · true) (Array.replicate st.scopes.size false)).size := by
    rw [size_mark, Array.size_replicate]
    exact hlt
  rw [← Array.foldl_toList]
  refine mark_of_held hsize ?_
  rcases h with h | ⟨t, c, hc, hs⟩
  · exact .inr (mark_of_mem (by rw [Array.size_replicate]; exact hlt) (.inl h))
  · exact .inl ⟨c, by rw [Array.mem_toList_iff]; exact Array.mem_of_getElem? (Option.join_eq_some_iff.1 hc), hs⟩

/-! ## Rounds -/

/-- **Scopes that die leave behind no one who needs them.** -/
structure Outlives (host : List ScopeId) (st st' : Store) : Prop where
  size : st'.scopes.size = st.scopes.size
  log : st'.log = st.log
  scope {t : ScopeId} {c : Scope} : st'.scope? t = some c → st.scope? t = some c
  held {t u : ScopeId} {c : Scope} : st'.scope? t = some c → u ∈ c.held → st.alive u = true → st'.alive u = true
  host {t : ScopeId} : t ∈ host → st.alive t = true → st'.alive t = true

theorem scope?_keepHeld (t : ScopeId) :
    (st.keepHeld host).scope? t = if (st.heldMarks host)[t]?.getD false then st.scope? t else none := by
  rw [keepHeld, scope?, scope?, Array.getElem?_mapIdx]
  cases st.scopes[t]? with
  | none => split <;> rfl
  | some c =>
    rw [Option.map_some, Option.join_some]
    split <;> rfl

theorem outlives_keepHeld (host : List ScopeId) (st : Store) : Outlives host st (st.keepHeld host) := by
  have halive : ∀ {u}, st.alive u = true → (u ∈ host ∨ ∃ t c, st.scope? t = some c ∧ u ∈ c.held) →
      (st.keepHeld host).alive u = true := by
    intro u hu h
    rw [alive, scope?_keepHeld, heldMarks_of_held (lt_size_of_alive hu) h]
    exact hu
  have hscope : ∀ {t c}, (st.keepHeld host).scope? t = some c → st.scope? t = some c := by
    intro t c hc
    rw [scope?_keepHeld] at hc
    split at hc
    · exact hc
    · cases hc
  exact ⟨Array.size_mapIdx .., rfl, hscope, fun hc hu ha => halive ha (.inr ⟨_, _, hscope hc, hu⟩),
    fun ht ha => halive ha (.inl ht)⟩

theorem Outlives.trans {st₁ : Store} (h : Outlives host st st₁) (h' : Outlives host st₁ st') :
    Outlives host st st' where
  size := h'.size.trans h.size
  log := h'.log.trans h.log
  scope hc := h.scope (h'.scope hc)
  held hc hu ha := h'.held hc hu (h.held (h'.scope hc) hu ha)
  host ht ha := h'.host ht (h.host ht ha)

theorem outlives_sweepRounds (host : List ScopeId) : ∀ (rounds : Nat) (st : Store),
    Outlives host st (sweepRounds host rounds st)
  | 0, st => ⟨rfl, rfl, id, fun _ _ ha => ha, fun _ ha => ha⟩
  | rounds + 1, st => by
    rw [sweepRounds]
    split
    · exact outlives_keepHeld host st
    · exact (outlives_keepHeld host st).trans (outlives_sweepRounds host rounds _)

theorem held_parent {c : Scope} {p : ScopeId} (h : c.parent? = some p) : p ∈ c.held := by
  rw [Scope.held, h]
  exact List.mem_append_left _ (List.mem_singleton_self _)

theorem held_procedure {c : Scope} {name : String} {slot : Slot} {p : Procedure} (h : c.slots.get? name = some slot)
    (hp : p ∈ slot.value.procedures) (hh : p.hold = .strong) : p.scope ∈ c.held := by
  refine List.mem_append_right _ (List.mem_flatMap.2 ⟨slot, Bindings.mem_values.2 ⟨name, h⟩, ?_⟩)
  exact List.mem_map.2 ⟨p, List.mem_filter.2 ⟨hp, by simp [hh]⟩, rfl⟩

/-! ## Listeners that died -/

/-- **Scopes die, and of their parents some forget them.** Nobody is left behind who needs them. -/
structure Fades (host : List ScopeId) (st st' : Store) : Prop where
  size : st'.scopes.size = st.scopes.size
  scope {t : ScopeId} {c' : Scope} : st'.scope? t = some c' → ∃ c l, st.scope? t = some c ∧
    c' = { c with listeners := l } ∧ l.Sublist c.listeners ∧ ∀ u ∈ c.listeners, st'.alive u = true → u ∈ l
  held {t u : ScopeId} {c' : Scope} : st'.scope? t = some c' → u ∈ c'.held → st.alive u = true →
    st'.alive u = true
  host {t : ScopeId} : t ∈ host → st.alive t = true → st'.alive t = true

theorem Fades.alive (hf : Fades host st st') {t : ScopeId} (ht : st'.alive t = true) : st.alive t = true := by
  obtain ⟨c', hc'⟩ := alive_iff.1 ht
  obtain ⟨c, -, hc, -⟩ := hf.scope hc'
  exact alive_of_scope? hc

/-- Nothing needs to happen. -/
theorem fades_of_scope? (host : List ScopeId) (hsize : st'.scopes.size = st.scopes.size)
    (h : ∀ t, st'.scope? t = st.scope? t) : Fades host st st' where
  size := hsize
  scope {t c'} hc' := ⟨c', c'.listeners, h t ▸ hc', rfl, .refl _, fun _ hu _ => hu⟩
  held _ _ ha := by rwa [Store.alive, h]
  host _ ha := by rwa [Store.alive, h]

theorem Outlives.fades (ho : Outlives host st st') : Fades host st st' where
  size := ho.size
  scope {_ c'} hc' := ⟨c', c'.listeners, ho.scope hc', rfl, .refl _, fun _ hu _ => hu⟩
  held := ho.held
  host := ho.host

theorem Fades.trans {st₁ : Store} (h : Fades host st st₁) (h' : Fades host st₁ st') : Fades host st st' where
  size := h'.size.trans h.size
  scope hc' := by
    obtain ⟨c₁, l', hc₁, rfl, hl', hmem'⟩ := h'.scope hc'
    obtain ⟨c, l, hc, rfl, hl, hmem⟩ := h.scope hc₁
    exact ⟨c, l', hc, rfl, hl'.trans hl, fun u hu ha => hmem' u (hmem u hu (h'.alive ha)) ha⟩
  held hc' hu ha := by
    obtain ⟨c₁, l', hc₁, rfl, -⟩ := h'.scope hc'
    exact h'.held hc' hu (h.held hc₁ hu ha)
  host ht ha := h'.host ht (h.host ht ha)

/-- **The store stays formed when scopes die.** -/
theorem Fades.formed (hf : Fades host st st') (h : st.Formed L) : st'.Formed L where
  parented {s p c' up} hc' hp := by
    obtain ⟨c, l, hc, rfl, -⟩ := hf.scope hc'
    obtain ⟨hlt, hpa, hup⟩ := h.parented hc hp
    have hpa' := hf.held hc' (held_parent (by rw [Scope.parent?, hp]; rfl)) hpa
    obtain ⟨d', hd'⟩ := alive_iff.1 hpa'
    obtain ⟨d, l', hd, rfl, -⟩ := hf.scope hd'
    refine ⟨hlt, hpa', ?_⟩
    rw [hup, scope_of_scope? hd, scope_of_scope? hd']
  listening {s p c' up} hc' hp := by
    obtain ⟨c, l, hc, rfl, -⟩ := hf.scope hc'
    obtain ⟨hlt, hpa, hup⟩ := h.parented hc hp
    obtain ⟨d', hd'⟩ := alive_iff.1 (hf.held hc' (held_parent (by rw [Scope.parent?, hp]; rfl)) hpa)
    obtain ⟨d, l', hd, rfl, -, hmem⟩ := hf.scope hd'
    have hs := h.listening hc hp
    rw [scope_of_scope? hd] at hs
    rw [scope_of_scope? hd']
    exact hmem s hs (alive_of_scope? hc')
  nodup_listeners hc' := by
    obtain ⟨c, l, hc, rfl, hl, -⟩ := hf.scope hc'
    exact (h.nodup_listeners hc).sublist hl
  listened hc' ht hd' := by
    obtain ⟨c, l, hc, rfl, hl, -⟩ := hf.scope hc'
    obtain ⟨d, l', hd, rfl, -⟩ := hf.scope hd'
    have hp := h.listened hc (hl.subset ht) hd
    exact hp
  listener_lt hc' ht := by
    obtain ⟨c, l, hc, rfl, hl, -⟩ := hf.scope hc'
    exact hf.size ▸ h.listener_lt hc (hl.subset ht)
  definitions hc' he := by
    obtain ⟨c, l, hc, rfl, -⟩ := hf.scope hc'
    exact h.definitions hc he
  slots {s c' name slot} hc' hslot p hp := by
    obtain ⟨c, l, hc, rfl, -⟩ := hf.scope hc'
    obtain ⟨hb, ha, hh⟩ := h.slots hc hslot p hp
    refine ⟨hb, ?_, hh⟩
    cases hold : p.hold with
    | weak => rw [hh.1 hold]; exact alive_of_scope? hc'
    | strong => exact hf.held hc' (held_procedure hslot hp hold) ha

theorem scope?_forgetDead (t : ScopeId) : st.forgetDead.scope? t =
    (st.scope? t).map fun c => { c with listeners := c.listeners.filter st.alive } := by
  rw [forgetDead, scope?, scope?, Array.getElem?_map]
  cases st.scopes[t]? with
  | none => rfl
  | some c => rfl

theorem alive_forgetDead (t : ScopeId) : st.forgetDead.alive t = st.alive t := by
  rw [alive, scope?_forgetDead, Option.isSome_map, alive]

theorem fades_forgetDead (host : List ScopeId) (st : Store) : Fades host st st.forgetDead where
  size := Array.size_map ..
  scope hc' := by
    rw [scope?_forgetDead] at hc'
    obtain ⟨c, hc, rfl⟩ := Option.map_eq_some_iff.1 hc'
    exact ⟨c, _, hc, rfl, List.filter_sublist, fun u hu ha =>
      List.mem_filter.2 ⟨hu, (alive_forgetDead u).symm.trans ha⟩⟩
  held _ _ ha := (alive_forgetDead _).trans ha
  host _ ha := (alive_forgetDead _).trans ha

theorem fades_sweep (host : List ScopeId) (st : Store) : Fades host st (st.sweep host) :=
  (outlives_sweepRounds host _ st).fades.trans (fades_forgetDead host _)

theorem Formed.sweep (h : st.Formed L) (host : List ScopeId) : (st.sweep host).Formed L :=
  (fades_sweep host st).formed h

theorem trees_sweepRounds (host : List ScopeId) : ∀ (rounds : Nat) (st : Store),
    (sweepRounds host rounds st).trees = st.trees
  | 0, _ => rfl
  | rounds + 1, st => by
    rw [sweepRounds]
    split
    · rfl
    · exact trees_sweepRounds host rounds (st.keepHeld host)

theorem trees_sweep (st : Store) (host : List ScopeId) : (st.sweep host).trees = st.trees :=
  trees_sweepRounds host _ st

theorem alive_sweep {t : ScopeId} (ht : t ∈ host) (ha : st.alive t = true) : (st.sweep host).alive t = true :=
  (fades_sweep host st).host ht ha

/-- A scope that is left has all it had but for listeners. -/
theorem scope?_sweep {t : ScopeId} {c' : Scope} (h : (st.sweep host).scope? t = some c') :
    ∃ c l, st.scope? t = some c ∧ c' = { c with listeners := l } := by
  obtain ⟨c, l, hc, hc', -⟩ := (fades_sweep host st).scope h
  exact ⟨c, l, hc, hc'⟩

end Store
end LazyFormula
