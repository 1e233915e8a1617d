import LazyFormula.Proofs.Formed
/-!
# The reach of a write

In a formed store a write at a scope reaches that scope and the living scopes below it, and no other one
(`Formed.mem_reach`). Those drop values, and nothing else of any scope changes.
-/
namespace LazyFormula
namespace Store

variable {L : Fragment} {st : Store} {s t : ScopeId}

namespace Formed

theorem mem_reachDown (h : st.Formed L) : ∀ {levels : Nat} {s : ScopeId}, t ∈ st.reachDown levels s →
    t = s ∨ st.alive t = true ∧ s ∈ st.chain t
  | 0, s, ht => .inl (List.mem_singleton.1 ht)
  | levels + 1, s, ht => by
    rcases List.mem_cons.1 ht with rfl | ht
    · exact .inl rfl
    obtain ⟨u, hu, ht⟩ := List.mem_flatMap.1 ht
    obtain ⟨hul, hua⟩ := List.mem_filter.1 hu
    obtain ⟨d, hd⟩ := alive_iff.1 hua
    have hs : st.alive s = true := by
      by_contra hs
      have hn : st.scope? s = none := by simpa [alive] using hs
      rw [scope, hn] at hul
      cases hul
    have hp := h.listened (scope?_eq_of_alive hs) hul hd
    have hsu : s ∈ st.chain u := by
      rw [chain_of_scope? hd]
      exact List.mem_cons_of_mem _ (List.mem_of_mem_head? hp)
    rcases h.mem_reachDown ht with rfl | ⟨hta, hut⟩
    · exact .inr ⟨hua, hsu⟩
    · exact .inr ⟨hta, h.mem_chain_trans hta hut hsu⟩

/-- A scope is found from every scope on its chain, with as many levels as there are scopes between the two. -/
theorem mem_reachDown_of_chain (h : st.Formed L) (ht : st.alive t = true) : ∀ (i : Nat) {levels : Nat} {s : ScopeId},
    i ≤ levels → (st.chain t)[i]? = some s → t ∈ st.reachDown levels s
  | 0, 0, s, _, hs => by cases hs; exact List.mem_singleton_self _
  | 0, levels + 1, s, _, hs => by cases hs; exact List.mem_cons_self
  | i + 1, levels + 1, s, hi, hs => by
    obtain ⟨hlen, -⟩ := List.getElem?_eq_some_iff.1 hs
    obtain ⟨u, hu⟩ : ∃ u, (st.chain t)[i]? = some u := ⟨_, List.getElem?_eq_getElem (Nat.lt_of_succ_lt hlen)⟩
    have hua := (h.alive_of_mem_chain ht (List.mem_of_getElem? hu)).1
    obtain ⟨d, hd⟩ := alive_iff.1 hua
    have hdrop := h.chain_drop i ht hu
    rw [List.drop_eq_getElem_cons (Nat.lt_of_succ_lt hlen), chain_of_scope? hd] at hdrop
    have hanc : d.ancestors = s :: (st.chain t).drop (i + 2) := by
      rw [← (List.cons.inj hdrop).2, List.drop_eq_getElem_cons hlen, (List.getElem?_eq_some_iff.1 hs).2]
    refine List.mem_cons_of_mem _ (List.mem_flatMap.2 ⟨u, List.mem_filter.2 ⟨h.listening hd hanc, hua⟩, ?_⟩)
    exact h.mem_reachDown_of_chain ht i (Nat.le_of_succ_le_succ hi) hu

/-- **A write reaches the scope and the living scopes below it.** -/
theorem mem_reach (h : st.Formed L) (hs : st.alive s = true) :
    t ∈ st.reach s ↔ st.alive t = true ∧ s ∈ st.chain t := by
  constructor
  · intro ht
    rcases h.mem_reachDown ht with rfl | ht
    · exact ⟨hs, List.mem_cons_self⟩
    · exact ht
  · rintro ⟨ht, hst⟩
    obtain ⟨i, hi⟩ := List.mem_iff_getElem?.1 hst
    refine h.mem_reachDown_of_chain ht i ?_ hi
    have hlen := (List.getElem?_eq_some_iff.1 hi).1
    have hle : i ≤ t := Nat.le_of_lt_succ (Nat.lt_of_lt_of_le hlen (h.chain_length_le ht))
    exact Nat.le_trans hle (Nat.le_of_lt (lt_size_of_alive ht))

end Formed

theorem self_mem_reach (st : Store) (s : ScopeId) : s ∈ st.reach s := by
  unfold reach
  cases st.scopes.size with
  | zero => exact List.mem_singleton_self _
  | succ n => exact List.mem_cons_self

theorem scope?_foldl_clear (reach : Reach) : ∀ (l : List ScopeId) (st : Store),
    (l.foldl (fun st t => st.modify t (·.clear reach)) st).scope? t =
      (st.scope? t).map (Scope.clear reach)^[l.count t]
  | [], st => by simp
  | u :: l, st => by
    rw [List.foldl_cons, scope?_foldl_clear reach l, scope?_modify, List.count_cons]
    by_cases h : t = u
    · subst h
      rw [if_pos rfl, if_pos (beq_self_eq_true t), Option.map_map, Function.iterate_succ]
    · rw [if_neg h, if_neg (by simpa using Ne.symm h), Nat.add_zero]

theorem scope?_invalidate (st : Store) (s : ScopeId) (reach : Reach) (written : List String) (t : ScopeId) :
    (st.invalidate s reach written).scope? t = (st.scope? t).map (Scope.clear reach)^[(st.reach s).count t] := by
  rw [invalidate, scope?_record, scope?_foldl_clear]

theorem size_foldl_clear (reach : Reach) : ∀ (l : List ScopeId) (st : Store),
    (l.foldl (fun st t => st.modify t (·.clear reach)) st).scopes.size = st.scopes.size
  | [], _ => rfl
  | u :: l, st => by rw [List.foldl_cons, size_foldl_clear reach l, size_modify]

@[simp] theorem size_invalidate (st : Store) (s : ScopeId) (reach : Reach) (written : List String) :
    (st.invalidate s reach written).scopes.size = st.scopes.size := by
  rw [invalidate, size_record, size_foldl_clear]

@[simp] theorem alive_invalidate (st : Store) (s : ScopeId) (reach : Reach) (written : List String) (t : ScopeId) :
    (st.invalidate s reach written).alive t = st.alive t := by
  rw [alive, scope?_invalidate, Option.isSome_map, alive]

end Store

namespace Scope

/-- **A scope before and after it dropped values.** -/
structure Dropped (reach : Reach) (c c' : Scope) : Prop where
  ancestors : c'.ancestors = c.ancestors
  definitions : c'.definitions = c.definitions
  listeners : c'.listeners = c.listeners
  tree : c'.tree = c.tree
  generation : c.generation < c'.generation
  slots (name : String) : c'.slots.get? name = (c.clear reach).slots.get? name

theorem dropped_clear (reach : Reach) (c : Scope) : c.Dropped reach (c.clear reach) :=
  ⟨rfl, rfl, rfl, rfl, Nat.lt_succ_self _, fun _ => rfl⟩

theorem dropped_iterate_clear (reach : Reach) (c : Scope) : ∀ n, c.Dropped reach ((clear reach)^[n + 1] c)
  | 0 => dropped_clear reach c
  | n + 1 => by
    have ih := dropped_iterate_clear reach c n
    have hs := get?_iterate_clear reach c
    rw [Function.iterate_succ_apply']
    exact ⟨ih.ancestors, ih.definitions, ih.listeners, ih.tree, Nat.lt_succ_of_lt ih.generation,
      fun name => by rw [← Function.iterate_succ_apply' (clear reach), hs name (n + 1)]⟩

theorem Dropped.bound? {c c' : Scope} (h : c.Dropped .derived c') (name : String) : c'.bound? name = c.bound? name := by
  rw [Scope.bound?, h.slots, ← bound?_clear_derived c name, Scope.bound?]

end Scope

namespace Store

variable {st : Store} {s t : ScopeId}

/-- A scope within reach drops values. -/
theorem dropped_of_mem_reach {c : Scope} (ht : t ∈ st.reach s) (hc : st.scope? t = some c) (reach : Reach)
    (written : List String) : ∃ c', (st.invalidate s reach written).scope? t = some c' ∧ c.Dropped reach c' := by
  obtain ⟨n, hn⟩ := Nat.exists_eq_succ_of_ne_zero (Nat.ne_of_gt (List.count_pos_iff.2 ht))
  rw [scope?_invalidate, hc, hn]
  exact ⟨_, rfl, c.dropped_iterate_clear reach n⟩

/-- A scope out of reach stays as it is. -/
theorem scope?_invalidate_of_not_mem (ht : t ∉ st.reach s) (reach : Reach) (written : List String) :
    (st.invalidate s reach written).scope? t = st.scope? t := by
  rw [scope?_invalidate, List.count_eq_zero_of_not_mem ht]
  simp

/-- **What a write does to each scope.** -/
theorem Formed.scope?_of_invalidate {L : Fragment} {reach : Reach} {written : List String} {c' : Scope}
    (h : st.Formed L) (hs : st.alive s = true) (hc' : (st.invalidate s reach written).scope? t = some c') :
    ∃ c, st.scope? t = some c ∧ c'.ancestors = c.ancestors ∧ (s ∈ st.chain t → c.Dropped reach c') ∧
      (s ∉ st.chain t → c' = c) := by
  have ht := (alive_invalidate st s reach written t).symm.trans (alive_of_scope? hc')
  obtain ⟨c, hc⟩ := alive_iff.1 ht
  by_cases hm : s ∈ st.chain t
  · obtain ⟨c'', hc'', hd⟩ := dropped_of_mem_reach ((h.mem_reach hs).2 ⟨ht, hm⟩) hc reach written
    cases hc''.symm.trans hc'
    exact ⟨c, hc, hd.ancestors, fun _ => hd, fun hn => absurd hm hn⟩
  · have hout : t ∉ st.reach s := fun hr => hm ((h.mem_reach hs).1 hr).2
    cases (scope?_invalidate_of_not_mem hout reach written).symm.trans hc' |>.symm.trans hc
    exact ⟨c', hc, rfl, fun hm' => absurd hm' hm, fun _ => rfl⟩

end Store
end LazyFormula
