import LazyFormula.Proofs.Reach
/-!
# What an evaluation does to the store

An evaluation changes the store by a few kinds of moves: it logs, makes scopes, memoizes, binds names in scopes of its
own and assigns. Every invariant of evaluations is therefore a fact about single moves. The first is proved here: moves
keep a store formed (`Moves.formed`).
-/
namespace LazyFormula

/-- An event tells of a write of a name at a scope. -/
def Event.Writes (t : ScopeId) (name : String) : Event → Prop
  | .invalidation s _ written => s = t ∧ name ∈ written
  | _ => False

variable {L : Fragment}

namespace Store

/-- **One change of the store by an evaluation** that meets only expressions of a fragment and binds names only in
scopes of its own. -/
inductive Move (L : Fragment) (own : ScopeId → Prop) (st : Store) : Store → Prop
  | record {e : Event} (he : ∀ t name, ¬ e.Writes t name) : Move L own st (st.record e)
  | child {p : ScopeId} {values : List (String × Value)} (hp : st.alive p = true)
      (hv : ∀ x ∈ values, st.Supports L x.2) : Move L own st (st.addChild p values).2
  /-- A value is memoized, never in the place of a written one. -/
  | memoize {s : ScopeId} {name : String} {v : Value} (hs : st.alive s = true) (hv : st.Supports L v)
      (hb : (st.scope s).bound? name = none) : Move L own st (st.put s name v .derived)
  | bind {s : ScopeId} {name : String} {v : Value} (hs : st.alive s = true) (ho : own s) (hv : st.Supports L v) :
      Move L own st (st.add s name v)
  | assign {s : ScopeId} {name : String} {v : Value} {st' : Store} (hs : st.alive s = true) (hL : L.assigns)
      (hv : st.Supports L v) (h : st.assign? s name v = some st') : Move L own st st'
  | count (b : Builtin) : Move L own st (st.countCall b)
  | fresh : Move L own st st.takeFresh.2
  | depth (tree : Nat) (f : Nat → Nat) : Move L own st (st.setDepth tree f)

/-- **Changes one after the other.** -/
inductive Moves (L : Fragment) (own : ScopeId → Prop) : Store → Store → Prop
  | refl (st : Store) : Moves L own st st
  | head {st st₁ st' : Store} (h : Move L own st st₁) (rest : Moves L own st₁ st') : Moves L own st st'

variable {own : ScopeId → Prop} {st st₁ st' : Store} {s : ScopeId} {name : String} {v : Value}

theorem Move.moves (h : Move L own st st') : Moves L own st st' := .head h (.refl _)

theorem Moves.trans (h : Moves L own st st₁) (h' : Moves L own st₁ st') : Moves L own st st' := by
  induction h with
  | refl => exact h'
  | head hm _ ih => exact .head hm (ih h')

/-! ## Formed stores stay formed -/

/-- Changes that leave the links between scopes, and put into scopes only what may rest there. -/
theorem Formed.relink (h : st.Formed L) (hsize : st'.scopes.size = st.scopes.size)
    (ha : ∀ t, st'.alive t = st.alive t)
    (hc : ∀ {t c'}, st'.scope? t = some c' → ∃ c, st.scope? t = some c ∧ c'.ancestors = c.ancestors ∧
      c'.listeners = c.listeners ∧ (∀ {n e}, c'.definitions.get? n = some e → L.Mem e) ∧
      ∀ {n slot}, c'.slots.get? n = some slot → st.Keeps L t slot.value) : st'.Formed L := by
  have hscope : ∀ {t}, st.alive t = true →
      (st'.scope t).ancestors = (st.scope t).ancestors ∧ (st'.scope t).listeners = (st.scope t).listeners := by
    intro t ht
    obtain ⟨c', hc'⟩ := alive_iff.1 ((ha t).trans ht)
    obtain ⟨c, hcc, hanc, hlis, -⟩ := hc hc'
    rw [scope_of_scope? hc', scope_of_scope? hcc]
    exact ⟨hanc, hlis⟩
  constructor
  · intro t p c' up hc' hp
    obtain ⟨c, hcc, hanc, -⟩ := hc hc'
    obtain ⟨hlt, hpa, hup⟩ := h.parented hcc (hanc ▸ hp)
    exact ⟨hlt, (ha p).trans hpa, hup.trans (hscope hpa).1.symm⟩
  · intro t p c' up hc' hp
    obtain ⟨c, hcc, hanc, -⟩ := hc hc'
    have hpa := (h.parented hcc (hanc ▸ hp)).2.1
    rw [(hscope hpa).2]
    exact h.listening hcc (hanc ▸ hp)
  · intro p c' hc'
    obtain ⟨c, hcc, -, hlis, -⟩ := hc hc'
    exact hlis ▸ h.nodup_listeners hcc
  · intro p t c' d' hc' ht hd'
    obtain ⟨c, hcc, -, hlis, -⟩ := hc hc'
    obtain ⟨d, hdd, hanc, -⟩ := hc hd'
    have := h.listened hcc (hlis ▸ ht) hdd
    rwa [Scope.parent?, hanc]
  · intro p t c' hc' ht
    obtain ⟨c, hcc, -, hlis, -⟩ := hc hc'
    exact hsize ▸ h.listener_lt hcc (hlis ▸ ht)
  · intro t c' n e hc' he
    obtain ⟨c, -, -, -, hdef, -⟩ := hc hc'
    exact hdef he
  · intro t c' n slot hc' hslot
    obtain ⟨c, -, -, -, -, hk⟩ := hc hc'
    exact (hk hslot).mono fun u hu => (ha u).trans hu

/-- Changes that leave all scopes. -/
theorem Formed.congr (h : st.Formed L) (hsize : st'.scopes.size = st.scopes.size)
    (hs : ∀ t, st'.scope? t = st.scope? t) : st'.Formed L :=
  h.relink hsize (fun t => by rw [alive, hs, alive]) fun {t c'} hc' =>
    ⟨c', hs t ▸ hc', rfl, rfl, fun he => h.definitions (hs t ▸ hc') he, fun hslot =>
      h.slots (hs t ▸ hc') hslot⟩

theorem Formed.invalidate (h : st.Formed L) (s : ScopeId) (reach : Reach) (written : List String) :
    (st.invalidate s reach written).Formed L := by
  refine h.relink (size_invalidate ..) (alive_invalidate st s reach written) fun {t c'} hc' => ?_
  by_cases ht : t ∈ st.reach s
  · obtain ⟨c, hc⟩ : ∃ c, st.scope? t = some c :=
      alive_iff.1 ((alive_invalidate st s reach written t).symm.trans (alive_of_scope? hc'))
    obtain ⟨c'', hc'', hd⟩ := dropped_of_mem_reach ht hc reach written
    cases hc''.symm.trans hc'
    refine ⟨c, hc, hd.ancestors, hd.listeners, fun he => h.definitions hc (hd.definitions ▸ he), fun hslot => ?_⟩
    rw [hd.slots] at hslot
    cases reach with
    | everything => cases hslot
    | derived =>
      rw [Scope.get?_clear_derived, Option.filter_eq_some_iff] at hslot
      exact h.slots hc hslot.1
  · rw [scope?_invalidate_of_not_mem ht] at hc'
    exact ⟨c', hc', rfl, rfl, fun he => h.definitions hc' he, fun hslot => h.slots hc' hslot⟩

theorem Formed.put (h : st.Formed L) (hv : st.Supports L v) (s : ScopeId) (name : String) (kind : SlotKind) :
    (st.put s name v kind).Formed L := by
  refine h.relink (size_modify ..) (alive_modify st s _) fun {t c'} hc' => ?_
  rcases scope_of_put hc' with ⟨c, hc, rfl, rfl⟩ | ⟨-, hc'⟩
  · refine ⟨c, hc, rfl, rfl, fun he => h.definitions hc he, fun {n slot} hslot => ?_⟩
    rw [Scope.get?_put] at hslot
    split at hslot
    · cases hslot
      exact hv.detach _
    · exact h.slots hc hslot
  · exact ⟨c', hc', rfl, rfl, fun he => h.definitions hc' he, fun hslot => h.slots hc' hslot⟩

theorem supports_invalidate (hv : st.Supports L v) (s : ScopeId) (reach : Reach) (written : List String) :
    (st.invalidate s reach written).Supports L v :=
  hv.mono fun t ht => (alive_invalidate st s reach written t).trans ht

@[simp] theorem alive_put (st : Store) (s : ScopeId) (name : String) (v : Value) (kind : SlotKind) (t : ScopeId) :
    (st.put s name v kind).alive t = st.alive t := alive_modify ..

/-- Values that go into a scope one after the other; the last one of a name stays. -/
theorem scope?_puts (s t : ScopeId) : ∀ (values : List (String × Value)) (st : Store),
    (values.foldl (fun st (name, v) => st.put s name v .bound) st).scope? t =
      if t = s then (st.scope? s).map fun c =>
        { c with slots := c.slots.insertAll (values.map fun (name, v) => (name, ⟨v.detach s, .bound⟩)) }
      else st.scope? t
  | [], st => by
    split
    · rename_i h
      rw [h]
      exact Option.map_id'.symm ▸ rfl
    · rfl
  | x :: values, st => by
    rw [List.foldl_cons, scope?_puts s t values, scope?_put, scope?_put, if_pos rfl, Option.map_map]
    split <;> rfl

theorem alive_puts (s t : ScopeId) (values : List (String × Value)) (st : Store) :
    (values.foldl (fun st (name, v) => st.put s name v .bound) st).alive t = st.alive t := by
  rw [alive, scope?_puts]
  split
  · rename_i h
    rw [Option.isSome_map, h, alive]
  · rfl

@[simp] theorem alive_update (st : Store) (s t : ScopeId) (values : List (String × Value)) :
    (st.update s values).alive t = st.alive t := by rw [update, alive_puts, alive_invalidate]

theorem size_puts (s : ScopeId) : ∀ (values : List (String × Value)) (st : Store),
    (values.foldl (fun st (name, v) => st.put s name v .bound) st).scopes.size = st.scopes.size
  | [], _ => rfl
  | x :: values, st => by
    rw [List.foldl_cons, size_puts s values]
    exact size_modify ..

@[simp] theorem size_update (st : Store) (s : ScopeId) (values : List (String × Value)) :
    (st.update s values).scopes.size = st.scopes.size := by rw [update, size_puts, size_invalidate]

theorem Formed.puts (s : ScopeId) : ∀ {values : List (String × Value)} {st : Store}, st.Formed L →
    (∀ x ∈ values, st.Supports L x.2) →
    (values.foldl (fun st (name, v) => st.put s name v .bound) st).Formed L
  | [], _, h, _ => h
  | x :: values, st, h, hv => by
    rw [List.foldl_cons]
    refine Formed.puts s (h.put (hv x List.mem_cons_self) s x.1 .bound) fun y hy => ?_
    exact (hv y (List.mem_cons_of_mem _ hy)).mono fun t ht => (alive_put st s x.1 x.2 .bound t).trans ht

theorem Formed.update (h : st.Formed L) {values : List (String × Value)} (hv : ∀ x ∈ values, st.Supports L x.2)
    (s : ScopeId) : (st.update s values).Formed L :=
  Formed.puts s (h.invalidate s .derived _) fun x hx => supports_invalidate (hv x hx) s _ _

theorem Formed.add (h : st.Formed L) (hv : st.Supports L v) (s : ScopeId) (name : String) :
    (st.add s name v).Formed L :=
  h.update (by rintro x hx; cases List.mem_singleton.1 hx; exact hv) s

theorem Formed.putDefinition (h : st.Formed L) {e : Expr} (he : L.Mem e) (s : ScopeId) (name : String) :
    (st.modify s (·.putDefinition name e)).Formed L := by
  refine h.relink (size_modify ..) (alive_modify st s _) fun {t c'} hc' => ?_
  rcases scope_of_modify hc' with ⟨c, hc, rfl, rfl⟩ | ⟨-, hc'⟩
  · refine ⟨c, hc, rfl, rfl, fun {n e'} hn => ?_, fun hslot => h.slots hc hslot⟩
    rw [Scope.putDefinition, Bindings.get?_insert] at hn
    split at hn
    · cases hn
      exact he
    · exact h.definitions hc hn
  · exact ⟨c', hc', rfl, rfl, fun hn => h.definitions hc' hn, fun hslot => h.slots hc' hslot⟩

theorem Formed.define (h : st.Formed L) {e : Expr} (he : L.Mem e) (s : ScopeId) (name : String) :
    (st.define s name e).Formed L := by
  have hrec : (st.record (.defining s name e)).Formed L := h.congr rfl fun _ => rfl
  exact (hrec.putDefinition he s name).invalidate s .everything [name]

@[simp] theorem alive_define (st : Store) (s t : ScopeId) (name : String) (e : Expr) :
    (st.define s name e).alive t = st.alive t := by
  rw [Store.define, alive_invalidate, alive_modify]
  rfl

theorem assignable?_eq_some {t : ScopeId} {slot : Slot} : ∀ {scopes : List ScopeId},
    st.assignable? name scopes = some (t, slot) →
      ∃ below above, scopes = below ++ t :: above ∧ (st.scope t).slots.get? name = some slot ∧
        (st.scope t).definitions.get? name = none ∧
        ∀ u ∈ below, (st.scope u).slots.get? name = none ∨ (st.scope u).definitions.get? name ≠ none
  | [], h => nomatch h
  | u :: up, h => by
    rw [assignable?] at h
    split at h
    · rename_i slot' hslot hdef
      cases h
      exact ⟨[], up, rfl, hslot, hdef, nofun⟩
    · rename_i hno
      obtain ⟨below, above, hup, hslot, hdef, hbelow⟩ := assignable?_eq_some h
      refine ⟨u :: below, above, congrArg (u :: ·) hup, hslot, hdef, fun w hw => ?_⟩
      rcases List.mem_cons.1 hw with rfl | hw
      · cases hs : (st.scope w).slots.get? name with
        | none => exact .inl rfl
        | some slot' => exact .inr fun hd => hno slot' hs hd
      · exact hbelow w hw

theorem Formed.assign? (h : st.Formed L) (hv : st.Supports L v) (ha : st.assign? s name v = some st') :
    st'.Formed L := by
  obtain ⟨⟨t, slot⟩, -, rfl⟩ := Option.map_eq_some_iff.1 ha
  have hrec : (st.record (.assigning t name slot.kind)).Formed L := h.congr rfl fun _ => rfl
  have hv' : (st.record (.assigning t name slot.kind)).Supports L v := hv
  exact (hrec.invalidate t .derived [name]).put (supports_invalidate hv' t _ _) t name slot.kind

theorem alive_assign? (ha : st.assign? s name v = some st') (t : ScopeId) : st'.alive t = st.alive t := by
  obtain ⟨⟨u, slot⟩, -, rfl⟩ := Option.map_eq_some_iff.1 ha
  rw [alive_put, alive_invalidate]
  rfl

theorem newborn_slot {p : ScopeId} {values : List (String × Value)} {slot : Slot}
    (h : (st.newborn p values).slots.get? name = some slot) :
    ∃ x ∈ values, x.1 = name ∧ slot = ⟨x.2, .bound⟩ := by
  rw [get?_newborn] at h
  obtain ⟨v, hv, rfl⟩ := Option.map_eq_some_iff.1 h
  exact ⟨(name, v), mem_of_lookup_reverse hv, rfl, rfl⟩

theorem alive_addChild {p : ScopeId} (hp : st.alive p = true) (values : List (String × Value)) (t : ScopeId) :
    (st.addChild p values).2.alive t = (st.alive t || t == st.scopes.size) := by
  rw [alive, scope?_addChild hp]
  by_cases ht : t = st.scopes.size
  · rw [if_pos ht, ht]; simp
  · rw [if_neg ht]
    by_cases htp : t = p
    · rw [if_pos htp, Option.isSome_map, htp, ← alive, hp]; rfl
    · rw [if_neg htp, ← alive]; simp [ht]

theorem alive_addChild_of_alive {p t : ScopeId} (hp : st.alive p = true) (values : List (String × Value))
    (ht : st.alive t = true) : (st.addChild p values).2.alive t = true := by
  rw [alive_addChild hp, ht]; rfl

theorem alive_addChild_size {p : ScopeId} (hp : st.alive p = true) (values : List (String × Value)) :
    (st.addChild p values).2.alive st.scopes.size = true := by
  rw [alive_addChild hp]
  simp

section
variable {p t : ScopeId} {values : List (String × Value)} {c' : Scope} (hp : st.alive p = true)
include hp

theorem eq_newborn_of_addChild (hc' : (st.addChild p values).2.scope? st.scopes.size = some c') :
    c' = st.newborn p values := by
  rw [scope?_addChild hp, if_pos rfl] at hc'
  exact (Option.some.inj hc').symm

/-- A scope that was there keeps all but its listeners when it gets a child. -/
theorem exists_of_addChild (ht : t ≠ st.scopes.size) (hc' : (st.addChild p values).2.scope? t = some c') :
    ∃ c, st.scope? t = some c ∧
      c' = { c with listeners := if t = p then st.scopes.size :: c.listeners else c.listeners } := by
  rw [scope?_addChild hp, if_neg ht] at hc'
  split at hc'
  · rename_i htp
    obtain ⟨c, hc, rfl⟩ := Option.map_eq_some_iff.1 hc'
    exact ⟨c, htp ▸ hc, by rw [if_pos htp, Scope.listen]⟩
  · rename_i htp
    exact ⟨c', hc', by rw [if_neg htp]⟩

theorem scope_addChild (ht : st.alive t = true) :
    ((st.addChild p values).2.scope t).ancestors = (st.scope t).ancestors ∧
      ((st.addChild p values).2.scope t).listeners =
        if t = p then st.scopes.size :: (st.scope t).listeners else (st.scope t).listeners := by
  obtain ⟨c', hc'⟩ := alive_iff.1 (alive_addChild_of_alive hp values ht)
  obtain ⟨c, hc, rfl⟩ := exists_of_addChild hp (Nat.ne_of_lt (lt_size_of_alive ht)) hc'
  rw [scope_of_scope? hc', scope_of_scope? hc]
  exact ⟨rfl, rfl⟩

/-- What listens to a scope listened to it before, or is the new child of its parent. -/
theorem listener_of_addChild {q : ScopeId} (hc' : (st.addChild p values).2.scope? q = some c')
    (ht : t ∈ c'.listeners) :
    ∃ c, st.scope? q = some c ∧ (t ∈ c.listeners ∨ q = p ∧ t = st.scopes.size) := by
  by_cases hq : q = st.scopes.size
  · subst hq
    cases eq_newborn_of_addChild hp hc'
    cases ht
  · obtain ⟨c, hc, rfl⟩ := exists_of_addChild hp hq hc'
    refine ⟨c, hc, ?_⟩
    dsimp only at ht
    split at ht
    · rename_i hqp
      exact (List.mem_cons.1 ht).symm.imp_right fun ht => ⟨hqp, ht⟩
    · exact .inl ht

theorem Formed.addChild (h : st.Formed L) (hv : ∀ x ∈ values, st.Supports L x.2) :
    (st.addChild p values).2.Formed L where
  parented {t q c' up} hc' hq := by
    by_cases ht : t = st.scopes.size
    · subst ht
      cases eq_newborn_of_addChild hp hc'
      obtain ⟨rfl, rfl⟩ := List.cons.inj hq
      exact ⟨lt_size_of_alive hp, alive_addChild_of_alive hp values hp, (scope_addChild hp hp).1.symm⟩
    · obtain ⟨c, hc, rfl⟩ := exists_of_addChild hp ht hc'
      obtain ⟨hqt, hqa, hup⟩ := h.parented hc hq
      exact ⟨hqt, alive_addChild_of_alive hp values hqa, hup.trans (scope_addChild hp hqa).1.symm⟩
  listening {t q c' up} hc' hq := by
    by_cases ht : t = st.scopes.size
    · subst ht
      cases eq_newborn_of_addChild hp hc'
      obtain ⟨rfl, rfl⟩ := List.cons.inj hq
      rw [(scope_addChild hp hp).2, if_pos rfl]
      exact List.mem_cons_self
    · obtain ⟨c, hc, rfl⟩ := exists_of_addChild hp ht hc'
      have hmem := h.listening hc hq
      rw [(scope_addChild hp (h.parented hc hq).2.1).2]
      split
      · exact List.mem_cons_of_mem _ hmem
      · exact hmem
  nodup_listeners {q c'} hc' := by
    by_cases hq : q = st.scopes.size
    · subst hq
      cases eq_newborn_of_addChild hp hc'
      exact List.nodup_nil
    · obtain ⟨c, hc, rfl⟩ := exists_of_addChild hp hq hc'
      dsimp only
      split
      · exact List.nodup_cons.2 ⟨fun hm => Nat.lt_irrefl _ (h.listener_lt hc hm), h.nodup_listeners hc⟩
      · exact h.nodup_listeners hc
  listened {q t c' d'} hc' ht hd' := by
    obtain ⟨c, hc, ht⟩ := listener_of_addChild hp hc' ht
    by_cases hts : t = st.scopes.size
    · subst hts
      cases eq_newborn_of_addChild hp hd'
      rcases ht with ht | ⟨rfl, -⟩
      · exact absurd (h.listener_lt hc ht) (Nat.lt_irrefl _)
      · rfl
    · obtain ⟨d, hd, rfl⟩ := exists_of_addChild hp hts hd'
      have hparent := h.listened hc (ht.resolve_right fun he => hts he.2) hd
      exact hparent
  listener_lt {q t c'} hc' ht := by
    obtain ⟨c, hc, ht⟩ := listener_of_addChild hp hc' ht
    rw [size_addChild]
    rcases ht with ht | ⟨-, rfl⟩
    · exact Nat.lt_succ_of_lt (h.listener_lt hc ht)
    · exact Nat.lt_succ_self _
  definitions {t c' n e} hc' he := by
    by_cases ht : t = st.scopes.size
    · subst ht
      cases eq_newborn_of_addChild hp hc'
      cases he
    · obtain ⟨c, hc, rfl⟩ := exists_of_addChild hp ht hc'
      exact h.definitions hc he
  slots {t c' n slot} hc' hslot := by
    have hmono := fun t ht => alive_addChild_of_alive (t := t) hp values ht
    by_cases ht : t = st.scopes.size
    · subst ht
      cases eq_newborn_of_addChild hp hc'
      obtain ⟨x, hx, -, rfl⟩ := newborn_slot hslot
      intro q hq
      obtain ⟨hb, ha, hh⟩ := hv x hx q hq
      exact ⟨hb, hmono _ ha, by simp [hh, Nat.ne_of_lt (lt_size_of_alive ha)]⟩
    · obtain ⟨c, hc, rfl⟩ := exists_of_addChild hp ht hc'
      exact (h.slots hc hslot).mono hmono

end

/-- **An evaluation keeps a formed store formed.** -/
theorem Move.formed (hm : Move L own st st') (h : st.Formed L) : st'.Formed L := by
  cases hm with
  | record he | count b | fresh | depth tree f => exact h.congr rfl fun _ => rfl
  | child hp hv => exact h.addChild hp hv
  | memoize hs hv hb => exact h.put hv _ _ _
  | bind hs ho hv => exact h.add hv _ _
  | assign hs hL hv ha => exact h.assign? hv ha

theorem Moves.formed (hm : Moves L own st st') (h : st.Formed L) : st'.Formed L := by
  induction hm with
  | refl => exact h
  | head hm _ ih => exact ih (hm.formed h)

end Store
end LazyFormula
