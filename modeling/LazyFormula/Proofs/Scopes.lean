import LazyFormula.Store.Write
import LazyFormula.Store.Lifetime
import Mathlib.Logic.Function.Iterate
/-!
# Scopes after a write

What every change of the store does to every scope. All later facts about stores read scopes through `Store.scope?`
and go on from the equations here; none unfolds an operation of the store again.
-/
namespace LazyFormula

theorem mem_of_lookup {α : Type} {entries : List (String × α)} {name : String} {a : α}
    (h : entries.lookup name = some a) : (name, a) ∈ entries := by
  obtain ⟨front, back, he, -⟩ := List.lookup_eq_some_iff.1 h
  rw [he]
  exact List.mem_append_right _ List.mem_cons_self

/-- The entry that counts for a name, the last one, is one of those given. -/
theorem mem_of_lookup_reverse {α : Type} {entries : List (String × α)} {name : String} {a : α}
    (h : entries.reverse.lookup name = some a) : (name, a) ∈ entries := List.mem_reverse.1 (mem_of_lookup h)

namespace Bindings

variable {α : Type}

theorem get?_eq_some {b : Bindings α} {name : String} {a : α} : b.get? name = some a ↔ (name, a) ∈ b.entries := by
  constructor
  · exact mem_of_lookup
  · intro h
    obtain ⟨front, back, he⟩ := List.mem_iff_append.1 h
    rw [get?, List.lookup_eq_some_iff]
    refine ⟨front, back, he, fun e hf => ?_⟩
    have hd := b.distinct
    rw [he, List.map_append, List.map_cons] at hd
    have hne : name ≠ e.1 := fun hn =>
      (List.nodup_append.1 hd).2.2 e.1 (List.mem_map.2 ⟨e, hf, rfl⟩) name List.mem_cons_self hn.symm
    simpa using hne

theorem mem_values {b : Bindings α} {a : α} : a ∈ b.values ↔ ∃ name, b.get? name = some a := by
  simp only [values, List.mem_map, get?_eq_some]
  exact ⟨fun ⟨e, he, h⟩ => ⟨e.1, h ▸ he⟩, fun ⟨name, h⟩ => ⟨(name, a), h, rfl⟩⟩

theorem get?_insertAll (b : Bindings α) (name : String) : ∀ entries : List (String × α),
    (b.insertAll entries).get? name = (entries.reverse.lookup name).or (b.get? name)
  | [] => rfl
  | (n, a) :: entries => by
    rw [insertAll, List.foldl_cons, ← insertAll, get?_insertAll (b.insert n a) name entries, get?_insert,
      List.reverse_cons, List.lookup_append]
    cases entries.reverse.lookup name with
    | some _ => rfl
    | none =>
      by_cases h : name = n
      · simp [h]
      · simp [h, List.lookup_cons, beq_false_of_ne h]

theorem lookup_map {β : Type} (f : α → β) (name : String) : ∀ entries : List (String × α),
    (entries.map fun (n, a) => (n, f a)).lookup name = (entries.lookup name).map f
  | [] => rfl
  | e :: entries => by
    rw [List.map_cons, List.lookup_cons, List.lookup_cons, lookup_map f name entries]
    cases name == e.1 <;> rfl

/-- Of the entries of a name the last one counts. -/
theorem get?_insertAll_map {β : Type} (b : Bindings β) (f : α → β) (name : String)
    (entries : List (String × α)) :
    (b.insertAll (entries.map fun (n, a) => (n, f a))).get? name =
      ((entries.reverse.lookup name).map f).or (b.get? name) := by
  rw [get?_insertAll, ← List.map_reverse, lookup_map]

theorem get?_ofList (entries : List (String × α)) (name : String) :
    (ofList entries).get? name = entries.reverse.lookup name := by
  rw [ofList, get?_insertAll, get?_empty, Option.or_none]

end Bindings

namespace Scope

/-- The value of a name that was written, not memoized, in a scope. -/
def bound? (c : Scope) (name : String) : Option Value :=
  (c.slots.get? name).bind fun slot => if slot.kind = .bound then some slot.value else none

@[simp] theorem clear_ancestors (reach : Reach) (c : Scope) : (c.clear reach).ancestors = c.ancestors := rfl
@[simp] theorem clear_definitions (reach : Reach) (c : Scope) : (c.clear reach).definitions = c.definitions := rfl
@[simp] theorem clear_listeners (reach : Reach) (c : Scope) : (c.clear reach).listeners = c.listeners := rfl
@[simp] theorem clear_tree (reach : Reach) (c : Scope) : (c.clear reach).tree = c.tree := rfl
@[simp] theorem clear_generation (reach : Reach) (c : Scope) : (c.clear reach).generation = c.generation + 1 := rfl
@[simp] theorem put_ancestors (n : String) (slot : Slot) (c : Scope) : (c.put n slot).ancestors = c.ancestors := rfl
@[simp] theorem put_definitions (n : String) (slot : Slot) (c : Scope) :
    (c.put n slot).definitions = c.definitions := rfl
@[simp] theorem put_listeners (n : String) (slot : Slot) (c : Scope) : (c.put n slot).listeners = c.listeners := rfl
@[simp] theorem put_tree (n : String) (slot : Slot) (c : Scope) : (c.put n slot).tree = c.tree := rfl
@[simp] theorem put_generation (n : String) (slot : Slot) (c : Scope) : (c.put n slot).generation = c.generation := rfl
@[simp] theorem listen_ancestors (s : ScopeId) (c : Scope) : (c.listen s).ancestors = c.ancestors := rfl
@[simp] theorem listen_definitions (s : ScopeId) (c : Scope) : (c.listen s).definitions = c.definitions := rfl
@[simp] theorem listen_slots (s : ScopeId) (c : Scope) : (c.listen s).slots = c.slots := rfl
@[simp] theorem listen_tree (s : ScopeId) (c : Scope) : (c.listen s).tree = c.tree := rfl
@[simp] theorem listen_generation (s : ScopeId) (c : Scope) : (c.listen s).generation = c.generation := rfl

theorem get?_put (c : Scope) (name other : String) (slot : Slot) :
    (c.put name slot).slots.get? other = if other = name then some slot else c.slots.get? other :=
  Bindings.get?_insert ..

theorem get?_clear_derived (c : Scope) (name : String) :
    (c.clear .derived).slots.get? name = (c.slots.get? name).filter fun slot => slot.kind == .bound :=
  Bindings.get?_filter ..

@[simp] theorem get?_clear_everything (c : Scope) (name : String) : (c.clear .everything).slots.get? name = none := rfl

theorem bound?_eq_some {c : Scope} {name : String} {v : Value} :
    c.bound? name = some v ↔ c.slots.get? name = some ⟨v, .bound⟩ := by
  unfold bound?
  cases h : c.slots.get? name with
  | none => simp
  | some slot => cases slot; simp [and_comm]

theorem bound?_of_slot {c : Scope} {name : String} {slot : Slot} (h : c.slots.get? name = some slot)
    (hk : slot.kind = .bound) : c.bound? name = some slot.value := by
  rw [bound?_eq_some, h, ← hk]

/-- Without a value there is no written one. -/
theorem bound?_eq_none {c : Scope} {name : String} (h : c.slots.get? name = none) : c.bound? name = none := by
  rw [bound?, h]
  rfl

/-- A value that is not a written one is memoized. -/
theorem kind_eq_derived {c : Scope} {name : String} {slot : Slot} (h : c.slots.get? name = some slot)
    (hb : c.bound? name = none) : slot.kind = .derived := by
  cases hk : slot.kind with
  | bound =>
    rw [bound?_of_slot h hk] at hb
    cases hb
  | derived => rfl

@[simp] theorem bound?_clear_derived (c : Scope) (name : String) : (c.clear .derived).bound? name = c.bound? name := by
  unfold bound?
  rw [get?_clear_derived]
  cases c.slots.get? name with
  | none => rfl
  | some slot => cases slot with | mk v kind => cases kind <;> rfl

/-- What is left when memoized values are dropped are the written ones. -/
theorem get?_clear_derived_eq_bound? (c : Scope) (name : String) :
    (c.clear .derived).slots.get? name = (c.bound? name).map (⟨·, .bound⟩) := by
  rw [get?_clear_derived, bound?]
  cases c.slots.get? name with
  | none => rfl
  | some slot => cases slot with | mk v kind => cases kind <;> rfl

theorem bound?_put_bound (c : Scope) (name other : String) (v : Value) :
    (c.put name ⟨v, .bound⟩).bound? other = if other = name then some v else c.bound? other := by
  unfold bound?
  rw [get?_put]
  split <;> rfl

/-- A memoized value that takes no written one's place leaves all written values. -/
theorem bound?_put_derived {c : Scope} {name : String} (v : Value) (h : c.bound? name = none) (other : String) :
    (c.put name ⟨v, .derived⟩).bound? other = c.bound? other := by
  unfold bound?
  rw [get?_put]
  split
  · rename_i ho
    rw [ho]
    exact h.symm
  · rfl

/-- What is dropped more than once is dropped as the first time. -/
theorem get?_iterate_clear (reach : Reach) (c : Scope) (name : String) (n : Nat) :
    ((clear reach)^[n + 1] c).slots.get? name = (c.clear reach).slots.get? name := by
  induction n with
  | zero => rfl
  | succ n ih =>
    rw [Function.iterate_succ_apply']
    cases reach with
    | everything => rfl
    | derived => rw [get?_clear_derived, ih, get?_clear_derived, Option.filter_filter]; simp

end Scope

namespace Store

variable (st : Store)

/-! ## Reading -/

theorem scope_of_scope? {st : Store} {s : ScopeId} {c : Scope} (h : st.scope? s = some c) : st.scope s = c := by
  rw [scope, h]; rfl

theorem alive_iff {st : Store} {s : ScopeId} : st.alive s = true ↔ ∃ c, st.scope? s = some c :=
  Option.isSome_iff_exists

theorem alive_of_scope? {st : Store} {s : ScopeId} {c : Scope} (h : st.scope? s = some c) : st.alive s = true :=
  alive_iff.2 ⟨c, h⟩

theorem scope?_eq_of_alive {st : Store} {s : ScopeId} (h : st.alive s = true) : st.scope? s = some (st.scope s) := by
  obtain ⟨c, hc⟩ := alive_iff.1 h
  rw [scope_of_scope? hc, hc]

theorem lt_size_of_alive {st : Store} {s : ScopeId} (h : st.alive s = true) : s < st.scopes.size := by
  by_contra hs
  rw [alive, scope?, Array.getElem?_eq_none (Nat.le_of_not_lt hs)] at h
  cases h

theorem chain_of_scope? {st : Store} {s : ScopeId} {c : Scope} (h : st.scope? s = some c) :
    st.chain s = s :: c.ancestors := by rw [chain, scope_of_scope? h]

/-! ## Changing -/

theorem scope?_modify (s : ScopeId) (f : Scope → Scope) (t : ScopeId) :
    (st.modify s f).scope? t = if t = s then (st.scope? s).map f else st.scope? t := by
  unfold scope? modify
  rw [Array.getElem?_modify]
  by_cases h : s = t
  · subst h
    simp only [if_true]
    cases st.scopes[s]? <;> rfl
  · rw [if_neg h, if_neg (Ne.symm h)]

/-- Where a scope comes from that is there after one scope was changed. -/
theorem scope_of_modify {st : Store} {s t : ScopeId} {f : Scope → Scope} {c' : Scope}
    (h : (st.modify s f).scope? t = some c') :
    (∃ c, st.scope? t = some c ∧ t = s ∧ c' = f c) ∨ t ≠ s ∧ st.scope? t = some c' := by
  rw [scope?_modify] at h
  split at h
  · rename_i hts
    obtain ⟨c, hc, rfl⟩ := Option.map_eq_some_iff.1 h
    exact .inl ⟨c, hts ▸ hc, hts, rfl⟩
  · exact .inr ⟨‹_›, h⟩

/-- What a change of one scope does not touch. -/
theorem scope_modify_congr {α : Type} {f : Scope → Scope} (g : Scope → α) (hg : ∀ c, g (f c) = g c)
    (s t : ScopeId) :
    g ((st.modify s f).scope t) = g (st.scope t) := by
  rw [scope, scope?_modify, scope]
  split
  · rename_i hts
    rw [hts]
    cases st.scope? s with
    | none => rfl
    | some c => exact hg c
  · rfl

@[simp] theorem size_modify (s : ScopeId) (f : Scope → Scope) : (st.modify s f).scopes.size = st.scopes.size :=
  Array.size_modify ..

@[simp] theorem alive_modify (s : ScopeId) (f : Scope → Scope) (t : ScopeId) :
    (st.modify s f).alive t = st.alive t := by
  rw [alive, scope?_modify, alive]
  split
  · rename_i h; rw [h, Option.isSome_map]
  · rfl

@[simp] theorem scope?_record (e : Event) (t : ScopeId) : (st.record e).scope? t = st.scope? t := rfl
@[simp] theorem size_record (e : Event) : (st.record e).scopes.size = st.scopes.size := rfl
@[simp] theorem log_record (e : Event) : (st.record e).log = e :: st.log := rfl
@[simp] theorem scope?_countCall (b : Builtin) (t : ScopeId) : (st.countCall b).scope? t = st.scope? t := rfl
@[simp] theorem scope?_takeFresh (t : ScopeId) : st.takeFresh.2.scope? t = st.scope? t := rfl
@[simp] theorem scope?_setDepth (i : Nat) (f : Nat → Nat) (t : ScopeId) :
    (st.setDepth i f).scope? t = st.scope? t := rfl

/-- A value in a scope: the other names and the other scopes are as they were. -/
theorem scope?_put (s : ScopeId) (name : String) (v : Value) (kind : SlotKind) (t : ScopeId) :
    (st.put s name v kind).scope? t = if t = s then (st.scope? s).map (·.put name ⟨v.detach s, kind⟩)
    else st.scope? t :=
  scope?_modify ..

theorem scope_of_put {st : Store} {s t : ScopeId} {name : String} {v : Value} {kind : SlotKind} {c' : Scope}
    (h : (st.put s name v kind).scope? t = some c') :
    (∃ c, st.scope? t = some c ∧ t = s ∧ c' = c.put name ⟨v.detach s, kind⟩) ∨
    t ≠ s ∧ st.scope? t = some c' :=
  scope_of_modify h

@[simp] theorem definitions_put (s : ScopeId) (name : String) (v : Value) (kind : SlotKind) (t : ScopeId) :
    ((st.put s name v kind).scope t).definitions = (st.scope t).definitions := by
  refine st.scope_modify_congr Scope.definitions ?_ s t
  exact fun _ => rfl

@[simp] theorem generation_put (s : ScopeId) (name : String) (v : Value) (kind : SlotKind) (t : ScopeId) :
    ((st.put s name v kind).scope t).generation = (st.scope t).generation := by
  refine st.scope_modify_congr Scope.generation ?_ s t
  exact fun _ => rfl

theorem slot_put {t : ScopeId} (ht : st.alive t = true) (s : ScopeId) (name : String) (v : Value) (kind : SlotKind)
    (n : String) : ((st.put s name v kind).scope t).slots.get? n =
      if t = s ∧ n = name then some ⟨v.detach s, kind⟩ else (st.scope t).slots.get? n := by
  by_cases hts : t = s
  · subst hts
    rw [scope, scope?_put, if_pos rfl, scope?_eq_of_alive ht, Option.map_some, Option.getD_some, Scope.get?_put]
    simp only [true_and]
  · rw [scope, scope?_put, if_neg hts, if_neg fun h => hts h.1, scope]

/-! ## New scopes -/

/-- The scope that `addChild` makes. -/
def newborn (parent : ScopeId) (values : List (String × Value)) : Scope where
  tree := (st.scope parent).tree
  ancestors := st.chain parent
  definitions := .empty
  slots := .ofList (values.map fun (name, v) => (name, ⟨v, .bound⟩))
  listeners := []
  generation := 0

theorem get?_newborn (parent : ScopeId) (values : List (String × Value)) (name : String) :
    (st.newborn parent values).slots.get? name = (values.reverse.lookup name).map (⟨·, .bound⟩) := by
  rw [newborn, Bindings.get?_ofList, ← List.map_reverse]
  exact Bindings.lookup_map (fun v : Value => (⟨v, .bound⟩ : Slot)) name values.reverse

@[simp] theorem addChild_fst (parent : ScopeId) (values : List (String × Value)) :
    (st.addChild parent values).1 = st.scopes.size := rfl

@[simp] theorem size_addChild (parent : ScopeId) (values : List (String × Value)) :
    (st.addChild parent values).2.scopes.size = st.scopes.size + 1 := by
  simp [addChild]

theorem scope?_push (c : Option Scope) (t : ScopeId) :
    ({ st with scopes := st.scopes.push c } : Store).scope? t = if t = st.scopes.size then c else st.scope? t := by
  unfold scope?
  rw [Array.getElem?_push]
  split <;> rfl

theorem scope?_addChild {st : Store} {parent : ScopeId} (hp : st.alive parent = true) (values : List (String × Value))
    (t : ScopeId) :
    (st.addChild parent values).2.scope? t =
      if t = st.scopes.size then some (st.newborn parent values)
      else if t = parent then (st.scope? parent).map (·.listen st.scopes.size)
      else st.scope? t := by
  have hne : parent ≠ st.scopes.size := Nat.ne_of_lt (lt_size_of_alive hp)
  rw [addChild, scope?_modify, scope?_push, scope?_push, if_neg hne]
  by_cases ht : t = parent
  · rw [if_pos ht, if_neg (ht ▸ hne), if_pos ht]
  · rw [if_neg ht, if_neg ht]
    rfl

/-- A scope that is there keeps all but its listeners when a scope gets a child. -/
theorem scope?_addChild_of_scope? {st : Store} {parent t : ScopeId} {c : Scope} (hp : st.alive parent = true)
    (values : List (String × Value)) (hc : st.scope? t = some c) :
    ∃ l, (st.addChild parent values).2.scope? t = some { c with listeners := l } := by
  rw [scope?_addChild hp, if_neg (Nat.ne_of_lt (lt_size_of_alive (alive_of_scope? hc)))]
  split
  · rename_i he
    rw [← he, hc]
    exact ⟨_, rfl⟩
  · exact ⟨c.listeners, hc⟩

end Store
end LazyFormula
