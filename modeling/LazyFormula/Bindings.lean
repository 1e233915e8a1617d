/-!
# Bindings

What a scope knows by name: at most one entry for every name. Two facts say it all: `get?_insert` and `get?_filter`.
-/
namespace LazyFormula

/-- **Entries by name**, each name once. -/
structure Bindings (α : Type) where
  entries : List (String × α)
  distinct : (entries.map Prod.fst).Nodup

namespace Bindings

variable {α : Type}

def empty : Bindings α := ⟨[], .nil⟩

instance : EmptyCollection (Bindings α) := ⟨empty⟩

instance : Inhabited (Bindings α) := ⟨empty⟩

/-- The entry of a name. -/
def get? (b : Bindings α) (name : String) : Option α := b.entries.lookup name

def contains (b : Bindings α) (name : String) : Bool := (b.get? name).isSome

/-- The entries that satisfy a condition. -/
def filter (b : Bindings α) (p : String → α → Bool) : Bindings α where
  entries := b.entries.filter fun e => p e.1 e.2
  distinct := b.distinct.sublist ((List.filter_sublist).map Prod.fst)

/-- A name with its entry, in place of the one that it had. -/
def insert (b : Bindings α) (name : String) (value : α) : Bindings α where
  entries := (name, value) :: (b.filter fun n _ => n != name).entries
  distinct := by
    refine List.nodup_cons.2 ⟨fun h => ?_, (b.filter fun n _ => n != name).distinct⟩
    obtain ⟨e, he, rfl⟩ := List.mem_map.1 h
    simpa using (List.mem_filter.1 he).2

/-- Entries put in one after the other, so the last one of a name stays. -/
def insertAll (b : Bindings α) (entries : List (String × α)) : Bindings α :=
  entries.foldl (fun b e => b.insert e.1 e.2) b

def ofList (entries : List (String × α)) : Bindings α := empty.insertAll entries

def values (b : Bindings α) : List α := b.entries.map Prod.snd

/-- The names in ascending order. -/
def names (b : Bindings α) : List String := (b.entries.map Prod.fst).mergeSort (· ≤ ·)

def isEmpty (b : Bindings α) : Bool := b.entries.isEmpty

/-! ## Looking up -/

@[simp] theorem get?_empty (name : String) : (empty : Bindings α).get? name = none := rfl

theorem lookup_filter (p : String → α → Bool) (name : String) :
    ∀ {es : List (String × α)}, (es.map Prod.fst).Nodup →
      (es.filter fun e => p e.1 e.2).lookup name = (es.lookup name).filter (p name)
  | [], _ => rfl
  | (n, v) :: es, h => by
    have ih := lookup_filter p name (List.nodup_cons.1 h).2
    by_cases hn : name = n
    · subst hn
      have hes : es.lookup name = none := by
        rw [List.lookup_eq_none_iff]
        intro e he
        have : e.1 ≠ name := fun hc => (List.nodup_cons.1 h).1 (List.mem_map.2 ⟨e, he, hc⟩)
        simpa using fun hc => this hc.symm
      by_cases hp : p name v
      · simp [hp, Option.filter]
      · simp [hp, ih, hes, Option.filter]
    · by_cases hp : p n v <;> simp [hp, List.lookup_cons, beq_false_of_ne hn, ih]

theorem get?_filter (b : Bindings α) (p : String → α → Bool) (name : String) :
    (b.filter p).get? name = (b.get? name).filter (p name) :=
  lookup_filter p name b.distinct

theorem get?_insert (b : Bindings α) (name other : String) (value : α) :
    (b.insert name value).get? other = if other = name then some value else b.get? other := by
  by_cases h : other = name
  · subst h; simp [get?, insert]
  · have : (b.filter fun n _ => n != name).get? other = b.get? other := by
      rw [get?_filter]
      cases b.get? other <;> simp [h, Option.filter]
    simpa [get?, insert, List.lookup_cons, beq_false_of_ne h, h] using this

end Bindings
end LazyFormula
