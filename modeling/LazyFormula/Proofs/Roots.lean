import LazyFormula.Proofs.Depth
import LazyFormula.Proofs.Evolution
import LazyFormula.Root
/-!
# New roots

A root is made of two scopes in a tree of their own: one with the builtins and constants, and a child of it. The scopes
that were there stay alive, and the store stays formed.
-/
namespace LazyFormula
namespace Store

variable {L : Fragment} {st : Store} {t : ScopeId}

/-- The scope that `addOrphan` makes. -/
def orphan (st : Store) : Scope := ⟨st.trees.size, [], .empty, .empty, [], 0⟩

theorem scope?_addOrphan (st : Store) (maxDepth : Nat) (t : ScopeId) :
    (st.addOrphan maxDepth).2.scope? t = if t = st.scopes.size then some st.orphan else st.scope? t :=
  scope?_push ..

theorem alive_addOrphan_of_alive (maxDepth : Nat) (ht : st.alive t = true) :
    (st.addOrphan maxDepth).2.alive t = true := by
  rw [alive, scope?_addOrphan, if_neg (Nat.ne_of_lt (lt_size_of_alive ht))]
  exact ht

theorem alive_addOrphan_size (st : Store) (maxDepth : Nat) :
    (st.addOrphan maxDepth).2.alive st.scopes.size = true := by
  rw [alive, scope?_addOrphan, if_pos rfl]
  rfl

theorem Formed.addOrphan (h : st.Formed L) (maxDepth : Nat) : (st.addOrphan maxDepth).2.Formed L := by
  have hmono : ∀ {t}, st.alive t = true → (st.addOrphan maxDepth).2.alive t = true :=
    fun ht => alive_addOrphan_of_alive maxDepth ht
  have hold : ∀ {t c}, (st.addOrphan maxDepth).2.scope? t = some c → c ≠ st.orphan → st.scope? t = some c := by
    intro t c hc hne
    rw [scope?_addOrphan] at hc
    split at hc
    · exact absurd (Option.some.inj hc).symm hne
    · exact hc
  have hscope : ∀ {t}, st.alive t = true → (st.addOrphan maxDepth).2.scope t = st.scope t := by
    intro t ht
    rw [scope, scope?_addOrphan, if_neg (Nat.ne_of_lt (lt_size_of_alive ht)), ← scope]
  constructor
  · intro s p c up hc hp
    obtain ⟨hlt, ha, hup⟩ := h.parented (hold hc (by rintro rfl; cases hp)) hp
    exact ⟨hlt, hmono ha, by rw [hup, hscope ha]⟩
  · intro s p c up hc hp
    have hcc := hold hc (by rintro rfl; cases hp)
    rw [hscope (h.parented hcc hp).2.1]
    exact h.listening hcc hp
  · intro p c hc
    by_cases hne : c = st.orphan
    · rw [hne]; exact List.nodup_nil
    · exact h.nodup_listeners (hold hc hne)
  · intro p t c d hc ht hd
    have hcc := hold hc (by rintro rfl; cases ht)
    rw [scope?_addOrphan, if_neg (Nat.ne_of_lt (h.listener_lt hcc ht))] at hd
    exact h.listened hcc ht hd
  · intro p t c hc ht
    rw [Store.addOrphan, Array.size_push]
    exact Nat.lt_succ_of_lt (h.listener_lt (hold hc (by rintro rfl; cases ht)) ht)
  · intro s c name e hc he
    exact h.definitions (hold hc (by rintro rfl; cases he)) he
  · intro s c name slot hc hslot
    exact (h.slots (hold hc (by rintro rfl; cases hslot)) hslot).mono fun _ => hmono

/-- What a root starts with holds no procedures. -/
theorem procedures_standardValues (first : Nat) : ∀ x ∈ Root.standardValues first, x.2.procedures = [] := by
  intro x hx
  rcases List.mem_append.1 hx with hx | hx
  · simp only [Root.constants, List.mem_cons, List.not_mem_nil, or_false] at hx
    rcases hx with rfl | rfl | rfl | rfl | rfl | rfl | rfl <;> rfl
  · obtain ⟨⟨a, i⟩, -, rfl⟩ := List.mem_map.1 hx
    rfl

theorem procedures_standardValue {first : Nat} {name : String} {v : Value}
    (h : (Root.standardValues first).reverse.lookup name = some v) : v.procedures = [] :=
  procedures_standardValues first _ (mem_of_lookup_reverse h)

/-- The scope with the builtins of a new root, and all that was there before. -/
def withBuiltins (st : Store) (maxDepth : Nat) : Store :=
  Store.update { (st.addOrphan maxDepth).2 with fresh := st.fresh + Root.actions.length } st.scopes.size
    (Root.standardValues st.fresh)

theorem addRoot_eq (st : Store) (maxDepth : Nat) :
    st.addRoot maxDepth = (st.withBuiltins maxDepth).addChild st.scopes.size [] := rfl

theorem alive_withBuiltins (st : Store) (maxDepth : Nat) (t : ScopeId) :
    (st.withBuiltins maxDepth).alive t = (st.addOrphan maxDepth).2.alive t := alive_update ..

theorem Formed.withBuiltins (h : st.Formed L) (maxDepth : Nat) : (st.withBuiltins maxDepth).Formed L := by
  have hf : Store.Formed L { (st.addOrphan maxDepth).2 with fresh := st.fresh + Root.actions.length } :=
    (h.addOrphan maxDepth).congr rfl fun _ => rfl
  exact hf.update (fun x hx => supports_of_procedures_eq_nil (procedures_standardValues _ x hx)) _

theorem alive_withBuiltins_size (st : Store) (maxDepth : Nat) :
    (st.withBuiltins maxDepth).alive st.scopes.size = true :=
  (alive_withBuiltins ..).trans (alive_addOrphan_size st maxDepth)

theorem size_withBuiltins (st : Store) (maxDepth : Nat) :
    (st.withBuiltins maxDepth).scopes.size = st.scopes.size + 1 := by
  rw [withBuiltins, size_update]
  exact Array.size_push ..

theorem trees_withBuiltins (st : Store) (maxDepth : Nat) :
    (st.withBuiltins maxDepth).trees = st.trees.push ⟨maxDepth, 0⟩ := (trees_update _ _ _).trans rfl

theorem trees_addRoot (st : Store) (maxDepth : Nat) :
    (st.addRoot maxDepth).2.trees = st.trees.push ⟨maxDepth, 0⟩ := by
  rw [addRoot_eq, trees_addChild, trees_withBuiltins]

/-- The scope with the builtins has nothing else. -/
theorem scope?_withBuiltins_size (st : Store) (maxDepth : Nat) :
    ∃ c, (st.withBuiltins maxDepth).scope? st.scopes.size = some c ∧ c.ancestors = [] ∧ c.tree = st.trees.size ∧
      (∀ name, c.definitions.get? name = none) ∧
      ∀ name, c.slots.get? name = ((Root.standardValues st.fresh).reverse.lookup name).map (⟨·, .bound⟩) := by
  let base : Store := { (st.addOrphan maxDepth).2 with fresh := st.fresh + Root.actions.length }
  have horphan : base.scope? st.scopes.size = some st.orphan := (scope?_addOrphan st maxDepth _).trans (if_pos rfl)
  obtain ⟨c, hc, hd⟩ := dropped_of_mem_reach (base.self_mem_reach st.scopes.size) horphan .derived
    ((Root.standardValues st.fresh).map Prod.fst)
  have hscope := scope?_puts st.scopes.size st.scopes.size (Root.standardValues st.fresh)
    (base.invalidate st.scopes.size .derived ((Root.standardValues st.fresh).map Prod.fst))
  rw [if_pos rfl, hc, Option.map_some] at hscope
  refine ⟨_, hscope, hd.ancestors, hd.tree, fun name => by rw [hd.definitions]; rfl, fun name => ?_⟩
  refine (Bindings.get?_insertAll_map _ (fun v : Value => (⟨v.detach st.scopes.size, .bound⟩ : Slot))
    name _).trans ?_
  rw [hd.slots, Scope.get?_clear_derived_eq_bound?]
  show Option.or _ none = _
  rw [Option.or_none]
  cases hv : (Root.standardValues st.fresh).reverse.lookup name with
  | none => rfl
  | some v =>
    have hdetach : v.detach st.scopes.size = v := Value.mapProcedures_eq_self fun q hq => by
      rw [procedures_standardValue hv] at hq
      cases hq
    rw [Option.map_some, Option.map_some, hdetach]

theorem Formed.addRoot (h : st.Formed L) (maxDepth : Nat) : (st.addRoot maxDepth).2.Formed L := by
  rw [addRoot_eq]
  exact (h.withBuiltins maxDepth).addChild (alive_withBuiltins_size st maxDepth) nofun

theorem alive_addRoot_of_alive (maxDepth : Nat) (ht : st.alive t = true) : (st.addRoot maxDepth).2.alive t = true := by
  rw [addRoot_eq]
  refine alive_addChild_of_alive (alive_withBuiltins_size st maxDepth) [] ?_
  rw [alive_withBuiltins]
  exact alive_addOrphan_of_alive maxDepth ht

theorem alive_addRoot_fst (st : Store) (maxDepth : Nat) :
    (st.addRoot maxDepth).2.alive (st.addRoot maxDepth).1 = true := by
  rw [addRoot_eq, addChild_fst]
  exact alive_addChild_size (alive_withBuiltins_size st maxDepth) []

end Store
end LazyFormula
