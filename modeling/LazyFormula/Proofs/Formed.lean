import LazyFormula.Form
import LazyFormula.Proofs.Procedures
import LazyFormula.Proofs.Scopes
/-!
# Formed stores

What holds of the store between any two changes of it: a scope that lives has a living parent below it in number, which
has it among its listeners; a procedure that a scope holds is held weakly exactly if it closes over that very scope;
and all expressions that may still be evaluated belong to one fragment of the language.
-/
namespace LazyFormula

/-! ## Fragments of the language -/

/-- The expressions that a form hands on: those it evaluates, and the body of a lambda. -/
def Form.parts : Form → List Expr
  | .nil | .quote _ => []
  | .conditional test consequent alternative => [test, consequent, alternative]
  | .define _ e | .assign _ e | .lambda _ e => [e]
  | .apply callee args => callee :: args

/-- A list that asks for nothing is malformed. -/
theorem Form.ofItems_eq_error {items : List Expr} {e : EvalError} (h : Form.ofItems items = .error e) :
    ∃ form, e = .malformed form items := by
  unfold ofItems at h
  split at h
  · cases h
  · unfold ofKeyword ofQuote ofConditional ofDefine ofAssign ofLambda at h
    repeat' split at h
    all_goals cases h
    all_goals exact ⟨_, rfl⟩
  · cases h

/-- **A fragment**: expressions whose evaluation meets expressions of the fragment alone. -/
structure Fragment where
  Mem : Expr → Prop
  /-- Whether forms of the fragment may assign. -/
  assigns : Prop
  parts {items : List Expr} {form : Form} : Mem (.list items) → Form.ofItems items = .ok form →
    ∀ e ∈ form.parts, Mem e
  assigning {items : List Expr} {name : String} {e : Expr} :
    Mem (.list items) → Form.ofItems items = .ok (.assign name e) → assigns

/-- The whole language. -/
def Fragment.full : Fragment where
  Mem _ := True
  assigns := True
  parts _ _ _ _ := trivial
  assigning _ _ := trivial

variable {L : Fragment}

namespace Store

/-! ## Values in flight and values at rest -/

/-- **A value outside of scopes**: its procedures hold their scopes, which live. -/
def Supports (L : Fragment) (st : Store) (v : Value) : Prop :=
  ∀ p ∈ v.procedures, L.Mem p.lambda.body ∧ st.alive p.scope = true ∧ p.hold = .strong

/-- **A value in a scope**: its procedures hold living scopes, but not the scope they are in. -/
def Keeps (L : Fragment) (st : Store) (s : ScopeId) (v : Value) : Prop :=
  ∀ p ∈ v.procedures, L.Mem p.lambda.body ∧ st.alive p.scope = true ∧ (p.hold = .weak ↔ p.scope = s)

variable {st st' : Store} {s : ScopeId} {v : Value}

theorem Supports.mono (h : st.Supports L v) (ha : ∀ t, st.alive t = true → st'.alive t = true) : st'.Supports L v :=
  fun p hp => ⟨(h p hp).1, ha _ (h p hp).2.1, (h p hp).2.2⟩

theorem Keeps.mono (h : st.Keeps L s v) (ha : ∀ t, st.alive t = true → st'.alive t = true) : st'.Keeps L s v :=
  fun p hp => ⟨(h p hp).1, ha _ (h p hp).2.1, (h p hp).2.2⟩

theorem supports_of_procedures_eq_nil (h : v.procedures = []) : st.Supports L v := by
  intro p hp
  rw [h] at hp
  cases hp

theorem supports_list {vs : List Value} : st.Supports L (.list vs) ↔ ∀ v ∈ vs, st.Supports L v := by
  constructor
  · exact fun h v hv p hp => h p (Value.mem_procedures_list.2 ⟨v, hv, hp⟩)
  · intro h p hp
    obtain ⟨v, hv, hp⟩ := Value.mem_procedures_list.1 hp
    exact h v hv p hp

/-- A value on its way into a scope comes to rest there. -/
theorem Supports.detach (h : st.Supports L v) (s : ScopeId) : st.Keeps L s (v.detach s) := by
  intro p hp
  rw [Value.detach, Value.procedures_mapProcedures] at hp
  obtain ⟨q, hq, rfl⟩ := List.mem_map.1 hp
  obtain ⟨hb, ha, hh⟩ := h q hq
  by_cases hs : q.scope = s
  · simp only [hs, if_true]
    exact ⟨hb, hs ▸ ha, by simp⟩
  · simp only [hs, if_false]
    exact ⟨hb, ha, by simp [hh]⟩

/-- A value on its way out of a scope is free of it. -/
theorem Keeps.attach (h : st.Keeps L s v) : st.Supports L (v.attach st.alive) := by
  intro p hp
  rw [Value.attach, Value.procedures_mapProcedures] at hp
  obtain ⟨q, hq, rfl⟩ := List.mem_map.1 hp
  obtain ⟨hb, ha, -⟩ := h q hq
  cases hh : q.hold with
  | weak => simp [ha, hb]
  | strong => simp [ha, hb, hh]

/-- What was put in is what comes out. -/
theorem Supports.attach_detach (h : st.Supports L v) (s : ScopeId) : (v.detach s).attach st.alive = v := by
  rw [Value.attach, Value.detach, Value.mapProcedures_mapProcedures]
  refine Value.mapProcedures_eq_self fun p hp => ?_
  obtain ⟨-, ha, hh⟩ := h p hp
  rcases p with ⟨l, t, hold⟩
  cases hh
  by_cases hs : t = s
  · subst hs; simp [ha]
  · simp [hs]

theorem Supports.recapture (h : st.Supports L v) (hs : st.alive s = true) (t : ScopeId) :
    st.Supports L (v.recapture t s) := by
  intro p hp
  rw [Value.recapture, Value.procedures_mapProcedures] at hp
  obtain ⟨q, hq, rfl⟩ := List.mem_map.1 hp
  obtain ⟨hb, ha, hh⟩ := h q hq
  by_cases ht : q.scope = t
  · simp [ht, hb, hs]
  · simp [ht, hb, ha, hh]

/-! ## Formed stores -/

/-- **A store is formed.** -/
structure Formed (L : Fragment) (st : Store) : Prop where
  parented {s p : ScopeId} {c : Scope} {up : List ScopeId} :
    st.scope? s = some c → c.ancestors = p :: up → p < s ∧ st.alive p = true ∧ up = (st.scope p).ancestors
  listening {s p : ScopeId} {c : Scope} {up : List ScopeId} :
    st.scope? s = some c → c.ancestors = p :: up → s ∈ (st.scope p).listeners
  nodup_listeners {p : ScopeId} {c : Scope} : st.scope? p = some c → c.listeners.Nodup
  listened {p t : ScopeId} {c d : Scope} : st.scope? p = some c → t ∈ c.listeners → st.scope? t = some d →
    d.parent? = some p
  listener_lt {p t : ScopeId} {c : Scope} : st.scope? p = some c → t ∈ c.listeners → t < st.scopes.size
  definitions {s : ScopeId} {c : Scope} {name : String} {e : Expr} :
    st.scope? s = some c → c.definitions.get? name = some e → L.Mem e
  slots {s : ScopeId} {c : Scope} {name : String} {slot : Slot} :
    st.scope? s = some c → c.slots.get? name = some slot → st.Keeps L s slot.value

theorem formed_empty : (empty : Store).Formed L := by
  constructor <;> intro _ _ <;> intros <;> simp_all [scope?, empty]

namespace Formed

theorem chain_eq (h : st.Formed L) {p : ScopeId} {c : Scope} {up : List ScopeId} (hc : st.scope? s = some c)
    (hp : c.ancestors = p :: up) : st.chain s = s :: st.chain p := by
  rw [chain_of_scope? hc, hp, chain, (h.parented hc hp).2.2]

/-- The scopes that a name is looked up in live, and are numbered downward. -/
theorem alive_of_mem_chain (h : st.Formed L) : ∀ {s t : ScopeId}, st.alive s = true → t ∈ st.chain s →
    st.alive t = true ∧ t ≤ s := by
  intro s
  induction s using Nat.strongRecOn with
  | _ s ih =>
    intro t hs ht
    obtain ⟨c, hc⟩ := alive_iff.1 hs
    cases hp : c.ancestors with
    | nil =>
      rw [chain_of_scope? hc, hp, List.mem_singleton] at ht
      rw [ht]
      exact ⟨hs, Nat.le_refl _⟩
    | cons p up =>
      rw [h.chain_eq hc hp] at ht
      obtain ⟨hlt, hpa, -⟩ := h.parented hc hp
      rcases List.mem_cons.1 ht with rfl | ht
      · exact ⟨hs, Nat.le_refl _⟩
      · obtain ⟨ha, hle⟩ := ih p hlt hpa ht
        exact ⟨ha, Nat.le_trans hle (Nat.le_of_lt hlt)⟩

/-- The chain of a scope on a chain is the rest of that chain. -/
theorem chain_drop (h : st.Formed L) : ∀ {s : ScopeId} (i : Nat) {t : ScopeId}, st.alive s = true →
    (st.chain s)[i]? = some t → (st.chain s).drop i = st.chain t := by
  intro s
  induction s using Nat.strongRecOn with
  | _ s ih =>
    intro i t hs ht
    obtain ⟨c, hc⟩ := alive_iff.1 hs
    cases i with
    | zero =>
      cases ht
      rfl
    | succ i =>
      cases hp : c.ancestors with
      | nil =>
        rw [chain_of_scope? hc, hp] at ht
        cases ht
      | cons p up =>
        obtain ⟨hlt, hpa, -⟩ := h.parented hc hp
        rw [h.chain_eq hc hp] at ht ⊢
        exact ih p hlt i hpa ht

theorem chain_split (h : st.Formed L) {t : ScopeId} (hs : st.alive s = true) (ht : t ∈ st.chain s) :
    ∃ below, st.chain s = below ++ st.chain t := by
  obtain ⟨i, hi⟩ := List.mem_iff_getElem?.1 ht
  refine ⟨(st.chain s).take i, ?_⟩
  rw [← h.chain_drop i hs hi, List.take_append_drop]

theorem mem_chain_trans (h : st.Formed L) {t u : ScopeId} (hs : st.alive s = true) (ht : t ∈ st.chain s)
    (hu : u ∈ st.chain t) : u ∈ st.chain s := by
  obtain ⟨below, hb⟩ := h.chain_split hs ht
  rw [hb]
  exact List.mem_append_right _ hu

theorem chain_antisymm (h : st.Formed L) {t : ScopeId} (hs : st.alive s = true) (ht : t ∈ st.chain s)
    (hst : s ∈ st.chain t) : s = t :=
  Nat.le_antisymm (h.alive_of_mem_chain (h.alive_of_mem_chain hs ht).1 hst).2 (h.alive_of_mem_chain hs ht).2

/-- What follows a scope on a chain is what follows it on its own. -/
theorem chain_of_split (h : st.Formed L) {u : ScopeId} {below above : List ScopeId} (hs : st.alive s = true)
    (hchain : st.chain s = below ++ u :: above) : st.chain u = u :: above := by
  have hdrop := h.chain_drop (t := u) below.length hs (by rw [hchain, List.getElem?_append_right (Nat.le_refl _)]; simp)
  rw [← hdrop, hchain, List.drop_left]

/-- What comes first on a chain is properly below what comes later. -/
theorem mem_chain_of_before (h : st.Formed L) {t u : ScopeId} {below above : List ScopeId} (hs : st.alive s = true)
    (hchain : st.chain s = below ++ u :: above) (ht : t ∈ below) : u ∈ st.chain t ∧ t ≠ u := by
  obtain ⟨i, hi⟩ := List.mem_iff_getElem?.1 ht
  obtain ⟨hlt, hget⟩ := List.getElem?_eq_some_iff.1 hi
  have hdrop := h.chain_drop i hs (by rw [hchain, List.getElem?_append_left hlt, hi])
  have hup := h.chain_of_split hs hchain
  rw [hchain, List.drop_append_of_le_length (Nat.le_of_lt hlt)] at hdrop
  refine ⟨hdrop ▸ List.mem_append_right _ List.mem_cons_self, ?_⟩
  rintro rfl
  have hlen := congrArg List.length (hdrop.trans hup)
  rw [List.length_append, List.length_drop] at hlen
  omega

theorem chain_length_le (h : st.Formed L) : ∀ {s : ScopeId}, st.alive s = true → (st.chain s).length ≤ s + 1 := by
  intro s
  induction s using Nat.strongRecOn with
  | _ s ih =>
    intro hs
    obtain ⟨c, hc⟩ := alive_iff.1 hs
    cases hp : c.ancestors with
    | nil => rw [chain_of_scope? hc, hp]; simp
    | cons p up =>
      obtain ⟨hlt, hpa, -⟩ := h.parented hc hp
      rw [h.chain_eq hc hp, List.length_cons]
      exact Nat.succ_le_succ (Nat.le_trans (ih p hlt hpa) hlt)

end Formed
end Store
end LazyFormula
