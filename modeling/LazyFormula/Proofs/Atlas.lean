import LazyFormula.Proofs.Meaning
import LazyFormula.Proofs.Formed
import Mathlib.Data.Set.Insert
/-!
# Names that do not depend on history

The numbers of scopes and lambdas depend on all that a store went through. An atlas tells of some of them where they
come from, which does not. It grows with what an evaluation makes, and when the evaluation of a definition is over,
what it made is known by the definition from then on (`Atlas.join`).
-/
namespace LazyFormula

namespace Origin

/-- Whether something was made by the evaluation in progress. -/
def isOwn : Origin → Bool
  | .own _ => true
  | _ => false

variable {o o' : Origin} {name : String}

theorem settle_of_isOwn (h : o.isOwn = false) (name : String) : o.settle name = o := by
  cases o with
  | own k => cases h
  | builtins | root | settled name k => rfl

@[simp] theorem isOwn_settle (o : Origin) (name : String) : (o.settle name).isOwn = false := by cases o <;> rfl

theorem settle_eq_root : o.settle name = .root ↔ o = .root := by cases o <;> simp [settle]

theorem settle_eq_settled {n : String} {k : Nat} (h : o.settle name = .settled n k) :
    n = name ∨ o = .settled n k := by
  cases o with
  | own k' =>
    cases h
    exact .inl rfl
  | builtins | root | settled n' k' => exact .inr h

/-- Nothing that was made before is confused with what was made now. -/
theorem eq_of_settle_eq (h : o.settle name = o'.settle name) (ho : ∀ k, o ≠ .settled name k)
    (ho' : ∀ k, o' ≠ .settled name k) : o = o' := by
  cases o with
  | own k =>
    cases o' with
    | own k' =>
      cases h
      rfl
    | settled name' k' =>
      cases h
      exact absurd rfl (ho' _)
    | builtins | root => cases h
  | settled name₁ k =>
    cases o' with
    | own k' =>
      cases h
      exact absurd rfl (ho _)
    | builtins | root | settled name' k' => exact h
  | builtins | root =>
    cases o' with
    | own k' => cases h
    | builtins | root | settled name' k' => exact h

end Origin

/-! ## Names of numbers -/

/-- **Where some numbers come from.** -/
structure Naming where
  ids : Set Nat
  origin : Nat → Origin

namespace Naming

variable {N N₁ N' : Naming} {s t : Nat} {o : Origin} {name : String} {base base' : Nat}

/-- The same names, and more. -/
structure Le (N N' : Naming) : Prop where
  mem {s : Nat} : s ∈ N.ids → s ∈ N'.ids
  origin {s : Nat} : s ∈ N.ids → N'.origin s = N.origin s

theorem Le.refl (N : Naming) : N.Le N := ⟨id, fun _ => rfl⟩

theorem Le.trans (h : N.Le N₁) (h' : N₁.Le N') : N.Le N' :=
  ⟨fun hs => h'.mem (h.mem hs), fun hs => (h'.origin (h.mem hs)).trans (h.origin hs)⟩

/-- More names, of numbers that were not in use. -/
structure Extends (N : Naming) (base : Nat) (N' : Naming) : Prop extends Le N N' where
  fresh {s : Nat} : s ∈ N'.ids → s ∈ N.ids ∨ base ≤ s

theorem Extends.refl (N : Naming) (base : Nat) : N.Extends base N := ⟨.refl N, .inl⟩

theorem Extends.trans (h : N.Extends base N₁) (h' : N₁.Extends base' N') (hb : base ≤ base') :
    N.Extends base N' where
  toLe := h.toLe.trans h'.toLe
  fresh hs := by
    rcases h'.fresh hs with hs | hs
    · exact h.fresh hs
    · exact .inr (Nat.le_trans hb hs)

/-- Different numbers have different names. -/
def Distinct (N : Naming) : Prop := ∀ s t, s ∈ N.ids → t ∈ N.ids → N.origin s = N.origin t → s = t

/-! ### One more name -/

def add (N : Naming) (id : Nat) (o : Origin) : Naming :=
  ⟨insert id N.ids, fun s => if s = id then o else N.origin s⟩

@[simp] theorem origin_add_self (N : Naming) (id : Nat) (o : Origin) : (N.add id o).origin id = o := if_pos rfl

theorem origin_add_of_ne {id : Nat} (h : s ≠ id) : (N.add id o).origin s = N.origin s := if_neg h

theorem extends_add {id : Nat} (h : ∀ {s}, s ∈ N.ids → s < id) (o : Origin) : N.Extends id (N.add id o) where
  mem hs := .inr hs
  origin hs := origin_add_of_ne (Nat.ne_of_lt (h hs))
  fresh {s} hs := by
    rcases hs with rfl | hs
    · exact .inr (Nat.le_refl s)
    · exact .inl hs

theorem Distinct.add (h : N.Distinct) {id : Nat} (hid : id ∉ N.ids) (ho : ∀ {s}, s ∈ N.ids → N.origin s ≠ o) :
    (N.add id o).Distinct := by
  have hne : ∀ {s}, s ∈ N.ids → s ≠ id := fun hs he => hid (he ▸ hs)
  rintro s t (rfl | hs) (rfl | ht) he
  · rfl
  · rw [origin_add_self, origin_add_of_ne (hne ht)] at he
    exact absurd he.symm (ho ht)
  · rw [origin_add_self, origin_add_of_ne (hne hs)] at he
    exact absurd he (ho hs)
  · rw [origin_add_of_ne (hne hs), origin_add_of_ne (hne ht)] at he
    exact h s t hs ht he

/-! ### Evaluations that are over -/

/-- The names that were there before the evaluation in progress. -/
def before (N : Naming) : Naming := ⟨{s | s ∈ N.ids ∧ (N.origin s).isOwn = false}, N.origin⟩

theorem Distinct.before (h : N.Distinct) : N.before.Distinct := fun s t hs ht he => h s t hs.1 ht.1 he

open Classical in
/-- The names of an evaluation in progress, with those of the evaluation of a definition that was forced meanwhile. -/
noncomputable def join (N N₁ : Naming) (name : String) : Naming :=
  ⟨N.ids ∪ N₁.ids, fun s => if s ∈ N.ids then N.origin s else (N₁.origin s).settle name⟩

section
-- `N₁` has the names of an evaluation that started with those that were there before
variable (h : N.before.Extends base N₁) (hlt : ∀ {s}, s ∈ N.ids → s < base)
include h

theorem Extends.join : N.Extends base (N.join N₁ name) where
  mem := .inl
  origin hs := if_pos hs
  fresh hs := by
    rcases hs with hs | hs
    · exact .inl hs
    · exact (h.fresh hs).imp_left (·.1)

include hlt

/-- An outer name is no name inside unless it was there before. -/
theorem Extends.isOwn_eq_false (hs : s ∈ N.ids) (hs₁ : s ∈ N₁.ids) : (N.origin s).isOwn = false := by
  rcases h.fresh hs₁ with hb | hb
  · exact hb.2
  · exact absurd (hlt hs) (Nat.not_lt.2 hb)

theorem Extends.origin_join (hs : s ∈ N₁.ids) : (N.join N₁ name).origin s = (N₁.origin s).settle name := by
  by_cases hn : s ∈ N.ids
  · have hown := h.isOwn_eq_false hlt hn hs
    have horigin : N₁.origin s = N.origin s := h.origin ⟨hn, hown⟩
    rw [horigin, Origin.settle_of_isOwn hown]
    exact if_pos hn
  · exact if_neg hn

/-- What the evaluation in progress made is what it made before. -/
theorem Extends.join_own {k : Nat} (hs : s ∈ (N.join N₁ name).ids) (ho : (N.join N₁ name).origin s = .own k) :
    s ∈ N.ids ∧ N.origin s = .own k := by
  rcases hs with hs | hs
  · exact ⟨hs, (h.join.origin hs).symm.trans ho⟩
  · have hown := (N₁.origin s).isOwn_settle name
    rw [← h.origin_join hlt hs, ho] at hown
    cases hown

/-- What is settled was so before, outside or inside, or is so now. -/
theorem Extends.join_settled {n : String} {k : Nat} (hs : s ∈ (N.join N₁ name).ids)
    (ho : (N.join N₁ name).origin s = .settled n k) :
    (s ∈ N.ids ∧ N.origin s = .settled n k) ∨ n = name ∨ s ∈ N₁.ids ∧ N₁.origin s = .settled n k := by
  rcases hs with hs | hs
  · exact .inl ⟨hs, (h.join.origin hs).symm.trans ho⟩
  · rw [h.origin_join hlt hs] at ho
    exact .inr ((Origin.settle_eq_settled ho).imp_right fun ho => ⟨hs, ho⟩)

theorem Extends.distinct_join (hd : N.Distinct) (hd₁ : N₁.Distinct)
    (hname : ∀ {s k}, s ∈ N₁.ids → N₁.origin s ≠ .settled name k) : (N.join N₁ name).Distinct := by
  -- what is not among the inner names was made by the outer evaluation itself
  have houter : ∀ {s}, s ∈ (N.join N₁ name).ids → s ∉ N₁.ids →
      s ∈ N.ids ∧ (N.join N₁ name).origin s = N.origin s ∧ (N.origin s).isOwn = true := by
    intro s hs hs₁
    have hs := hs.resolve_right hs₁
    refine ⟨hs, if_pos hs, ?_⟩
    by_contra hown
    exact hs₁ (h.mem ⟨hs, by simpa using hown⟩)
  have hmixed : ∀ {s t}, s ∈ N₁.ids → t ∈ (N.join N₁ name).ids → t ∉ N₁.ids →
      (N.join N₁ name).origin s ≠ (N.join N₁ name).origin t := by
    intro s t hs ht ht₁ he
    obtain ⟨-, ho, hown⟩ := houter ht ht₁
    rw [h.origin_join hlt hs, ho] at he
    rw [← he, Origin.isOwn_settle] at hown
    cases hown
  intro s t hs ht he
  by_cases hs₁ : s ∈ N₁.ids
  · by_cases ht₁ : t ∈ N₁.ids
    · rw [h.origin_join hlt hs₁, h.origin_join hlt ht₁] at he
      exact hd₁ s t hs₁ ht₁ (Origin.eq_of_settle_eq he (fun _ => hname hs₁) fun _ => hname ht₁)
    · exact absurd he (hmixed hs₁ ht ht₁)
  · by_cases ht₁ : t ∈ N₁.ids
    · exact absurd he.symm (hmixed ht₁ hs hs₁)
    · obtain ⟨hs, ho, -⟩ := houter hs hs₁
      obtain ⟨ht, ho', -⟩ := houter ht ht₁
      rw [ho, ho'] at he
      exact hd s t hs ht he

end
end Naming

/-! ## Names of scopes and lambdas -/

/-- **Where the scopes and lambdas of a store come from**, as far as they are accounted for. -/
structure Atlas where
  scopes : Naming
  lambdas : Naming

namespace Atlas

variable {A A₁ A' : Atlas} {L : Fragment} {v w : Value} {name : String}

/-- The numbers that do not depend on history. -/
def codes (A : Atlas) : Renaming := ⟨fun s => (A.scopes.origin s).code, fun l => (A.lambdas.origin l).code⟩

/-- A procedure is accounted for. -/
def Has (A : Atlas) (p : Procedure) : Prop := p.scope ∈ A.scopes.ids ∧ p.lambda.id ∈ A.lambdas.ids

structure Le (A A' : Atlas) : Prop where
  scopes : A.scopes.Le A'.scopes
  lambdas : A.lambdas.Le A'.lambdas

theorem Le.refl (A : Atlas) : A.Le A := ⟨.refl _, .refl _⟩

theorem Le.trans (h : A.Le A₁) (h' : A₁.Le A') : A.Le A' :=
  ⟨h.scopes.trans h'.scopes, h.lambdas.trans h'.lambdas⟩

theorem Le.has (h : A.Le A') {p : Procedure} (hp : A.Has p) : A'.Has p := ⟨h.scopes.mem hp.1, h.lambdas.mem hp.2⟩

theorem Le.rename (h : A.Le A') (hv : ∀ p ∈ v.procedures, A.Has p) : v.rename A'.codes = v.rename A.codes :=
  Value.rename_congr fun p hp => by
    rw [Renaming.procedure, Renaming.procedure, codes, codes]
    dsimp only
    rw [h.scopes.origin (hv p hp).1, h.lambdas.origin (hv p hp).2]

theorem separates (hs : A.scopes.Distinct) (hl : A.lambdas.Distinct) : A.codes.Separates A.Has where
  scope hp hq he := hs _ _ hp.1 hq.1 (Origin.code_injective he)
  lambda hp hq he := hl _ _ hp.2 hq.2 (Origin.code_injective he)

/-- **A value goes by another one**: its procedures hold scopes that are accounted for, and with the numbers that do not
depend on history it is that value. -/
structure Names (A : Atlas) (L : Fragment) (v w : Value) : Prop where
  has : ∀ p ∈ v.procedures, A.Has p
  holds : ∀ p ∈ v.procedures, L.Mem p.lambda.body ∧ p.hold = .strong
  eq : v.rename A.codes = w

theorem Names.mono (h : A.Names L v w) (hA : A.Le A') : A'.Names L v w :=
  ⟨fun p hp => hA.has (h.has p hp), h.holds, (hA.rename h.has).trans h.eq⟩

theorem names_of_procedures_eq_nil (h : v.procedures = []) : A.Names L v v where
  has := by simp [h]
  holds := by simp [h]
  eq := Value.mapProcedures_eq_self (by simp [h])

theorem names_list {vs ws : List Value} (h : ∀ v ∈ vs, A.Names L v (v.rename A.codes))
    (hw : ws = vs.map (Value.rename A.codes)) : A.Names L (.list vs) (.list ws) where
  has p hp := by
    obtain ⟨v, hv, hp⟩ := Value.mem_procedures_list.1 hp
    exact (h v hv).has p hp
  holds p hp := by
    obtain ⟨v, hv, hp⟩ := Value.mem_procedures_list.1 hp
    exact (h v hv).holds p hp
  eq := by rw [Value.rename_list, hw]

theorem Names.of_list {vs : List Value} (h : A.Names L (.list vs) w) :
    (∀ v ∈ vs, A.Names L v (v.rename A.codes)) ∧ w = .list (vs.map (Value.rename A.codes)) where
  left v hv := ⟨fun p hp => h.has p (Value.mem_procedures_list.2 ⟨v, hv, hp⟩),
    fun p hp => h.holds p (Value.mem_procedures_list.2 ⟨v, hv, hp⟩), rfl⟩
  right := by rw [← h.eq, Value.rename_list]

theorem Names.supports (h : A.Names L v w) {st : Store} (ha : ∀ s ∈ A.scopes.ids, st.alive s = true) :
    st.Supports L v :=
  fun p hp => ⟨(h.holds p hp).1, ha _ (h.has p hp).1, (h.holds p hp).2⟩

/-- How a value holds its scopes does not show in its name. -/
theorem rename_attach (v : Value) (alive : ScopeId → Bool) :
    (v.attach alive).rename A.codes = v.rename A.codes := by
  rw [Value.attach, Value.rename, Value.mapProcedures_mapProcedures]
  refine Value.mapProcedures_congr fun p _ => ?_
  dsimp only [Function.comp_apply]
  split <;> rfl

theorem rename_detach (v : Value) (s : ScopeId) : (v.detach s).rename A.codes = v.rename A.codes := by
  rw [Value.detach, Value.rename, Value.mapProcedures_mapProcedures]
  refine Value.mapProcedures_congr fun p _ => ?_
  dsimp only [Function.comp_apply]
  split <;> rfl

theorem has_attach {alive : ScopeId → Bool} (h : ∀ p ∈ v.procedures, A.Has p) :
    ∀ p ∈ (v.attach alive).procedures, A.Has p := by
  intro p hp
  rw [Value.attach, Value.procedures_mapProcedures] at hp
  obtain ⟨q, hq, rfl⟩ := List.mem_map.1 hp
  split
  · exact h q hq
  · exact h q hq

theorem has_detach {s : ScopeId} (h : ∀ p ∈ v.procedures, A.Has p) :
    ∀ p ∈ (v.detach s).procedures, A.Has p := by
  intro p hp
  rw [Value.detach, Value.procedures_mapProcedures] at hp
  obtain ⟨q, hq, rfl⟩ := List.mem_map.1 hp
  split
  · exact h q hq
  · exact h q hq

/-! ### Evaluations that are over -/

def before (A : Atlas) : Atlas := ⟨A.scopes.before, A.lambdas.before⟩

noncomputable def join (A A₁ : Atlas) (name : String) : Atlas :=
  ⟨A.scopes.join A₁.scopes name, A.lambdas.join A₁.lambdas name⟩

/-- What an inner evaluation names is renamed when it is over. -/
theorem rename_join {base base' : Nat} (hs : A.scopes.before.Extends base A₁.scopes)
    (hl : A.lambdas.before.Extends base' A₁.lambdas)
    (hlt : ∀ {s}, s ∈ A.scopes.ids → s < base) (hlt' : ∀ {l}, l ∈ A.lambdas.ids → l < base')
    (hv : ∀ p ∈ v.procedures, A₁.Has p) :
    v.rename (A.join A₁ name).codes = (v.rename A₁.codes).rename (Memoryless.settling name) := by
  rw [Value.rename_rename]
  refine Value.rename_congr fun p hp => ?_
  obtain ⟨hps, hpl⟩ := hv p hp
  simp only [Renaming.procedure, Renaming.comp, codes, join, Memoryless.settling, Function.comp_apply,
    Origin.settleCode_code, hs.origin_join hlt hps, hl.origin_join hlt' hpl]

end Atlas
end LazyFormula
