import LazyFormula.Proofs.Twins
/-!
# Regions

A region of a store is closed under what its scopes lead to: the ways up and the procedures in values. An evaluator is
unselfish if what it does for a definition never memoizes the value of this very definition: it would have to force the
definition first, and so on without end. A look-up therefore finds the scopes that it passed as it left them
(`lookupAlong_leaves`).
-/
namespace LazyFormula

open Store

variable {S : Scene} {W : Twinning} {R : ScopeId → Prop} {Λ : Nat → Prop} {st st₁ st' su : Store}
  {s t u : ScopeId} {name : String} {e : Expr} {v : Value} {ev : Evaluator} {up : List ScopeId}

namespace Store

/-- **Scopes and lambdas that lead to each other alone.** -/
structure Region (R : ScopeId → Prop) (Λ : Nat → Prop) (st : Store) : Prop where
  alive {t : ScopeId} : R t → st.alive t = true
  above {t u : ScopeId} : R t → u ∈ (st.scope t).ancestors → R u
  slots {t : ScopeId} {name : String} {slot : Slot} : R t → (st.scope t).slots.get? name = some slot →
    ∀ p ∈ slot.value.procedures, R p.scope ∧ Λ p.lambda.id
  lambda_lt {l : Nat} : Λ l → l < st.fresh

/-- **A look-up of a name in one scope goes on to another one.** -/
inductive Defers (st : Store) (name : String) : ScopeId → ScopeId → Prop
  | refl (t : ScopeId) : Defers st name t t
  | up {u p t : ScopeId} (hslot : (st.scope u).slots.get? name = none)
      (hdef : (st.scope u).definitions.get? name = none)
      (hp : p ∈ (st.scope u).parent?) (h : Defers st name p t) : Defers st name u t

theorem Defers.step (h : Defers st name u t) (hslot : (st.scope t).slots.get? name = none)
    (hdef : (st.scope t).definitions.get? name = none) {p : ScopeId} (hp : p ∈ (st.scope t).parent?) :
    Defers st name u p := by
  induction h with
  | refl t => exact .up hslot hdef hp (.refl p)
  | up hslot' hdef' hp' _ ih => exact .up hslot' hdef' hp' (ih hslot hdef hp)

/-- The end of a look-up is above its start. -/
theorem Defers.le {L : Fragment} (h : Defers st name u t) (hf : st.Formed L) (hu : st.alive u = true) : t ≤ u := by
  induction h with
  | refl t => exact Nat.le_refl _
  | up _ _ hp _ ih =>
    obtain ⟨up, hup⟩ := List.head?_eq_some_iff.1 hp
    obtain ⟨hlt, hpa, -⟩ := hf.parented (scope?_eq_of_alive hu) hup
    exact Nat.le_trans (ih hpa) (Nat.le_of_lt hlt)

theorem Defers.slot (h : Defers st name u t) (ht : (st.scope t).slots.get? name = none) :
    (st.scope u).slots.get? name = none := by
  cases h with
  | refl => exact ht
  | up hslot => exact hslot

end Store

/-- **An evaluator that is unselfish**: what it does for a definition memoizes the value of this definition nowhere. -/
def Unselfish (ev : Evaluator) : Prop :=
  ∀ {R : ScopeId → Prop} {Λ : Nat → Prop} {st : Store} {t u : ScopeId} {name : String} {e : Expr},
    st.Formed .unassigning → Region R Λ st → R t → (st.scope t).slots.get? name = none →
      (st.scope t).definitions.get? name = some e → R u → Defers st name u t →
        ((force ev t name e st).2.scope u).slots.get? name = none

/-! ## The regions of twin stores -/

open Scene (Aligned SlotTwins)

theorem Scene.Aligned.mem_first {hidden : ScopeId → Prop} {up up' : List ScopeId} (h : Aligned hidden W up up')
    (hu : u ∈ up) : ∃ t, W.scopes t ∧ W.twin.scope t = u := by
  induction h with
  | nil => cases hu
  | @twin t _ _ ht _ ih =>
    rcases List.mem_cons.1 hu with rfl | hu
    · exact ⟨t, ht, rfl⟩
    · exact ih hu
  | hidden _ _ ih => exact ih hu

theorem Scene.Aligned.mem_second {hidden : ScopeId → Prop} {up up' : List ScopeId} (h : Aligned hidden W up up')
    (hu : u ∈ up') : W.scopes u ∨ hidden u := by
  induction h with
  | nil => cases hu
  | twin ht _ ih =>
    rcases List.mem_cons.1 hu with rfl | hu
    · exact .inl ht
    · exact ih hu
  | hidden ht _ ih =>
    rcases List.mem_cons.1 hu with rfl | hu
    · exact .inr ht
    · exact ih hu

/-- Beside a scope that is not hidden there is its twin. -/
theorem Scene.Aligned.of_not_hidden {hidden : ScopeId → Prop} {up up' : List ScopeId}
    (h : Aligned hidden W up (t :: up'))
    (ht : ¬ hidden t) : ∃ rest, up = W.twin.scope t :: rest ∧ Aligned hidden W rest up' := by
  cases h with
  | twin _ hup => exact ⟨_, rfl, hup⟩
  | hidden hh _ => exact absurd hh ht

/-- **The twins are a region of the first store.** -/
theorem Store.Twinned.region_first (h : Twinned S W st su) :
    Region (fun a => ∃ t, W.scopes t ∧ W.twin.scope t = a) (· < st.fresh) st where
  alive := by
    rintro _ ⟨t, ht, rfl⟩
    exact (h.alive ht).1
  above := by
    rintro _ u ⟨t, ht, rfl⟩ hu
    by_cases ho : S.Old t
    · rw [(h.settled ht ho).self] at hu
      obtain ⟨hW, hold⟩ := h.old_above ht ho hu
      exact ⟨u, hW, (h.settled hW hold).self⟩
    · exact (h.matched ht ho).ancestors.mem_first hu
  slots := by
    rintro _ name slot ⟨t, ht, rfl⟩ hslot p hp
    by_cases ho : S.Old t
    · rw [(h.settled ht ho).self] at hslot
      obtain ⟨hk, hold, hlambda⟩ := (h.settled ht ho).slots hslot p hp
      exact ⟨⟨p.scope, hk.1, (h.settled hk.1 hold).self⟩, h.oldLambda hk.2 hlambda ▸ (h.lambda_lt hk.2).1⟩
    · have hs := (h.matched ht ho).slots name
      rw [hslot] at hs
      generalize hb : (su.scope t).slots.get? name = b at hs
      cases hs with
      | both _ hr =>
        obtain ⟨q, hq, hscope, hlambda⟩ := hr.eq.procedures hp
        rw [Value.procedures_rename] at hq
        obtain ⟨r, hr', rfl⟩ := List.mem_map.1 hq
        exact ⟨⟨r.scope, (hr.knows r hr').1, hscope⟩, hlambda ▸ (h.lambda_lt (hr.knows r hr').2).1⟩
      | @gap g _ hg hgs hgn _ ha =>
        subst hgs hgn
        have hopen := (h.gap hg).2.2 hb
        obtain ⟨q, hq, hscope, hlambda⟩ := ha.procedures hp
        cases List.mem_singleton.1 hq
        obtain ⟨x, hx, htwin, -⟩ := hopen.target
        exact ⟨⟨x, hx, htwin.trans hscope⟩, hlambda ▸ hopen.lambda_lt.1⟩
  lambda_lt := id

/-- Where nothing is hidden, what has a twin is a region of the second store. -/
theorem Store.Twinned.region_second (h : Twinned S W st su) (hpast : ¬ S.follows) (hhidden : ∀ t, ¬ S.Hidden t) :
    Region W.scopes W.lambdas su where
  alive ht := (h.alive ht).2
  above ht hu := ((h.matched ht fun ho => hpast ho.1).ancestors.mem_second hu).resolve_right (hhidden _)
  slots {t name slot} ht hslot p hp := by
    have hs := (h.matched ht fun ho => hpast ho.1).slots name
    rw [hslot] at hs
    generalize (st.scope (W.twin.scope t)).slots.get? name = a at hs
    cases hs with
    | both _ hr => exact hr.knows p hp
  lambda_lt hl := (h.lambda_lt hl).2

/-! ## Look-ups, scope by scope -/

/-- What a look-up does in a scope that has no value of the name. -/
def seek (ev : Evaluator) (s : ScopeId) (name : String) (definition : Option Expr) (up : List ScopeId) : Eval Value :=
  match definition with
  | some e => force ev s name e
  | none => lookupAlong ev name up

theorem lookupAlong_of_some {slot : Slot} (hslot : (st.scope s).slots.get? name = some slot) :
    lookupAlong ev name (s :: up) st = (.ok (slot.value.attach st.alive), st.record (.cacheHit s name)) := by
  rw [lookupAlong, get_apply]
  simp only [hslot]
  rfl

theorem lookupAlong_of_none (hslot : (st.scope s).slots.get? name = none) : lookupAlong ev name (s :: up) st =
    (do
      let v ← seek ev s name ((st.scope s).definitions.get? name) up
      memoize s name (st.scope s).generation v
      return v : Eval Value) st := by
  rw [lookupAlong, get_apply]
  simp only [hslot]
  cases (st.scope s).definitions.get? name <;> rfl

/-- What becomes of a value that was sought. -/
theorem memoized_apply (x : Eval Value) (s : ScopeId) (name : String) (generation : Nat) (st : Store) :
    (do let v ← x; memoize s name generation v; return v : Eval Value) st =
      match x st with
      | (.ok v, st₁) =>
        (.ok v, if (st₁.scope s).generation = generation then st₁.put s name v .derived else st₁)
      | (.error e, st₁) => (.error e, st₁) := by
  rw [bind_apply]
  rcases x st with ⟨r, st₁⟩
  cases r <;> rfl

/-- Other scopes do not see that a value is memoized. -/
theorem scope_memoized (x : Eval Value) (generation : Nat) (hu : u ≠ s) :
    ((do let v ← x; memoize s name generation v; return v : Eval Value) st).2.scope u = (x st).2.scope u := by
  rw [memoized_apply]
  rcases x st with ⟨r, st₁⟩
  cases r with
  | error e => rfl
  | ok v =>
    dsimp only
    split
    · rw [scope, scope?_put, if_neg hu, ← scope]
    · rfl

/-- The rest of a way up is the way up from its first scope. -/
theorem Store.Formed.chain_tail {L : Fragment} (hf : st.Formed L) (hs : st.alive s = true)
    (hchain : s :: up = st.chain s) :
    ∀ p ∈ up.head?, st.alive p = true ∧ up = st.chain p ∧ p ∈ (st.scope s).parent? := by
  intro p hp
  obtain ⟨rest, hrest⟩ := List.head?_eq_some_iff.1 hp
  have hanc : (st.scope s).ancestors = p :: rest := (List.cons.inj hchain).2.symm.trans hrest
  have hc := scope?_eq_of_alive hs
  exact ⟨(hf.parented hc hanc).2.1, (List.cons.inj (hchain.trans (hf.chain_eq hc hanc))).2,
    List.head?_eq_some_iff.2 ⟨rest, hanc⟩⟩

/-! ## What look-ups leave alone -/

section
variable (hev : Unselfish ev) (hf : st.Formed .unassigning) (hR : Region R Λ st)
include hev hf hR

/-- **A look-up leaves the scopes alone that it was passed on from.** -/
theorem lookupAlong_leaves (hu : R u) : ∀ {up : List ScopeId},
    (∀ s ∈ up.head?, R s ∧ up = st.chain s ∧ u ≠ s ∧ Defers st name u s) →
    (st.scope u).slots.get? name = none →
      ((lookupAlong ev name up st).2.scope u).slots.get? name = none
  | [], _, hnone => hnone
  | s :: up, hup, hnone => by
    obtain ⟨hs, hchain, hne, hdefers⟩ := hup s rfl
    cases hslot : (st.scope s).slots.get? name with
    | some slot =>
      rw [lookupAlong_of_some hslot]
      exact hnone
    | none =>
      rw [lookupAlong_of_none hslot, scope_memoized _ _ hne]
      cases hdef : (st.scope s).definitions.get? name with
      | some e => exact hev hf hR hs hslot hdef hu hdefers
      | none =>
        refine lookupAlong_leaves hu (fun p hp => ?_) hnone
        obtain ⟨hpa, hchain', hparent⟩ := hf.chain_tail (hR.alive hs) hchain p hp
        have hanc : p ∈ (st.scope s).ancestors := List.mem_of_mem_head? hparent
        have hd := hdefers.step hslot hdef hparent
        refine ⟨hR.above hs hanc, hchain', ?_, hd⟩
        rintro rfl
        obtain ⟨rest, hrest⟩ := List.head?_eq_some_iff.1 hparent
        have hlt := (hf.parented (scope?_eq_of_alive (hR.alive hs)) hrest).1
        exact Nat.not_le_of_lt hlt (hdefers.le hf hpa)

/-- What is sought for a scope is not memoized there meanwhile. -/
theorem seek_leaves (hs : R s) (hslot : (st.scope s).slots.get? name = none) (hchain : s :: up = st.chain s) :
    ((seek ev s name ((st.scope s).definitions.get? name) up st).2.scope s).slots.get? name = none := by
  cases hdef : (st.scope s).definitions.get? name with
  | some e => exact hev hf hR hs hslot hdef hs (.refl s)
  | none =>
    refine lookupAlong_leaves hev hf hR hs (fun p hp => ?_) hslot
    obtain ⟨hpa, hchain', hparent⟩ := hf.chain_tail (hR.alive hs) hchain p hp
    refine ⟨hR.above hs (List.mem_of_mem_head? hparent), hchain', ?_, .up hslot hdef hparent (.refl p)⟩
    rintro rfl
    obtain ⟨rest, hrest⟩ := List.head?_eq_some_iff.1 hparent
    exact Nat.lt_irrefl _ (hf.parented (scope?_eq_of_alive (hR.alive hs)) hrest).1

end
end LazyFormula
