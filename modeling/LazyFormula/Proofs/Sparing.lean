import LazyFormula.Proofs.Isolation
import LazyFormula.Proofs.Mirroring
/-!
# Scopes that are spared

An evaluation without assignments writes in scopes that it is given and in scopes that it makes. A scope with none of
these on its way up is spared: it drops nothing, keeps every value that it has and gains only memoized ones. So what an
evaluation finds in such a scope at one point is still there when it ends.
-/
namespace LazyFormula

variable {O : ScopeId → Prop} {base : Nat} {c c₁ c' : Scope} {st st₁ st' : Store} {s t : ScopeId} {name : String}
  {v : Value}

namespace Scope

/-- **A scope that kept what it had**: its place, its definitions and its values. -/
structure Kept (c c' : Scope) : Prop where
  tree : c'.tree = c.tree
  ancestors : c'.ancestors = c.ancestors
  definitions : c'.definitions = c.definitions
  slots {name : String} {slot : Slot} : c.slots.get? name = some slot → c'.slots.get? name = some slot

theorem Kept.refl (c : Scope) : Kept c c := ⟨rfl, rfl, rfl, id⟩

theorem Kept.trans (h : Kept c c₁) (h' : Kept c₁ c') : Kept c c' :=
  ⟨h'.tree.trans h.tree, h'.ancestors.trans h.ancestors, h'.definitions.trans h.definitions, fun hs =>
    h'.slots (h.slots hs)⟩

/-- **A scope that was spared**: it dropped nothing and kept what it had. -/
structure Spared (c c' : Scope) : Prop extends Kept c c' where
  generation : c'.generation = c.generation

theorem spared_listeners (c : Scope) (l : List ScopeId) : Spared c { c with listeners := l } :=
  ⟨⟨rfl, rfl, rfl, id⟩, rfl⟩

theorem Spared.trans (h : Spared c c₁) (h' : Spared c₁ c') : Spared c c' :=
  ⟨h.toKept.trans h'.toKept, h'.generation.trans h.generation⟩

/-- A value is memoized that was not there at first. -/
theorem Spared.put (h : Spared c c') (hnone : c.slots.get? name = none) (slot : Slot) :
    Spared c (c'.put name slot) where
  tree := h.tree
  ancestors := h.ancestors
  definitions := h.definitions
  slots {n old} hslot := by
    have hne : n ≠ name := by
      rintro rfl
      rw [hnone] at hslot
      cases hslot
    rw [get?_put, if_neg hne]
    exact h.slots hslot
  generation := h.generation

end Scope

namespace Store

/-- No scope of a kind is on the way up from a scope. -/
def Avoids (st : Store) (O : ScopeId → Prop) (t : ScopeId) : Prop := ∀ u ∈ st.chain t, ¬ O u

/-- **What an evaluation spares** that writes in scopes of a kind and in those from a number on. -/
structure Spares (O : ScopeId → Prop) (base : Nat) (st st' : Store) : Prop where
  moves : Moves .unassigning (fun t => O t ∨ base ≤ t) st st'
  fresh : st.fresh ≤ st'.fresh
  scope {t : ScopeId} {c : Scope} : t < base → st.Avoids O t → st.scope? t = some c →
    ∃ c', st'.scope? t = some c' ∧ c.Spared c'

/-- A move that leaves all scopes but for their listeners. -/
theorem Move.spares (hm : Move .unassigning (fun t => O t ∨ base ≤ t) st st') (hfresh : st.fresh ≤ st'.fresh)
    (h : ∀ {t c}, st.scope? t = some c → ∃ l, st'.scope? t = some { c with listeners := l }) :
    Spares O base st st' where
  moves := hm.moves
  fresh := hfresh
  scope {t c} _ _ hc := by
    obtain ⟨l, hc'⟩ := h hc
    exact ⟨_, hc', Scope.spared_listeners c l⟩

theorem Spares.trans (h : Spares O base st st₁) (h' : Spares O base st₁ st') : Spares O base st st' where
  moves := h.moves.trans h'.moves
  fresh := Nat.le_trans h.fresh h'.fresh
  scope {t c} ht hO hc := by
    obtain ⟨c₁, hc₁, hs₁⟩ := h.scope ht hO hc
    have hO₁ : st₁.Avoids O t := by
      rw [Avoids, chain_of_scope? hc] at hO
      rw [Avoids, chain_of_scope? hc₁, hs₁.ancestors]
      exact hO
    obtain ⟨c', hc', hs'⟩ := h'.scope ht hO₁ hc₁
    exact ⟨c', hc', hs₁.trans hs'⟩

theorem Spares.memoize (h : Spares O base st st') (hs : st.alive s = true)
    (hslot : (st.scope s).slots.get? name = none) (hv : st'.Supports .unassigning v)
    (hb : (st'.scope s).bound? name = none) : Spares O base st (st'.put s name v .derived) where
  moves := h.moves.trans (Move.memoize (h.moves.alive hs) hv hb).moves
  fresh := h.fresh
  scope {t c} ht hO hc := by
    obtain ⟨c', hc', hs'⟩ := h.scope ht hO hc
    rw [scope?_put]
    split
    · rename_i hts
      subst hts
      rw [scope_of_scope? hc] at hslot
      exact ⟨_, by rw [hc', Option.map_some], hs'.put hslot _⟩
    · exact ⟨c', hc', hs'⟩

/-- What is bound in a scope reaches the scopes below it only. -/
theorem Spares.bind (hst : st.Formed .unassigning) (hs : st.alive s = true) (ho : O s ∨ base ≤ s)
    (hv : st.Supports .unassigning v) (name : String) : Spares O base st (st.add s name v) where
  moves := (Move.bind hs ho hv).moves
  fresh := Nat.le_of_eq (fresh_update ..).symm
  scope {t c} ht hO hc := by
    have hnot : s ∉ st.chain t := by
      intro hm
      rcases ho with ho | ho
      · exact hO s hm ho
      · exact Nat.not_le_of_lt (Nat.lt_of_lt_of_le ht ho) (hst.alive_of_mem_chain (alive_of_scope? hc) hm).2
    have hne : t ≠ s := fun he => hnot (he ▸ List.mem_cons_self)
    obtain ⟨c', hc'⟩ := alive_iff.1 ((alive_invalidate st s .derived [name] t).trans (alive_of_scope? hc))
    obtain ⟨c₀, hc₀, -, -, hout⟩ := hst.scope?_of_invalidate hs hc'
    cases hc.symm.trans hc₀
    cases hout hnot
    refine ⟨c, ?_, Scope.spared_listeners c c.listeners⟩
    exact (scope?_put _ s name v .bound t).trans ((if_neg hne).trans hc')

instance : Invariant .unassigning (fun t => O t ∨ base ≤ t) (Spares O base) where
  moves h := h.moves
  refl _ := ⟨.refl _, Nat.le_refl _, fun {_ c} _ _ hc => ⟨c, hc, Scope.spared_listeners c c.listeners⟩⟩
  trans := .trans
  cacheHit _ _ _ := Move.spares (.record fun _ _ => id) (Nat.le_refl _) fun {_ c} hc => ⟨c.listeners, hc⟩
  forcing _ _ _ := Move.spares (.record fun _ _ => id) (Nat.le_refl _) fun {_ c} hc => ⟨c.listeners, hc⟩
  child _ hp hv := Move.spares (.child hp hv) (Nat.le_refl _) fun hc => scope?_addChild_of_scope? hp _ hc
  memoize hm hs hslot _ _ hv hb := hm.memoize hs hslot hv hb
  bind hst hs ho hv := Spares.bind hst.formed hs ho hv _
  assign _ _ hL := hL.elim
  count _ b := Move.spares (.count b) (Nat.le_refl _) fun {_ c} hc => ⟨c.listeners, hc⟩
  fresh _ := Move.spares .fresh (Nat.le_succ _) fun {_ c} hc => ⟨c.listeners, hc⟩
  depth _ tree f := Move.spares (.depth tree f) (Nat.le_refl _) fun {_ c} hc => ⟨c.listeners, hc⟩

/-- What an evaluation may write that starts now. -/
theorem ready_spares (h : st.Formed .unassigning) (hb : base ≤ st.scopes.size) :
    st.Ready .unassigning fun t => O t ∨ base ≤ t := ⟨h, fun ht => .inr (Nat.le_trans hb ht)⟩

/-- **A computation that writes in new scopes alone spares the scopes that are there.** -/
theorem Spares.all (h : Spares (fun _ => False) st.scopes.size st st') {c : Scope} (hc : st.scope? t = some c) :
    ∃ c', st'.scope? t = some c' ∧ c.Spared c' :=
  h.scope (lt_size_of_alive (alive_of_scope? hc)) (fun _ _ => id) hc

/-- An evaluation in a new scope spares the scopes that are there. -/
theorem Formed.spares_child (h : st.Formed .unassigning) (hs : st.alive s = true) {e : Expr}
    (he : Fragment.unassigning.Mem e) (depth : Nat) :
    Spares (fun _ => False) st.scopes.size st (evaluateWithin depth e st.scopes.size (st.addChild s []).2).2 := by
  have hready : st.Ready .unassigning (fun t => False ∨ st.scopes.size ≤ t) := ready_spares h (Nat.le_refl _)
  have hchild : Spares (fun _ => False) st.scopes.size st (st.addChild s []).2 := Invariant.child hready hs nofun
  exact hchild.trans (evaluateWithin_sound depth (Invariant.ready hchild hready) he (alive_addChild_size hs [])
    (.inr (Nat.le_refl _))).1

end Store
end LazyFormula
