import LazyFormula.Proofs.Settling
import LazyFormula.Proofs.Yields
/-!
# Computations that match

A computation on a store matches one on a world if both give values that go by each other, or fail in the same way, or
the one on the world has not enough levels while the one on the store reaches the bound on its depth. In any case the
store is a mirror again. There is one rule for each way in which computations are put together.
-/
namespace LazyFormula
namespace Memoryless

/-- A store between two evaluations. -/
def Rests (K : Book) (L : Fragment) (room : Nat) (st : Store) (memo : List String) : Prop :=
  ∃ base A, Mirrors K L room base A st .empty memo

section
variable (K : Book) (L : Fragment) (room base : Nat) {α β : Type}

/-- **Outcomes that match**, of evaluations of a store and of a world. -/
inductive Outcome (A : Atlas) (st : Store) (P : Atlas → α → β → Prop) :
    Except EvalError α × Store → Except Halt β × (World × List String) → Prop
  | ok {A' : Atlas} {st' : Store} {w' : World} {memo' : List String} {a : α} {b : β} (ha : Advances base A st A' st')
      (hm : Mirrors K L room base A' st' w' memo') (hp : P A' a b) : Outcome A st P (.ok a, st') (.ok b, (w', memo'))
  | failed {st' : Store} {w' : World} {memo' : List String} {e e' : EvalError} (he : e.Alike e')
      (hr : Rests K L room st' memo') : Outcome A st P (.error e, st') (.error (.failed e'), (w', memo'))
  | spent {st' : Store} {w' : World} {memo' : List String} (limit : Nat) (hr : Rests K L room st' memo') :
      Outcome A st P (.error (.depthLimit limit), st') (.error .spent, (w', memo'))

/-- **A computation on a store that matches one on a world.** -/
def Matches (A : Atlas) (st : Store) (s : World × List String) (x : Eval α) (y : Run (List String) β)
    (P : Atlas → α → β → Prop) : Prop := Outcome K L room base A st P (x st) (y s)

end

/-- Two values that go by each other. -/
def Named (L : Fragment) (A : Atlas) (v a : Value) : Prop := A.Names L v a

/-- Values that go by each other one by one. -/
def NamedAll (L : Fragment) (A : Atlas) (vs as : List Value) : Prop := A.Names L (.list vs) (.list as)

variable {K : Book} {L : Fragment} {room base : Nat} {A A' : Atlas} {st : Store} {w : World} {memo : List String}
  {α β γ δ : Type} {P : Atlas → α → β → Prop} {Q : Atlas → γ → δ → Prop}

theorem Mirrors.rests (h : Mirrors K L room base A st w memo) (hK : K.Plain) : Rests K L room st memo :=
  ⟨_, _, h.before hK⟩

/-- What goes on from an earlier store. -/
theorem Outcome.after {st' : Store} {p : Except EvalError α × Store} {q : Except Halt β × (World × List String)}
    (h : Outcome K L room base A' st' P p q) (ha : Advances base A st A' st') (hb : base ≤ st.scopes.size) :
    Outcome K L room base A st P p q := by
  cases h with
  | failed he hr => exact .failed he hr
  | spent limit hr => exact .spent limit hr
  | ok ha' hm hp => exact .ok (ha.trans ha' hb) hm hp

namespace Matches

section
variable (h : Mirrors K L room base A st w memo)
include h

theorem pure {a : α} {b : β} (hp : P A a b) : Matches K L room base A st (w, memo) (pure a) (pure b) P :=
  .ok (.refl base A st) h hp

theorem fail (hK : K.Plain) {e e' : EvalError} (he : e.Alike e') :
    Matches K L room base A st (w, memo) (throw e) (fail e') P := .failed he (h.rests hK)

theorem bind {x : Eval α} {y : Run (List String) β} {f : α → Eval γ} {g : β → Run (List String) δ}
    (hx : Matches K L room base A st (w, memo) x y P)
    (hf : ∀ {A' st' w' memo' a b}, Advances base A st A' st' → Mirrors K L room base A' st' w' memo' →
      P A' a b →
      Matches K L room base A' st' (w', memo') (f a) (g b) Q) :
    Matches K L room base A st (w, memo) (x >>= f) (y >>= g) Q := by
  rw [Matches, bind_apply, bind_apply]
  rw [Matches] at hx
  generalize x st = p at hx ⊢
  generalize y (w, memo) = q at hx ⊢
  cases hx with
  | failed he hr => exact .failed he hr
  | spent limit hr => exact .spent limit hr
  | ok ha hm hp => exact (hf ha hm hp).after ha h.base_le

omit h in
/-- What reads the store goes on with the store. -/
theorem get {f : Store → Eval α} {y : Run (List String) β} (hf : Matches K L room base A st (w, memo) (f st) y P) :
    Matches K L room base A st (w, memo) (MonadState.get >>= f) y P := hf

/-- Outcomes that agree. -/
theorem ofExcept (hK : K.Plain) {r : β → α → Prop} {x : Except EvalError α} {y : Except EvalError β}
    (hr : Primitive.Agrees r y x) (hp : ∀ a b, x = .ok a → r b a → P A a b) :
    Matches K L room base A st (w, memo) (Eval.ofExcept x) (ofExcept y) P := by
  cases hr with
  | ok hab => exact pure h (hp _ _ rfl hab)
  | error he => exact fail h hK he.symm

end

/-- One computation for each item of a list, in this order. -/
theorem mapM {f : γ → Eval Value} {g : γ → Run (List String) Value} :
    ∀ {l : List γ} {A : Atlas} {st : Store} {w : World}
    {memo : List String}, Mirrors K L room base A st w memo →
      (∀ c ∈ l, ∀ {A' st' w' memo'}, A.Le A' → Mirrors K L room base A' st' w' memo' →
        Matches K L room base A' st' (w', memo') (f c) (g c) (Named L)) →
      Matches K L room base A st (w, memo) (l.mapM f) (l.mapM g) (NamedAll L)
  | [], A, st, w, memo, h, _ => .pure h (Atlas.names_of_procedures_eq_nil rfl)
  | c :: l, A, st, w, memo, h, hf => by
    rw [List.mapM_cons, List.mapM_cons]
    refine .bind h (hf c List.mem_cons_self (.refl A) h) fun {A₁ st₁ w₁ memo₁ v a} ha₁ h₁ hv => ?_
    refine .bind h₁ (mapM h₁ fun d hd _ _ _ _ hA => hf d (List.mem_cons_of_mem _ hd) (ha₁.le.trans hA)) ?_
    intro A₂ st₂ w₂ memo₂ vs as ha₂ h₂ hvs
    refine .pure h₂ ?_
    have hv₂ := Atlas.Names.mono hv ha₂.le
    obtain ⟨hall, he⟩ := Atlas.Names.of_list hvs
    cases he
    refine Atlas.names_list (fun b hb => ?_) (by rw [List.map_cons, hv₂.eq])
    rcases List.mem_cons.1 hb with rfl | hb
    · exact hv₂.eq.symm ▸ hv₂
    · exact hall b hb

/-- A new scope below one that is named. -/
theorem child (h : Mirrors K L room base A st w memo) {s : ScopeId} (hs : s ∈ A.scopes.ids)
    {values : List (String × Value)} (hv : ∀ x ∈ values, A.Names L x.2 (x.2.rename A.codes)) :
    Matches K L room base A st (w, memo) (Eval.child s values)
      (Memoryless.child K (meaning K) (A.scopes.origin s) (values.map fun x => (x.1, x.2.rename A.codes)))
      fun A' t o => t ∈ A'.scopes.ids ∧ A'.scopes.origin t = o ∧ ∃ k, o = .own k := by
  obtain ⟨c, f, hc, hf, -⟩ := h.scope hs
  have hrun : Memoryless.child K (meaning K) (A.scopes.origin s)
      (values.map fun x => (x.1, x.2.rename A.codes)) (w, memo) =
      (.ok (.own w.frames.length), ((w.push ⟨A.scopes.origin s :: f.ancestors,
        (values.map fun x => (x.1, x.2.rename A.codes)).reverse⟩).2, memo)) := by
    rw [Memoryless.child, bind_apply, frame, hf]
    rfl
  rw [Matches, hrun]
  exact Outcome.ok (h.advances_child hs values _) (h.child hs hf hv) ⟨.inl rfl, Naming.origin_add_self .., _, rfl⟩

end Matches
end Memoryless
end LazyFormula
