import LazyFormula.Proofs.Owners
import LazyFormula.Proofs.Renaming
/-!
# Twins of values

Two evaluations that go side by side make scopes and lambdas with different numbers. A twinning says which scopes and
lambdas of the second store have a twin in the first one, and which one. A value of the first store is the twin of one
of the second if it is this value with the numbers of the first store.
-/
namespace LazyFormula

/-- **Which scopes and lambdas have twins**, and the numbers of these. -/
structure Twinning where
  scopes : ScopeId → Prop
  lambdas : Nat → Prop
  twin : Renaming

namespace Value

theorem Agrees.symm {v w : Value} (h : v.Agrees w) : w.Agrees v := Eq.symm h

theorem Agrees.trans {v w x : Value} (h : v.Agrees w) (h' : w.Agrees x) : v.Agrees x := Eq.trans h h'

/-- With other numbers a value does not show how it held its scopes. -/
theorem Agrees.rename {v w : Value} (h : v.Agrees w) (ρ : Renaming) : v.rename ρ = w.rename ρ := by
  have hheld : ∀ x : Value, x.rename ρ = (x.mapProcedures Procedure.held).rename ρ := fun x => by
    rw [Value.rename, Value.rename, Value.mapProcedures_mapProcedures]
    exact Value.mapProcedures_congr fun p _ => rfl
  rw [hheld v, hheld w, h]

theorem Agrees.procedures {v w : Value} (h : v.Agrees w) {p : Procedure} (hp : p ∈ v.procedures) :
    ∃ q ∈ w.procedures, q.scope = p.scope ∧ q.lambda = p.lambda := by
  have hm : p.held ∈ (w.mapProcedures Procedure.held).procedures := by
    rw [← h, Value.procedures_mapProcedures]
    exact List.mem_map_of_mem hp
  rw [Value.procedures_mapProcedures] at hm
  obtain ⟨q, hq, he⟩ := List.mem_map.1 hm
  exact ⟨q, hq, show q.held.scope = p.held.scope by rw [he], show q.held.lambda = p.held.lambda by rw [he]⟩

end Value

namespace Twinning

variable {W W₁ W' : Twinning} {v w : Value} {vs ws : List Value} {p : Procedure} {s t : ScopeId} {l : Nat}

/-- A procedure whose scope and lambda have twins. -/
def Knows (W : Twinning) (p : Procedure) : Prop := W.scopes p.scope ∧ W.lambdas p.lambda.id

/-- What has a twin keeps it. -/
structure Le (W W' : Twinning) : Prop where
  scope {t : ScopeId} : W.scopes t → W'.scopes t ∧ W'.twin.scope t = W.twin.scope t
  lambda {l : Nat} : W.lambdas l → W'.lambdas l ∧ W'.twin.lambda l = W.twin.lambda l

theorem Le.refl (W : Twinning) : W.Le W := ⟨fun h => ⟨h, rfl⟩, fun h => ⟨h, rfl⟩⟩

theorem Le.trans (h : W.Le W₁) (h' : W₁.Le W') : W.Le W' where
  scope ht := ⟨(h'.scope (h.scope ht).1).1, ((h'.scope (h.scope ht).1).2).trans (h.scope ht).2⟩
  lambda hl := ⟨(h'.lambda (h.lambda hl).1).1, ((h'.lambda (h.lambda hl).1).2).trans (h.lambda hl).2⟩

theorem Le.knows (h : W.Le W') (hp : W.Knows p) : W'.Knows p := ⟨(h.scope hp.1).1, (h.lambda hp.2).1⟩

theorem Le.rename (h : W.Le W') (hv : ∀ p ∈ v.procedures, W.Knows p) : v.rename W'.twin = v.rename W.twin :=
  Value.rename_congr fun p hp => by
    rw [Renaming.procedure, Renaming.procedure, (h.scope (hv p hp).1).2, (h.lambda (hv p hp).2).2]

/-! ## Values in flight and values at rest -/

/-- **A value in flight and its twin.** -/
structure Twins (W : Twinning) (v w : Value) : Prop where
  knows : ∀ p ∈ w.procedures, W.Knows p
  holds : ∀ p ∈ w.procedures, Fragment.unassigning.Mem p.lambda.body ∧ p.hold = .strong
  eq : v = w.rename W.twin

/-- **A value at rest and its twin**, however their procedures hold their scopes. -/
structure Rests (W : Twinning) (v w : Value) : Prop where
  knows : ∀ p ∈ w.procedures, W.Knows p
  eq : v.Agrees (w.rename W.twin)

theorem Twins.mono (h : W.Twins v w) (hW : W.Le W') : W'.Twins v w :=
  ⟨fun p hp => hW.knows (h.knows p hp), h.holds, h.eq.trans (hW.rename h.knows).symm⟩

theorem Rests.mono (h : W.Rests v w) (hW : W.Le W') : W'.Rests v w :=
  ⟨fun p hp => hW.knows (h.knows p hp), by rw [hW.rename h.knows]; exact h.eq⟩

theorem twins_of_procedures_eq_nil (h : w.procedures = []) : W.Twins w w where
  knows := by simp [h]
  holds := by simp [h]
  eq := (Value.mapProcedures_eq_self (by simp [h])).symm

theorem twins_procedure (h : W.Knows p) (hb : Fragment.unassigning.Mem p.lambda.body) (hh : p.hold = .strong) :
    W.Twins (.procedure (W.twin.procedure p)) (.procedure p) where
  knows q hq := by rw [List.mem_singleton.1 hq]; exact h
  holds q hq := by rw [List.mem_singleton.1 hq]; exact ⟨hb, hh⟩
  eq := rfl

theorem twins_list : W.Twins (.list vs) (.list ws) ↔
    vs = ws.map (Value.rename W.twin) ∧ ∀ w ∈ ws, W.Twins (w.rename W.twin) w := by
  constructor
  · intro h
    refine ⟨by simpa [Value.rename_list] using h.eq, fun w hw => ⟨fun p hp => ?_, fun p hp => ?_, rfl⟩⟩
    · exact h.knows p (Value.mem_procedures_list.2 ⟨w, hw, hp⟩)
    · exact h.holds p (Value.mem_procedures_list.2 ⟨w, hw, hp⟩)
  · rintro ⟨rfl, h⟩
    refine ⟨fun p hp => ?_, fun p hp => ?_, (Value.rename_list ws).symm⟩
    all_goals obtain ⟨w, hw, hp⟩ := Value.mem_procedures_list.1 hp
    · exact (h w hw).knows p hp
    · exact (h w hw).holds p hp

theorem Twins.cons (h : W.Twins v w) (hs : W.Twins (.list vs) (.list ws)) :
    W.Twins (.list (v :: vs)) (.list (w :: ws)) := by
  obtain ⟨hvs, hws⟩ := twins_list.1 hs
  refine twins_list.2 ⟨by rw [List.map_cons, ← h.eq, hvs], fun x hx => ?_⟩
  rcases List.mem_cons.1 hx with rfl | hx
  · exact h.eq ▸ h
  · exact hws x hx

/-- What rests in a scope is what was put there. -/
theorem Twins.rests (h : W.Twins v w) (s t : ScopeId) : W.Rests (v.detach s) (w.detach t) where
  knows p hp := by
    obtain ⟨q, hq, hs, hl⟩ := (Value.agrees_detach w t).procedures hp
    exact ⟨hs ▸ (h.knows q hq).1, hl ▸ (h.knows q hq).2⟩
  eq := by
    rw [(Value.agrees_detach w t).rename, ← h.eq]
    exact Value.agrees_detach v s

/-- **What comes out of a scope is the twin of what comes out of its twin.** -/
theorem Rests.twins {st su : Store} (h : W.Rests v w) (hv : st.Keeps .unassigning s v)
    (hw : su.Keeps .unassigning t w) :
    W.Twins (v.attach st.alive) (w.attach su.alive) where
  knows p hp := by
    obtain ⟨q, hq, hs, hl⟩ := hw.agrees_attach.procedures hp
    exact ⟨hs ▸ (h.knows q hq).1, hl ▸ (h.knows q hq).2⟩
  holds p hp := ⟨(hw.attach p hp).1, (hw.attach p hp).2.2⟩
  eq := by
    rw [hw.agrees_attach.rename, hv.attach_eq, h.eq, Value.rename, Value.mapProcedures_mapProcedures]
    exact Value.mapProcedures_congr fun p _ => rfl

theorem Twins.of_agrees {w' : Value} (h : W.Twins v w) (ha : w'.Agrees w)
    (hb : ∀ p ∈ w'.procedures, Fragment.unassigning.Mem p.lambda.body ∧ p.hold = .strong) : W.Twins v w' where
  knows p hp := by
    obtain ⟨q, hq, hs, hl⟩ := ha.procedures hp
    exact ⟨hs ▸ (h.knows q hq).1, hl ▸ (h.knows q hq).2⟩
  holds := hb
  eq := h.eq.trans (ha.rename _).symm

/-- The procedures of a value move to another scope, and so do those of its twin. -/
theorem Twins.recapture (h : W.Twins v w) (hinj : ∀ t, W.scopes t → W.twin.scope t = W.twin.scope s → t = s)
    (ht : W.scopes t) : W.Twins (v.recapture (W.twin.scope s) (W.twin.scope t)) (w.recapture s t) where
  knows p hp := by
    rw [Value.recapture, Value.procedures_mapProcedures] at hp
    obtain ⟨q, hq, rfl⟩ := List.mem_map.1 hp
    split
    · exact ⟨ht, (h.knows q hq).2⟩
    · exact h.knows q hq
  holds p hp := by
    rw [Value.recapture, Value.procedures_mapProcedures] at hp
    obtain ⟨q, hq, rfl⟩ := List.mem_map.1 hp
    split
    · exact ⟨(h.holds q hq).1, rfl⟩
    · exact h.holds q hq
  eq := by
    rw [h.eq, Value.recapture, Value.recapture, Value.rename, Value.rename, Value.mapProcedures_mapProcedures,
      Value.mapProcedures_mapProcedures]
    refine Value.mapProcedures_congr fun p hp => ?_
    have hiff : W.twin.scope p.scope = W.twin.scope s ↔ p.scope = s :=
      ⟨hinj _ (h.knows p hp).1, congrArg W.twin.scope⟩
    by_cases hs : p.scope = s
    · simp [hs, Renaming.procedure]
    · simp [hs, Renaming.procedure, hiff]

/-! ## More twins -/

/-- One more scope has a twin. -/
def addScope (W : Twinning) (s s' : ScopeId) : Twinning where
  scopes t := W.scopes t ∨ t = s
  lambdas := W.lambdas
  twin := ⟨fun t => if t = s then s' else W.twin.scope t, W.twin.lambda⟩

/-- One more lambda has a twin. -/
def addLambda (W : Twinning) (l l' : Nat) : Twinning where
  scopes := W.scopes
  lambdas m := W.lambdas m ∨ m = l
  twin := ⟨W.twin.scope, fun m => if m = l then l' else W.twin.lambda m⟩

@[simp] theorem addScope_self (W : Twinning) (s s' : ScopeId) : (W.addScope s s').twin.scope s = s' := if_pos rfl

theorem addScope_of_ne {s' : ScopeId} (h : t ≠ s) : (W.addScope s s').twin.scope t = W.twin.scope t := if_neg h

@[simp] theorem addLambda_self (W : Twinning) (l l' : Nat) : (W.addLambda l l').twin.lambda l = l' := if_pos rfl

theorem addLambda_of_ne {l' m : Nat} (h : m ≠ l) : (W.addLambda l l').twin.lambda m = W.twin.lambda m := if_neg h

theorem le_addScope (h : ¬ W.scopes s) (s' : ScopeId) : W.Le (W.addScope s s') where
  scope ht := ⟨.inl ht, addScope_of_ne (fun he => h (he ▸ ht))⟩
  lambda hl := ⟨hl, rfl⟩

theorem le_addLambda (h : ¬ W.lambdas l) (l' : Nat) : W.Le (W.addLambda l l') where
  scope ht := ⟨ht, rfl⟩
  lambda hm := ⟨.inl hm, addLambda_of_ne (fun he => h (he ▸ hm))⟩

end Twinning
end LazyFormula
