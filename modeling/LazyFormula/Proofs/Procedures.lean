import LazyFormula.Primitive.Run
/-!
# The procedures in values

A value takes part in the lives of scopes through its procedures alone. Replacing procedures acts on the list of them
(`procedures_mapProcedures`), and a value is determined by what happens to each one (`mapProcedures_congr`). Primitives
make no procedures: what they answer holds only procedures of their arguments (`Primitive.run_procedures`), and what
they fail for is in the arguments (`Primitive.blames_run`).
-/
namespace LazyFormula
namespace Value

mutual
theorem procedures_mapProcedures (f : Procedure → Procedure) :
    ∀ v : Value, (v.mapProcedures f).procedures = v.procedures.map f
  | .number _ | .bool _ | .symbol _ | .builtin _ | .unspecified | .procedure _ => rfl
  | .list items => procedures_mapProceduresItems f items

theorem procedures_mapProceduresItems (f : Procedure → Procedure) :
    ∀ vs : List Value, proceduresItems (mapProceduresItems f vs) = (proceduresItems vs).map f
  | [] => rfl
  | v :: vs => by
    rw [mapProceduresItems, proceduresItems, proceduresItems, List.map_append, procedures_mapProcedures f v,
      procedures_mapProceduresItems f vs]
end

mutual
theorem mapProcedures_congr {f g : Procedure → Procedure} :
    ∀ {v : Value}, (∀ p ∈ v.procedures, f p = g p) → v.mapProcedures f = v.mapProcedures g
  | .number _, _ | .bool _, _ | .symbol _, _ | .builtin _, _ | .unspecified, _ => rfl
  | .procedure p, h => congrArg Value.procedure (h p (List.mem_singleton.2 rfl))
  | .list _, h => congrArg Value.list (mapProceduresItems_congr h)

theorem mapProceduresItems_congr {f g : Procedure → Procedure} :
    ∀ {vs : List Value}, (∀ p ∈ proceduresItems vs, f p = g p) →
      mapProceduresItems f vs = mapProceduresItems g vs
  | [], _ => rfl
  | v :: vs, h => by
    rw [mapProceduresItems, mapProceduresItems,
      mapProcedures_congr (v := v) fun p hp => h p (List.mem_append_left _ hp),
      mapProceduresItems_congr fun p hp => h p (List.mem_append_right v.procedures hp)]
end

mutual
theorem mapProcedures_mapProcedures (f g : Procedure → Procedure) :
    ∀ v : Value, (v.mapProcedures f).mapProcedures g = v.mapProcedures (g ∘ f)
  | .number _ | .bool _ | .symbol _ | .builtin _ | .unspecified | .procedure _ => rfl
  | .list items => congrArg Value.list (mapProceduresItems_mapProceduresItems f g items)

theorem mapProceduresItems_mapProceduresItems (f g : Procedure → Procedure) :
    ∀ vs : List Value, mapProceduresItems g (mapProceduresItems f vs) = mapProceduresItems (g ∘ f) vs
  | [] => rfl
  | v :: vs => by
    rw [mapProceduresItems, mapProceduresItems, mapProceduresItems, mapProcedures_mapProcedures f g v,
      mapProceduresItems_mapProceduresItems f g vs]
end

mutual
theorem mapProcedures_id : ∀ v : Value, v.mapProcedures id = v
  | .number _ | .bool _ | .symbol _ | .builtin _ | .unspecified | .procedure _ => rfl
  | .list items => congrArg Value.list (mapProceduresItems_id items)

theorem mapProceduresItems_id : ∀ vs : List Value, mapProceduresItems id vs = vs
  | [] => rfl
  | v :: vs => by rw [mapProceduresItems, mapProcedures_id v, mapProceduresItems_id vs]
end

/-- A replacement that changes none of the procedures of a value leaves the value as it is. -/
theorem mapProcedures_eq_self {f : Procedure → Procedure} {v : Value} (h : ∀ p ∈ v.procedures, f p = p) :
    v.mapProcedures f = v := by
  rw [mapProcedures_congr (g := id) h, mapProcedures_id]

theorem proceduresItems_eq_flatMap : ∀ vs : List Value, proceduresItems vs = vs.flatMap procedures
  | [] => rfl
  | v :: vs => by rw [proceduresItems, proceduresItems_eq_flatMap vs, List.flatMap_cons]

/-- The procedures of a list are those of its items. -/
theorem mem_procedures_list {p : Procedure} {vs : List Value} :
    p ∈ (Value.list vs).procedures ↔ ∃ v ∈ vs, p ∈ v.procedures := by
  rw [procedures, proceduresItems_eq_flatMap, List.mem_flatMap]

mutual
theorem procedures_ofExpr : ∀ e : Expr, (ofExpr e).procedures = []
  | .number _ | .symbol _ => rfl
  | .list items => by rw [ofExpr, procedures, procedures_ofExprs items]

theorem procedures_ofExprs : ∀ es : List Expr, proceduresItems (ofExprs es) = []
  | [] => rfl
  | e :: es => by rw [ofExprs, proceduresItems, procedures_ofExpr e, procedures_ofExprs es]; rfl
end

end Value

namespace Primitive

/-! ## Primitives -/

theorem bind_eq_ok {α β : Type} {x : Outcome α} {f : α → Outcome β} {b : β} :
    x >>= f = .ok b ↔ ∃ a, x = .ok a ∧ f a = .ok b := by
  cases x with
  | error e => exact ⟨nofun, fun ⟨_, h, _⟩ => nomatch h⟩
  | ok a => exact ⟨fun h => ⟨a, rfl, h⟩, fun ⟨_, h, hf⟩ => by cases h; exact hf⟩

theorem one_eq_ok {caller : Action} {args : List Value} {a : Value} (h : one caller args = .ok a) : args = [a] := by
  unfold one at h
  split at h
  · cases h; rfl
  · cases h

theorem two_eq_ok {caller : Action} {args : List Value} {p : Value × Value} (h : two caller args = .ok p) :
    args = [p.1, p.2] := by
  unfold two at h
  split at h
  · cases h; rfl
  · cases h

theorem items_eq_ok {caller : Action} {v : Value} {vs : List Value} (h : items caller v = .ok vs) : v = .list vs := by
  unfold items at h
  split at h
  · cases h; rfl
  · cases h

theorem oneList_eq_ok {caller : Action} {args vs : List Value} (h : oneList caller args = .ok vs) :
    args = [.list vs] := by
  obtain ⟨a, ha, hv⟩ := bind_eq_ok.1 h
  rw [one_eq_ok ha, items_eq_ok hv]

/-- Outcomes that are numbers or truth values, if there is one. -/
def Scalar (x : Outcome Value) : Prop := ∀ v, x = .ok v → (∃ n, v = .number n) ∨ ∃ b, v = .bool b

namespace Scalar

theorem number (n : Number) : Scalar (.ok (.number n)) := fun _ h => .inl ⟨n, by cases h; rfl⟩

theorem bool (b : Bool) : Scalar (.ok (.bool b)) := fun _ h => .inr ⟨b, by cases h; rfl⟩

theorem error (e : EvalError) : Scalar (.error e) := fun _ h => nomatch h

theorem bind {α : Type} {x : Outcome α} {f : α → Outcome Value} (h : ∀ a, Scalar (f a)) : Scalar (x >>= f) := by
  intro v hv
  obtain ⟨a, -, ha⟩ := bind_eq_ok.1 hv
  exact h a v ha

theorem ite {c : Prop} [Decidable c] {x y : Outcome Value} (hx : Scalar x) (hy : Scalar y) :
    Scalar (if c then x else y) := by
  split
  · exact hx
  · exact hy

theorem procedures {x : Outcome Value} (h : Scalar x) {v : Value} (hv : x = .ok v) : v.procedures = [] := by
  rcases h v hv with ⟨n, rfl⟩ | ⟨b, rfl⟩ <;> rfl

variable (caller : Action) (args : List Value)

theorem fold (op : Number → Number → Number) (first : Number) : Scalar (fold caller op first args) :=
  bind fun _ => number _

theorem difference : Scalar (difference caller args) := by
  unfold Primitive.difference
  split
  · exact error _
  · exact bind fun _ => number _
  · exact bind fun _ => fold _ _ _ _

theorem ratio : Scalar (ratio caller args) := by
  unfold Primitive.ratio
  split
  · exact error _
  · exact bind fun _ => number _
  · exact bind fun _ => bind fun _ => number _

theorem modulus : Scalar (modulus caller args) := bind fun _ => ite (error _) (number _)

theorem extremum (better : Comparison) : Scalar (extremum caller better args) := by
  refine bind fun best => ?_
  cases best with
  | some n => exact number n
  | none => exact error _

theorem rounded : Scalar (rounded caller args) := by
  unfold Primitive.rounded
  split
  · exact bind fun _ => number _
  · refine bind fun _ => bind fun places => ?_
    cases places with
    | float x => exact error _
    | int n => exact ite (number _) (error _)
  · exact error _

theorem logarithm : Scalar (logarithm caller args) := by
  unfold Primitive.logarithm
  split
  · exact bind fun _ => number _
  · exact bind fun _ => bind fun _ => number _
  · exact error _

theorem test (p : Value → Bool) : Scalar (test caller p args) := bind fun _ => bool _

theorem relate (r : Value → Value → Bool) : Scalar (relate caller r args) := bind fun _ => bool _

theorem combine (f : Number → Number → Number) : Scalar (combine caller f args) := bind fun _ => number _

theorem convert (f : Number → Number) : Scalar (convert caller f args) := bind fun _ => number _

end Scalar

/-- The primitives that put lists together or take them apart; all others answer a number or a truth value. -/
def isStructural : Primitive → Bool
  | .list | .cons | .car | .cdr | .append | .begin => true
  | _ => false

theorem scalar_run {p : Primitive} (hp : p.isStructural = false) (args : List Value) : Scalar (p.run args) := by
  cases p with
  | add | multiply => exact .fold _ _ _ _
  | subtract => exact .difference _ _
  | divide => exact .ratio _ _
  | power | expt => exact .combine _ _ _
  | atan2 | atan2d => exact .bind fun _ => .number _
  | modulo => exact .modulus _ _
  | compare c => exact .bind fun _ => .bool _
  | numericEqual | equal | identical => exact .relate _ _ _
  | abs | real | floor | ceil => exact .convert _ _ _
  | round => exact .rounded _ _
  | max | min => exact .extremum _ _ _
  | log => exact .logarithm _ _
  | length => exact .bind fun _ => .number _
  | isNull | isList | isNumber | isSymbol | isProcedure | not => exact .test _ _ _
  | list | cons | car | cdr | append | begin => cases hp

theorem flatten_of_mapM_items {caller : Action} : ∀ {args : List Value} {vss : List (List Value)},
    args.mapM (items caller) = .ok vss → args = vss.map .list
  | [], _, h => by cases h; rfl
  | a :: args, vss, h => by
    rw [List.mapM_cons] at h
    obtain ⟨vs, ha, h⟩ := bind_eq_ok.1 h
    obtain ⟨rest, hr, h⟩ := bind_eq_ok.1 h
    cases h
    rw [items_eq_ok ha, flatten_of_mapM_items hr, List.map_cons]

/-- **A primitive answers only procedures of its arguments.** -/
theorem run_procedures {p : Primitive} {args : List Value} {v : Value} (h : p.run args = .ok v) {q : Procedure}
    (hq : q ∈ v.procedures) : ∃ a ∈ args, q ∈ a.procedures := by
  by_cases hp : p.isStructural = false
  · rw [(scalar_run hp args).procedures h] at hq
    cases hq
  cases p with
  | list =>
    cases h
    exact Value.mem_procedures_list.1 hq
  | cons =>
    obtain ⟨⟨head, tail⟩, ha, h⟩ := bind_eq_ok.1 h
    obtain ⟨vs, ht, h⟩ := bind_eq_ok.1 h
    cases h
    rw [two_eq_ok ha, items_eq_ok ht]
    obtain ⟨w, hw, hqw⟩ := Value.mem_procedures_list.1 hq
    rcases List.mem_cons.1 hw with rfl | hw
    · exact ⟨w, List.mem_cons_self, hqw⟩
    · exact ⟨.list vs, by simp, Value.mem_procedures_list.2 ⟨w, hw, hqw⟩⟩
  | car =>
    obtain ⟨vs, ha, h⟩ := bind_eq_ok.1 h
    rw [oneList_eq_ok ha]
    cases vs with
    | nil => cases h
    | cons head tail =>
      cases h
      exact ⟨_, List.mem_singleton.2 rfl, Value.mem_procedures_list.2 ⟨v, List.mem_cons_self, hq⟩⟩
  | cdr =>
    obtain ⟨vs, ha, h⟩ := bind_eq_ok.1 h
    cases h
    obtain ⟨w, hw, hq⟩ := Value.mem_procedures_list.1 hq
    rw [oneList_eq_ok ha]
    exact ⟨_, List.mem_singleton.2 rfl, Value.mem_procedures_list.2 ⟨w, List.mem_of_mem_tail hw, hq⟩⟩
  | append =>
    obtain ⟨vss, ha, h⟩ := bind_eq_ok.1 h
    cases h
    rw [flatten_of_mapM_items ha]
    obtain ⟨w, hw, hq⟩ := Value.mem_procedures_list.1 hq
    obtain ⟨vs, hvs, hw⟩ := List.mem_flatten.1 hw
    exact ⟨.list vs, List.mem_map.2 ⟨vs, hvs, rfl⟩, Value.mem_procedures_list.2 ⟨w, hw, hq⟩⟩
  | begin =>
    cases h
    cases hl : args.getLast? with
    | none => rw [hl] at hq; cases hq
    | some a =>
      rw [hl] at hq
      exact ⟨a, List.mem_of_getLast? hl, hq⟩
  | _ => exact absurd rfl hp

end Primitive

/-! ## Failures of primitives -/

/-- The errors that tell of the arguments of a builtin. -/
def EvalError.blamesArguments : EvalError → Bool
  | .notNumber .. | .notList .. | .argumentCount .. | .digitCountNotInteger | .digitCountOutOfRange _
  | .divisionByZero _ | .firstOfEmpty => true
  | _ => false

namespace Primitive

/-- Outcomes that are failures for no reason but the arguments. -/
def Blames {α : Type} (x : Outcome α) : Prop := ∀ e, x = .error e → e.blamesArguments = true

namespace Blames

variable {α β : Type} {x : Outcome α}

theorem ok (a : α) : Blames (.ok a : Outcome α) := nofun

theorem error {e : EvalError} (h : e.blamesArguments = true) : Blames (.error e : Outcome α) :=
  fun _ he => by cases he; exact h

theorem bind {f : α → Outcome β} (hx : Blames x) (hf : ∀ a, Blames (f a)) : Blames (x >>= f) := by
  intro e he
  cases x with
  | error e' => exact hx e (by cases he; rfl)
  | ok a => exact hf a e he

theorem ite {c : Prop} [Decidable c] {x y : Outcome α} (hx : Blames x) (hy : Blames y) :
    Blames (if c then x else y) := by
  split
  · exact hx
  · exact hy

theorem mapM {f : α → Outcome β} (hf : ∀ a, Blames (f a)) : ∀ l : List α, Blames (l.mapM f)
  | [] => ok _
  | a :: l => by
    rw [List.mapM_cons]
    exact (hf a).bind fun _ => (mapM hf l).bind fun _ => ok _

theorem foldlM {f : β → α → Outcome β} (hf : ∀ b a, Blames (f b a)) :
    ∀ (l : List α) (b : β), Blames (l.foldlM f b)
  | [], _ => ok _
  | a :: l, b => by
    rw [List.foldlM_cons]
    exact (hf b a).bind fun _ => foldlM hf l _

variable (caller : Action) (args : List Value)

theorem one : Blames (one caller args) := by
  unfold Primitive.one
  split
  · exact ok _
  · exact error rfl

theorem two : Blames (two caller args) := by
  unfold Primitive.two
  split
  · exact ok _
  · exact error rfl

theorem number (v : Value) : Blames (number caller v) := by
  unfold Primitive.number
  split
  · exact ok _
  · exact error rfl

theorem items (v : Value) : Blames (items caller v) := by
  unfold Primitive.items
  split
  · exact ok _
  · exact error rfl

theorem oneNumber : Blames (oneNumber caller args) := (one caller args).bind (number caller)

theorem twoNumbers : Blames (twoNumbers caller args) :=
  (two caller args).bind fun _ => (number caller _).bind fun _ => (number caller _).bind fun _ => ok _

theorem oneList : Blames (oneList caller args) := (one caller args).bind (items caller)

theorem fold (op : Number → Number → Number) (first : Number) : Blames (fold caller op first args) :=
  (foldlM (fun _ v => (number caller v).bind fun _ => ok _) args first).bind fun _ => ok _

theorem difference : Blames (difference caller args) := by
  unfold Primitive.difference
  split
  · exact error rfl
  · exact (number caller _).bind fun _ => ok _
  · exact (number caller _).bind fun _ => fold caller _ _ _

theorem quotient (acc : Number) (v : Value) : Blames (quotient caller acc v) :=
  (number caller v).bind fun _ => ite (error rfl) (ok _)

theorem ratio : Blames (ratio caller args) := by
  unfold Primitive.ratio
  split
  · exact error rfl
  · exact (quotient caller _ _).bind fun _ => ok _
  · exact (number caller _).bind fun _ => (foldlM (quotient caller) _ _).bind fun _ => ok _

theorem modulus : Blames (modulus caller args) := (twoNumbers caller args).bind fun _ => ite (error rfl) (ok _)

theorem extremum (better : Comparison) : Blames (extremum caller better args) := by
  refine (foldlM (fun best v => (number caller v).bind fun _ => ok _) _ none).bind fun best => ?_
  cases best with
  | some n => exact ok _
  | none => exact error rfl

theorem rounded : Blames (rounded caller args) := by
  unfold Primitive.rounded
  split
  · exact (number caller _).bind fun _ => ok _
  · refine (number caller _).bind fun _ => (number caller _).bind fun places => ?_
    cases places with
    | float x => exact error rfl
    | int n => exact ite (ok _) (error rfl)
  · exact error rfl

theorem logarithm : Blames (logarithm caller args) := by
  unfold Primitive.logarithm
  split
  · exact (number caller _).bind fun _ => ok _
  · exact (number caller _).bind fun _ => (number caller _).bind fun _ => ok _
  · exact error rfl

theorem test (p : Value → Bool) : Blames (test caller p args) := (one caller args).bind fun _ => ok _

theorem relate (r : Value → Value → Bool) : Blames (relate caller r args) := (two caller args).bind fun _ => ok _

theorem combine (f : Number → Number → Number) : Blames (combine caller f args) :=
  (twoNumbers caller args).bind fun _ => ok _

theorem convert (f : Number → Number) : Blames (convert caller f args) := (oneNumber caller args).bind fun _ => ok _

end Blames

/-- **A primitive fails for no reason but its arguments.** -/
theorem blames_run (p : Primitive) (args : List Value) : Blames (p.run args) := by
  cases p with
  | add | multiply => exact .fold _ _ _ _
  | subtract => exact .difference _ _
  | divide => exact .ratio _ _
  | power | expt => exact .combine _ _ _
  | modulo => exact .modulus _ _
  | compare | atan2 | atan2d => exact (Blames.twoNumbers _ _).bind fun _ => .ok _
  | numericEqual | equal | identical => exact .relate _ _ _
  | abs | real | floor | ceil => exact .convert _ _ _
  | round => exact .rounded _ _
  | max | min => exact .extremum _ _ _
  | log => exact .logarithm _ _
  | list | begin => exact .ok _
  | cons => exact (Blames.two _ _).bind fun _ => (Blames.items _ _).bind fun _ => .ok _
  | car =>
    refine (Blames.oneList _ _).bind fun vs => ?_
    cases vs with
    | nil => exact .error rfl
    | cons head tail => exact .ok _
  | cdr | length => exact (Blames.oneList _ _).bind fun _ => .ok _
  | append => exact (Blames.mapM (Blames.items _) args).bind fun _ => .ok _
  | isNull | isList | isNumber | isSymbol | isProcedure | not => exact .test _ _ _

end Primitive
end LazyFormula
