import LazyFormula.Proofs.Procedures
/-!
# Values up to the numbers of scopes and lambdas

The numbers of scopes and lambdas show nowhere but in the equality of procedures. So a value with other numbers has the
same kind and text, and a primitive answers the same of values with other numbers, as long as different procedures keep
different numbers (`Primitive.run_rename`).
-/
namespace LazyFormula

/-- **Other numbers for scopes and lambdas.** -/
structure Renaming where
  scope : ScopeId → ScopeId
  lambda : Nat → Nat

namespace Renaming

/-- A procedure with other numbers. How it holds its scope is forgotten. -/
def procedure (ρ : Renaming) (p : Procedure) : Procedure :=
  ⟨{ p.lambda with id := ρ.lambda p.lambda.id }, ρ.scope p.scope, .strong⟩

/-- Of some procedures, those that come from different scopes or lambdas keep different numbers. -/
structure Separates (ρ : Renaming) (P : Procedure → Prop) : Prop where
  scope {p q : Procedure} : P p → P q → ρ.scope p.scope = ρ.scope q.scope → p.scope = q.scope
  lambda {p q : Procedure} : P p → P q → ρ.lambda p.lambda.id = ρ.lambda q.lambda.id → p.lambda.id = q.lambda.id

/-- One renaming after another. -/
def comp (ρ ρ' : Renaming) : Renaming := ⟨ρ.scope ∘ ρ'.scope, ρ.lambda ∘ ρ'.lambda⟩

end Renaming

variable {ρ ρ' : Renaming}

namespace Value

/-- **A value with other numbers.** -/
def rename (ρ : Renaming) (v : Value) : Value := v.mapProcedures ρ.procedure

theorem procedures_rename (v : Value) : (v.rename ρ).procedures = v.procedures.map ρ.procedure :=
  procedures_mapProcedures ..

theorem rename_rename (v : Value) : (v.rename ρ').rename ρ = v.rename (ρ.comp ρ') :=
  mapProcedures_mapProcedures ..

theorem rename_congr {v : Value} (h : ∀ p ∈ v.procedures, ρ.procedure p = ρ'.procedure p) :
    v.rename ρ = v.rename ρ' := mapProcedures_congr h

theorem mapProceduresItems_eq_map (f : Procedure → Procedure) (vs : List Value) :
    mapProceduresItems f vs = vs.map (mapProcedures f) := by
  induction vs with
  | nil => rfl
  | cons v vs ih => rw [mapProceduresItems, ih, List.map_cons]

theorem rename_list (vs : List Value) : (Value.list vs).rename ρ = .list (vs.map (rename ρ)) :=
  congrArg Value.list (mapProceduresItems_eq_map ..)

@[simp] theorem kind_rename (v : Value) : (v.rename ρ).kind = v.kind := by cases v <;> rfl

@[simp] theorem truthy_rename (v : Value) : (v.rename ρ).truthy = v.truthy := by
  cases v with
  | list vs => cases vs <;> rfl
  | number | bool | symbol | procedure | builtin | unspecified => rfl

@[simp] theorem isCallable_rename (v : Value) : (v.rename ρ).isCallable = v.isCallable := by cases v <;> rfl

@[simp] theorem number?_rename (v : Value) : (v.rename ρ).number? = v.number? := by cases v <;> rfl

mutual
@[simp] theorem text_rename : ∀ v : Value, (v.rename ρ).text = v.text
  | .number _ | .bool _ | .symbol _ | .builtin _ | .unspecified | .procedure _ => rfl
  | .list vs => by
    rw [rename_list, text, text, textItems_rename vs]

theorem textItems_rename : ∀ vs : List Value, textItems (vs.map (rename ρ)) = textItems vs
  | [] => rfl
  | [v] => by rw [List.map_singleton, textItems, textItems, text_rename v]
  | v :: w :: vs => by
    have ih := textItems_rename (w :: vs)
    simp only [List.map_cons, textItems, text_rename v] at ih ⊢
    rw [ih]
end

variable {P : Procedure → Prop}

mutual
/-- Values are equal with other numbers if they are equal with those they have. -/
theorem same_rename (h : ρ.Separates P) : ∀ {a b : Value}, (∀ p ∈ a.procedures, P p) →
    (∀ p ∈ b.procedures, P p) →
    (a.rename ρ).same (b.rename ρ) = a.same b
  | .procedure p, .procedure q, hp, hq => by
    have hp := hp p (List.mem_singleton_self p)
    have hq := hq q (List.mem_singleton_self q)
    have hid : (ρ.lambda p.lambda.id == ρ.lambda q.lambda.id) = (p.lambda.id == q.lambda.id) :=
      Bool.eq_iff_iff.2 (by rw [beq_iff_eq, beq_iff_eq]; exact ⟨h.lambda hp hq, congrArg ρ.lambda⟩)
    have hscope : (ρ.scope p.scope == ρ.scope q.scope) = (p.scope == q.scope) :=
      Bool.eq_iff_iff.2 (by rw [beq_iff_eq, beq_iff_eq]; exact ⟨h.scope hp hq, congrArg ρ.scope⟩)
    exact (congrArg (· && _) hid).trans (congrArg (_ && ·) hscope)
  | .list as, .list bs, ha, hb => by
    rw [rename_list, rename_list]
    exact sameItems_rename h ha hb
  | .number _, b, _, _ | .bool _, b, _, _ | .symbol _, b, _, _ | .builtin _, b, _, _ | .unspecified, b, _, _ => by
    cases b <;> rfl
  | .list _, .number _, _, _ | .list _, .bool _, _, _ | .list _, .symbol _, _, _ | .list _, .procedure _, _, _
  | .list _, .builtin _, _, _ | .list _, .unspecified, _, _ => rfl
  | .procedure _, .number _, _, _ | .procedure _, .bool _, _, _ | .procedure _, .symbol _, _, _
  | .procedure _, .list _, _, _ | .procedure _, .builtin _, _, _ | .procedure _, .unspecified, _, _ => rfl

theorem sameItems_rename (h : ρ.Separates P) : ∀ {as bs : List Value}, (∀ p ∈ proceduresItems as, P p) →
    (∀ p ∈ proceduresItems bs, P p) → sameItems (as.map (rename ρ)) (bs.map (rename ρ)) = sameItems as bs
  | [], [], _, _ => rfl
  | [], _ :: _, _, _ => rfl
  | _ :: _, [], _, _ => rfl
  | a :: as, b :: bs, ha, hb => by
    rw [List.map_cons, List.map_cons, sameItems, sameItems,
      same_rename h (fun p hp => ha p (List.mem_append_left _ hp)) fun p hp => hb p (List.mem_append_left _ hp),
      sameItems_rename h (fun p hp => ha p (List.mem_append_right a.procedures hp)) fun p hp =>
        hb p (List.mem_append_right b.procedures hp)]
end

end Value

/-! ## Failures -/

/-- **Two errors that a host cannot tell apart.** -/
structure EvalError.Alike (e e' : EvalError) : Prop where
  kind : e.kind = e'.kind
  message : e.message = e'.message

theorem EvalError.Alike.refl (e : EvalError) : e.Alike e := ⟨rfl, rfl⟩

theorem EvalError.Alike.trans {e e₁ e' : EvalError} (h : e.Alike e₁) (h' : e₁.Alike e') : e.Alike e' :=
  ⟨h.kind.trans h'.kind, h.message.trans h'.message⟩

theorem EvalError.Alike.symm {e e' : EvalError} (h : e.Alike e') : e'.Alike e := ⟨h.kind.symm, h.message.symm⟩

theorem EvalError.shown_rename (v : Value) : shown (v.rename ρ) = shown v := by
  rw [shown, shown, Value.text_rename, Value.kind_rename]

theorem EvalError.alike_of_detail {e e' : EvalError} (hk : e.kind = e'.kind) (hd : e.detail = e'.detail) : e.Alike e' :=
  ⟨hk, by rw [message, message, hk, hd]⟩

theorem EvalError.alike_notCallable (v : Value) : (notCallable (v.rename ρ)).Alike (notCallable v) :=
  alike_of_detail rfl (congrArg (· ++ " is not callable") (shown_rename v))

theorem EvalError.alike_notNumber (a : Action) (v : Value) : (notNumber a (v.rename ρ)).Alike (notNumber a v) :=
  alike_of_detail rfl (congrArg (a.name ++ " expects numbers, got " ++ ·) (shown_rename v))

theorem EvalError.alike_notList (a : Action) (v : Value) : (notList a (v.rename ρ)).Alike (notList a v) :=
  alike_of_detail rfl (congrArg (a.name ++ " expects a list, got " ++ ·) (shown_rename v))

namespace Primitive

/-- Two outcomes that are in a relation, or failures that a host cannot tell apart. -/
inductive Agrees {α β : Type} (r : α → β → Prop) : Outcome α → Outcome β → Prop
  | ok {a : α} {b : β} (h : r a b) : Agrees r (.ok a) (.ok b)
  | error {e e' : EvalError} (h : e.Alike e') : Agrees r (.error e) (.error e')

namespace Agrees

variable {α β γ δ : Type} {r : α → β → Prop} {q : γ → δ → Prop}

theorem refl (x : Outcome α) : Agrees Eq x x := by
  cases x with
  | ok a => exact .ok rfl
  | error e => exact .error (.refl e)

theorem bind {x : Outcome α} {y : Outcome β} {f : α → Outcome γ} {g : β → Outcome δ} (h : Agrees r x y)
    (hf : ∀ a b, r a b → Agrees q (f a) (g b)) : Agrees q (x >>= f) (y >>= g) := by
  cases h with
  | ok h => exact hf _ _ h
  | error h => exact .error h

/-- What goes on in the same way from the same result. -/
theorem bind_eq {x y : Outcome α} {f : α → Outcome γ} {g : α → Outcome δ} (h : Agrees Eq x y)
    (hf : ∀ a, Agrees q (f a) (g a)) : Agrees q (x >>= f) (y >>= g) :=
  h.bind fun a _ hab => hab ▸ hf a

theorem foldlM {op : γ → Value → Outcome γ} (h : ∀ acc v, Agrees Eq (op acc (v.rename ρ)) (op acc v)) :
    ∀ (args : List Value) (acc : γ), Agrees Eq ((args.map (Value.rename ρ)).foldlM op acc) (args.foldlM op acc)
  | [], _ => refl _
  | v :: args, acc => by
    rw [List.map_cons, List.foldlM_cons, List.foldlM_cons]
    exact (h acc v).bind_eq fun acc => foldlM h args acc

variable (caller : Action)

theorem one (args : List Value) :
    Agrees (fun a b => a = b.rename ρ ∧ args = [b]) (one caller (args.map (Value.rename ρ))) (one caller args) := by
  match args with
  | [a] => exact .ok ⟨rfl, rfl⟩
  | [] => exact .error (.refl _)
  | a :: b :: rest =>
    simp only [List.map_cons, Primitive.one, List.length_cons, List.length_map]
    exact .error (.refl _)

theorem two (args : List Value) :
    Agrees (fun a b => a = (b.1.rename ρ, b.2.rename ρ) ∧ args = [b.1, b.2])
      (two caller (args.map (Value.rename ρ))) (two caller args) := by
  match args with
  | [a, b] => exact .ok ⟨rfl, rfl⟩
  | [] | [a] => exact .error (.refl _)
  | a :: b :: c :: rest =>
    simp only [List.map_cons, Primitive.two, List.length_cons, List.length_map]
    exact .error (.refl _)

theorem number (v : Value) : Agrees Eq (number caller (v.rename ρ)) (number caller v) := by
  cases v with
  | number n => exact .ok rfl
  | list vs =>
    have h : (EvalError.notNumber caller ((Value.list vs).rename ρ)).Alike (.notNumber caller (.list vs)) :=
      EvalError.alike_notNumber caller _
    rw [Value.rename_list] at h ⊢
    exact .error h
  | bool | symbol | procedure | builtin | unspecified => exact .error (EvalError.alike_notNumber caller _)

theorem items (v : Value) :
    Agrees (fun vs ws => vs = ws.map (Value.rename ρ)) (items caller (v.rename ρ)) (items caller v) := by
  cases v with
  | list vs =>
    rw [Value.rename_list]
    exact .ok rfl
  | number | bool | symbol | procedure | builtin | unspecified => exact .error (EvalError.alike_notList caller _)

theorem oneNumber (args : List Value) :
    Agrees Eq (oneNumber caller (args.map (Value.rename ρ))) (oneNumber caller args) :=
  (one caller args).bind fun _ v ⟨ha, _⟩ => ha ▸ number caller v

theorem twoNumbers (args : List Value) :
    Agrees Eq (twoNumbers caller (args.map (Value.rename ρ))) (twoNumbers caller args) :=
  (two caller args).bind fun _ v ⟨ha, _⟩ => ha ▸
    (number caller v.1).bind_eq fun _ => (number caller v.2).bind_eq fun _ => refl _

theorem oneList (args : List Value) : Agrees (fun vs ws => vs = ws.map (Value.rename ρ))
    (oneList caller (args.map (Value.rename ρ))) (oneList caller args) :=
  (one caller args).bind fun _ v ⟨ha, _⟩ => ha ▸ items caller v

/-- What two outcomes without procedures have in common. -/
theorem scalar {x y : Outcome Value} (h : Agrees Eq x y) (hy : Scalar y) : Agrees (fun v w => v = w.rename ρ) x y := by
  cases h with
  | error h => exact .error h
  | @ok v _ h =>
    subst h
    refine .ok ?_
    obtain ⟨n, rfl⟩ | ⟨b, rfl⟩ := hy v rfl <;> rfl

end Agrees

variable (caller : Action) (args : List Value)

theorem fold_rename (op : Number → Number → Number) (first : Number) (args : List Value) :
    Agrees Eq (fold caller op first (args.map (Value.rename ρ))) (fold caller op first args) :=
  (Agrees.foldlM (fun _ v => (Agrees.number caller v).bind_eq fun _ => .refl _) args first).bind_eq fun _ => .refl _

theorem difference_rename : Agrees Eq (difference caller (args.map (Value.rename ρ))) (difference caller args) := by
  match args with
  | [] => exact .refl _
  | [x] => exact (Agrees.number caller x).bind_eq fun _ => .refl _
  | x :: y :: rest => exact (Agrees.number caller x).bind_eq fun n => fold_rename caller .sub n (y :: rest)

theorem quotient_rename (acc : Number) (v : Value) :
    Agrees Eq (quotient caller acc (v.rename ρ)) (quotient caller acc v) :=
  (Agrees.number caller v).bind_eq fun _ => .refl _

theorem ratio_rename : Agrees Eq (ratio caller (args.map (Value.rename ρ))) (ratio caller args) := by
  match args with
  | [] => exact .refl _
  | [x] => exact (quotient_rename caller _ x).bind_eq fun _ => .refl _
  | x :: y :: rest =>
    exact (Agrees.number caller x).bind_eq fun n =>
      (Agrees.foldlM (quotient_rename caller) (y :: rest) n).bind_eq fun _ => .refl _

theorem extremum_rename (better : Comparison) :
    Agrees Eq (extremum caller better (args.map (Value.rename ρ))) (extremum caller better args) := by
  unfold extremum
  dsimp only
  -- the candidates are the items of a list that is the only argument
  obtain _ | ⟨a, rest⟩ := args
  · exact .refl _
  cases a with
  | list vs =>
    cases rest with
    | nil =>
      rw [List.map_singleton, Value.rename_list]
      exact (Agrees.foldlM (fun _ v => (Agrees.number caller v).bind_eq fun _ => .refl _) vs none).bind_eq
        fun _ => .refl _
    | cons b rest =>
      exact (Agrees.foldlM (fun _ v => (Agrees.number caller v).bind_eq fun _ => .refl _) _ none).bind_eq
        fun _ => .refl _
  | number | bool | symbol | procedure | builtin | unspecified =>
    cases rest <;>
      exact (Agrees.foldlM (fun _ v => (Agrees.number caller v).bind_eq fun _ => .refl _) _ none).bind_eq
        fun _ => .refl _

theorem rounded_rename : Agrees Eq (rounded caller (args.map (Value.rename ρ))) (rounded caller args) := by
  match args with
  | [x] => exact (Agrees.number caller x).bind_eq fun _ => .refl _
  | [x, places] =>
    exact (Agrees.number caller x).bind_eq fun _ => (Agrees.number caller places).bind_eq fun _ => .refl _
  | [] => exact .refl _
  | a :: b :: c :: rest =>
    simp only [List.map_cons, rounded, List.length_cons, List.length_map]
    exact .refl _

theorem logarithm_rename : Agrees Eq (logarithm caller (args.map (Value.rename ρ))) (logarithm caller args) := by
  match args with
  | [x] => exact (Agrees.number caller x).bind_eq fun _ => .refl _
  | [x, base] => exact (Agrees.number caller x).bind_eq fun _ => (Agrees.number caller base).bind_eq fun _ => .refl _
  | [] => exact .refl _
  | a :: b :: c :: rest =>
    simp only [List.map_cons, logarithm, List.length_cons, List.length_map]
    exact .refl _

theorem test_rename {p : Value → Bool} (h : ∀ v : Value, p (v.rename ρ) = p v) :
    Agrees Eq (test caller p (args.map (Value.rename ρ))) (test caller p args) :=
  (Agrees.one caller args).bind fun _ v ⟨ha, _⟩ => .ok (by rw [ha, h])

theorem relate_rename {r : Value → Value → Bool}
    (h : ∀ a ∈ args, ∀ b ∈ args, r (a.rename ρ) (b.rename ρ) = r a b) :
    Agrees Eq (relate caller r (args.map (Value.rename ρ))) (relate caller r args) :=
  (Agrees.two caller args).bind fun _ v ⟨ha, hargs⟩ =>
    .ok (by rw [ha, h v.1 (by rw [hargs]; simp) v.2 (by rw [hargs]; simp)])

theorem convert_rename (f : Number → Number) :
    Agrees Eq (convert caller f (args.map (Value.rename ρ))) (convert caller f args) :=
  (Agrees.oneNumber caller args).bind_eq fun _ => .refl _

theorem pair_rename {β : Type} (f : Number × Number → Outcome β) :
    Agrees Eq (twoNumbers caller (args.map (Value.rename ρ)) >>= f) (twoNumbers caller args >>= f) :=
  (Agrees.twoNumbers caller args).bind_eq fun _ => .refl _

theorem isIdentical_rename {P : Procedure → Prop} (h : ρ.Separates P) {a b : Value}
    (ha : ∀ p ∈ a.procedures, P p)
    (hb : ∀ p ∈ b.procedures, P p) : isIdentical (a.rename ρ) (b.rename ρ) = isIdentical a b := by
  have hsame := Value.same_rename h ha hb
  cases a with
  | list as =>
    cases b with
    | list bs =>
      rw [Value.rename_list, Value.rename_list]
      simp [isIdentical]
    | number | bool | symbol | procedure | builtin | unspecified =>
      rw [Value.rename_list] at hsame ⊢
      exact hsame
  | number | bool | symbol | procedure | builtin | unspecified => exact hsame

theorem mapM_items_rename (args : List Value) :
    Agrees (fun vss wss => vss = wss.map (·.map (Value.rename ρ)))
      ((args.map (Value.rename ρ)).mapM (items caller)) (args.mapM (items caller)) := by
  induction args with
  | nil => exact .ok rfl
  | cons v args ih =>
    rw [List.map_cons, List.mapM_cons, List.mapM_cons]
    refine (Agrees.items caller v).bind fun vs ws hvs => ih.bind fun vss wss hvss => .ok ?_
    rw [hvs, hvss, List.map_cons]

/-- **A primitive answers the same of values with other numbers.** -/
theorem run_rename {P : Procedure → Prop} (h : ρ.Separates P) (p : Primitive) {args : List Value}
    (ha : ∀ v ∈ args, ∀ q ∈ v.procedures, P q) :
    Agrees (fun v w => v = w.rename ρ) (p.run (args.map (Value.rename ρ))) (p.run args) := by
  by_cases hp : p.isStructural = false
  · refine Agrees.scalar ?_ (scalar_run hp args)
    cases p with
    | add | multiply => exact fold_rename _ _ _ _
    | subtract => exact difference_rename _ _
    | divide => exact ratio_rename _ _
    | power | expt | atan2 | atan2d | modulo | compare => exact pair_rename _ _ _
    | numericEqual | equal =>
      exact relate_rename _ _ fun a haa b hb => Value.same_rename h (ha a haa) (ha b hb)
    | identical => exact relate_rename _ _ fun a haa b hb => isIdentical_rename h (ha a haa) (ha b hb)
    | abs | real | floor | ceil => exact convert_rename _ _ _
    | round => exact rounded_rename _ _
    | max | min => exact extremum_rename _ _ _
    | log => exact logarithm_rename _ _
    | length =>
      exact (Agrees.oneList _ args).bind fun _ ws hws => .ok (by rw [hws, List.length_map])
    | isNull =>
      refine test_rename _ _ fun v => ?_
      cases v with
      | list vs => cases vs <;> rfl
      | number | bool | symbol | procedure | builtin | unspecified => rfl
    | isList | isSymbol => exact test_rename _ _ fun v => by cases v <;> rfl
    | isNumber => exact test_rename _ _ fun v => by rw [Value.number?_rename]
    | isProcedure => exact test_rename _ _ Value.isCallable_rename
    | not => exact test_rename _ _ fun v => by rw [Value.truthy_rename]
    | list | cons | car | cdr | append | begin => cases hp
  cases p with
  | list => exact .ok (Value.rename_list _).symm
  | cons =>
    refine (Agrees.two _ args).bind fun _ v ⟨hv, _⟩ => ?_
    rw [hv]
    exact (Agrees.items _ v.2).bind fun vs ws hvs => .ok (by rw [hvs, Value.rename_list, List.map_cons])
  | car =>
    refine (Agrees.oneList _ args).bind fun vs ws hvs => ?_
    rw [hvs]
    cases ws with
    | nil => exact .error (.refl _)
    | cons head tail => exact .ok rfl
  | cdr =>
    exact (Agrees.oneList _ args).bind fun vs ws hvs => .ok (by rw [hvs, Value.rename_list, List.map_tail])
  | append =>
    exact (mapM_items_rename _ args).bind fun vss wss hvss => .ok (by rw [hvss, Value.rename_list, List.map_flatten])
  | begin =>
    refine .ok ?_
    rw [List.getLast?_map]
    cases args.getLast? <;> rfl
  | _ => exact absurd rfl hp

end Primitive
end LazyFormula
