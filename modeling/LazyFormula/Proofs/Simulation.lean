import LazyFormula.Proofs.Resolving
/-!
# Evaluations that match

An evaluation in a store that mirrors a world matches the evaluation that remembers in this world
(`remember_simulates`): the values go by each other, errors read alike, and where the memoryless evaluation has not
enough levels, the one in the store reaches the bound on its depth. Nothing is assigned here.
-/
namespace LazyFormula
namespace Memoryless

variable {K : Book} {L : Fragment} {room base n : Nat} {A : Atlas} {st : Store} {w : World} {memo : List String}
  {s : ScopeId} {k : Nat} {ev : Evaluator} {e : Expr}

/-! ## Calls -/

/-- How values are called, beside how their names are. -/
def Calls (K : Book) (L : Fragment) (room : Nat) (call : Value → List Value → Eval Value)
    (memoryless : Value → List Value → Run (List String) Value) : Prop :=
  ∀ (base : Nat) (A : Atlas) (st : Store) (w : World) (memo : List String) (f g : Value) (args brgs : List Value),
    Mirrors K L room base A st w memo → A.Names L f g → NamedAll L A args brgs →
      Matches K L room base A st (w, memo) (call f args) (memoryless g brgs) (Named L)

theorem namedAll_iff {vs as : List Value} :
    NamedAll L A vs as ↔ (∀ v ∈ vs, A.Names L v (v.rename A.codes)) ∧ as = vs.map (Value.rename A.codes) := by
  constructor
  · intro h
    obtain ⟨hv, he⟩ := Atlas.Names.of_list h
    exact ⟨hv, by cases he; rfl⟩
  · exact fun h => Atlas.names_list h.1 h.2

theorem namedAll_singleton {v a : Value} (h : A.Names L v a) : NamedAll L A [v] [a] := by
  refine namedAll_iff.2 ⟨fun b hb => ?_, by rw [List.map_singleton, h.eq]⟩
  rw [List.mem_singleton.1 hb, h.eq]
  exact h

theorem callProcedure_matches (hK : K.Plain) (hev : Simulates K L room ev (remember K n))
    (h : Mirrors K L room base A st w memo) {p : Procedure}
    (hp : A.Names L (.procedure p) (.procedure (A.codes.procedure p)))
    {args brgs : List Value} (ha : NamedAll L A args brgs) :
    Matches K L room base A st (w, memo) (LazyFormula.callProcedure ev p args)
      (callProcedure K (meaning K) (remember K n) (A.codes.procedure p) brgs) (Named L) := by
  obtain ⟨hargs, rfl⟩ := namedAll_iff.1 ha
  obtain ⟨hbody, hhold⟩ := hp.holds p (List.mem_singleton_self _)
  obtain ⟨hscope, -⟩ := hp.has p (List.mem_singleton_self _)
  have hzip : p.lambda.params.zip (args.map (Value.rename A.codes)) =
      (p.lambda.params.zip args).map fun x => (x.1, x.2.rename A.codes) := List.zip_map_right
  have hparams : (A.codes.procedure p).lambda.params = p.lambda.params := rfl
  have horigin : Origin.ofCode? (A.codes.procedure p).scope = some (A.scopes.origin p.scope) := Origin.ofCode?_code _
  unfold LazyFormula.callProcedure callProcedure
  simp only [hparams, List.length_map, horigin, hzip]
  by_cases hl : args.length ≠ p.lambda.params.length
  · rw [if_pos hl, if_pos hl]
    exact .fail h hK (.refl _)
  · rw [if_neg hl, if_neg hl]
    refine .get ?_
    simp only [hhold, reduceCtorEq, decide_false, Bool.false_and, Bool.false_eq_true, if_false]
    refine Matches.bind h (.child h hscope fun x hx => hargs x.2 (List.of_mem_zip hx).2) ?_
    rintro A₁ st₁ w₁ memo₁ t o ha₁ h₁ ⟨ht, ho, k, rfl⟩
    exact hev base A₁ st₁ w₁ memo₁ t k p.lambda.body h₁ ht ho hbody

theorem callBuiltin_matches (hK : K.Plain) {call : Value → List Value → Eval Value}
    {memoryless : Value → List Value → Run (List String) Value} (hcall : Calls K L room call memoryless)
    (b : Builtin)
    (h : Mirrors K L room base A st w memo) {args brgs : List Value} (ha : NamedAll L A args brgs) :
    Matches K L room base A st (w, memo) (LazyFormula.callBuiltin call b args) (callBuiltin memoryless b brgs)
      (Named L) := by
  obtain ⟨hargs, rfl⟩ := namedAll_iff.1 ha
  unfold LazyFormula.callBuiltin callBuiltin
  cases b.action with
  | primitive p =>
    refine .ofExcept h hK (Primitive.run_rename h.separates p fun v hv => (hargs v hv).has) fun v a hv hva => ?_
    have hfrom : ∀ q ∈ v.procedures, ∃ b ∈ args, q ∈ b.procedures := fun q => Primitive.run_procedures hv
    exact ⟨fun q hq => let ⟨b, hb, hqb⟩ := hfrom q hq; (hargs b hb).has q hqb,
      fun q hq => let ⟨b, hb, hqb⟩ := hfrom q hq; (hargs b hb).holds q hqb, hva.symm⟩
  | map =>
    refine Matches.bind (P := fun A x y => A.Names L x.1 y.1 ∧ A.Names L x.2 y.2) h ?_ ?_
    · refine .ofExcept h hK (Primitive.Agrees.two .map args) fun x y hx hxy => ?_
      obtain ⟨rfl, hargs'⟩ := hxy
      exact ⟨hargs _ (by simp [hargs']), hargs _ (by simp [hargs'])⟩
    rintro A₁ st₁ w₁ memo₁ ⟨f, l⟩ ⟨g, m⟩ - h₁ ⟨hf, hl⟩
    refine Matches.bind (P := fun A vs as => A.Names L f g ∧ NamedAll L A vs as) h₁ ?_ ?_
    · have he : l.rename A₁.codes = m := hl.eq
      rw [← he]
      refine .ofExcept h₁ hK (Primitive.Agrees.items .map l) fun vs as hvs hvas => ⟨hf, ?_⟩
      have hlist : A₁.Names L (.list vs) m := Primitive.items_eq_ok hvs ▸ hl
      exact namedAll_iff.2 ⟨(Atlas.Names.of_list hlist).1, hvas⟩
    rintro A₂ st₂ w₂ memo₂ vs as - h₂ ⟨hf, hvs⟩
    obtain ⟨hall, rfl⟩ := namedAll_iff.1 hvs
    rw [List.mapM_map]
    refine Matches.bind h₂ (.mapM h₂ fun v hv A₃ st₃ w₃ memo₃ hA h₃ => ?_) fun _ h₃ hrs =>
      .pure h₃ hrs
    exact hcall base A₃ st₃ w₃ memo₃ f g [v] _ h₃ (hf.mono hA) (namedAll_singleton ((hall v hv).mono hA))
  | count =>
    refine Outcome.ok (a := args.head?.getD .nil) (.of_scope? rfl (fun _ => rfl) rfl)
      (h.congr rfl (fun _ => rfl) rfl h.trees h.room_le rfl rfl) ?_
    cases args with
    | nil => exact Atlas.names_of_procedures_eq_nil rfl
    | cons a args => exact hargs a List.mem_cons_self
  | fail =>
    rw [List.length_map]
    exact .fail h hK (.refl _)
  | forward =>
    cases args with
    | nil => exact .pure h (Atlas.names_of_procedures_eq_nil rfl)
    | cons f args =>
      refine hcall base A st w memo f _ args _ h (hargs f List.mem_cons_self) (namedAll_iff.2 ⟨fun v hv => ?_, rfl⟩)
      exact hargs v (List.mem_cons_of_mem _ hv)

theorem callBelow_matches (hK : K.Plain) (hev : Simulates K L room ev (remember K n)) : ∀ m,
    Calls K L room (LazyFormula.callBelow ev m) (callBelow K (meaning K) (remember K n) m)
  | 0 => fun base A st w memo f g args brgs h hf _ => by
    rw [LazyFormula.callBelow.eq_def, callBelow.eq_def, ← hf.eq]
    exact .fail h hK (EvalError.alike_notCallable f).symm
  | m + 1 => fun base A st w memo f g args brgs h hf ha => by
    obtain rfl := hf.eq
    rw [LazyFormula.callBelow.eq_def, callBelow.eq_def]
    have hfail : (EvalError.notCallable (f.rename A.codes)).Alike (.notCallable f) := EvalError.alike_notCallable f
    cases f with
    | procedure p => exact callProcedure_matches hK hev h hf ha
    | builtin b => exact callBuiltin_matches hK (callBelow_matches hK hev m) b h ha
    | list vs =>
      rw [Value.rename_list] at hfail ⊢
      exact .fail h hK hfail.symm
    | number | bool | symbol | unspecified => exact .fail h hK hfail.symm

/-! ## Expressions -/

section
variable (hK : K.Plain) (hL : ¬ L.assigns) (hev : Simulates K L room ev (remember K n))
include hK hL hev

theorem evaluateForm_matches (h : Mirrors K L room base A st w memo) (hs : s ∈ A.scopes.ids)
    (ho : A.scopes.origin s = .own k) {items : List Expr} (he : L.Mem (.list items)) {form : Form}
    (hform : Form.ofItems items = .ok form) :
    Matches K L room base A st (w, memo) (LazyFormula.evaluateForm ev s form)
      (evaluateForm K (meaning K) (remember K n) (.own k) form) (Named L) := by
  have hparts := L.parts he hform
  cases form with
  | nil => exact .pure h (Atlas.names_of_procedures_eq_nil rfl)
  | quote e => exact .pure h (Atlas.names_of_procedures_eq_nil (Value.procedures_ofExpr e))
  | conditional test consequent alternative =>
    refine Matches.bind h (hev _ _ _ _ _ s k test h hs ho (hparts test (by simp [Form.parts]))) ?_
    intro A₁ st₁ w₁ memo₁ v a ha₁ h₁ hv
    have hs₁ := ha₁.le.scopes.mem hs
    have ho₁ := (ha₁.le.scopes.origin hs).trans ho
    rw [← Atlas.Names.eq hv, Value.truthy_rename]
    split
    · exact hev _ _ _ _ _ s k consequent h₁ hs₁ ho₁ (hparts consequent (by simp [Form.parts]))
    · exact hev _ _ _ _ _ s k alternative h₁ hs₁ ho₁ (hparts alternative (by simp [Form.parts]))
  | define name e =>
    refine Matches.bind h (hev _ _ _ _ _ s k e h hs ho (hparts e (by simp [Form.parts]))) ?_
    intro A₁ st₁ w₁ memo₁ v a ha₁ h₁ hv
    have hs₁ := ha₁.le.scopes.mem hs
    have ho₁ := (ha₁.le.scopes.origin hs).trans ho
    exact .ok (h₁.advances_bind hK hs₁ ho₁ name v) (h₁.bind hK hs₁ ho₁ hv name)
      (Atlas.names_of_procedures_eq_nil rfl)
  | assign name e => exact absurd (L.assigning he hform) hL
  | lambda params body =>
    refine .ok (h.advances_takeLambda (.own w.lambdas)) h.takeLambda ?_
    have hlambda : (A.lambdas.add st.fresh (.own w.lambdas)).origin st.fresh = .own w.lambdas :=
      Naming.origin_add_self ..
    refine ⟨fun p hp => ?_, fun p hp => ?_, ?_⟩
    · cases List.mem_singleton.1 hp
      exact ⟨hs, .inl rfl⟩
    · cases List.mem_singleton.1 hp
      exact ⟨hparts body (by simp [Form.parts]), rfl⟩
    · show Value.procedure ⟨⟨((A.lambdas.add st.fresh (.own w.lambdas)).origin st.fresh).code, params, body⟩,
        (A.scopes.origin s).code, .strong⟩ = _
      rw [hlambda, ho]
      rfl
  | apply callee args =>
    refine Matches.bind h (hev _ _ _ _ _ s k callee h hs ho (hparts callee (by simp [Form.parts]))) ?_
    intro A₁ st₁ w₁ memo₁ f g ha₁ h₁ hf
    have hs₁ := ha₁.le.scopes.mem hs
    have ho₁ := (ha₁.le.scopes.origin hs).trans ho
    refine Matches.bind h₁ (.mapM h₁ fun e he A₂ st₂ w₂ memo₂ hA h₂ => ?_) ?_
    · exact hev _ _ _ _ _ s k e h₂ (hA.scopes.mem hs₁) ((hA.scopes.origin hs₁).trans ho₁)
        (hparts e (List.mem_cons_of_mem _ he))
    · intro A₂ st₂ w₂ memo₂ vs as ha₂ h₂ hvs
      have hlen : as.length = vs.length := by
        obtain ⟨-, rfl⟩ := namedAll_iff.1 hvs
        exact List.length_map ..
      rw [hlen]
      exact callBelow_matches hK hev _ _ _ _ _ _ f g vs as h₂ (Atlas.Names.mono hf ha₂.le) hvs

theorem evaluateBody_matches (h : Mirrors K L room base A st w memo) (hs : s ∈ A.scopes.ids)
    (ho : A.scopes.origin s = .own k) (he : L.Mem e) : Matches K L room base A st (w, memo) (evaluateBody ev e s)
      (step K (meaning K) (remember K n) (force K (remember K n)) e (.own k)) (Named L) := by
  cases e with
  | number x => exact .pure h (Atlas.names_of_procedures_eq_nil rfl)
  | symbol name => exact ho ▸ lookup_matches hK hev h hs name
  | list items =>
    refine Matches.bind (P := fun _ f g => f = g ∧ Form.ofItems items = .ok f) h ?_ ?_
    · exact .ofExcept h hK (Primitive.Agrees.refl _) fun f g hf hfg => ⟨hfg.symm, hf⟩
    · rintro A₁ st₁ w₁ memo₁ form _ ha₁ h₁ ⟨rfl, hform⟩
      exact evaluateForm_matches hK hL hev h₁ (ha₁.le.scopes.mem hs) ((ha₁.le.scopes.origin hs).trans ho) he hform

end

/-- The trees of a mirror, with one more evaluation in progress. -/
theorem Mirrors.enter (h : Mirrors K L (room + 1) base A st w memo) :
    Mirrors K L room base A (st.setDepth 0 (· + 1)) w memo := by
  have hroom := h.room_le
  refine h.congr rfl (fun _ => rfl) rfl ?_ (Nat.le_of_succ_le hroom) rfl rfl
  have hdepth : defaultMaxDepth - (room + 1) + 1 = defaultMaxDepth - room := by omega
  rw [Store.setDepth, h.trees, ← hdepth]
  rfl

/-- The trees of a mirror, with one evaluation in progress less. -/
theorem Mirrors.leave (h : Mirrors K L room base A st w memo) (hroom : room + 1 ≤ defaultMaxDepth) :
    Mirrors K L (room + 1) base A (st.setDepth 0 (· - 1)) w memo := by
  refine h.congr rfl (fun _ => rfl) rfl ?_ hroom rfl rfl
  have hdepth : defaultMaxDepth - room - 1 = defaultMaxDepth - (room + 1) := by omega
  rw [Store.setDepth, h.trees, ← hdepth]
  rfl

/-- One more evaluation in progress takes one of the levels that are left. -/
theorem Matches.nested (h : Mirrors K L (room + 1) base A st w memo) (hs : s ∈ A.scopes.ids) {x : Eval Value}
    {y : Run (List String) Value} (hx : Matches K L room base A (st.setDepth 0 (· + 1)) (w, memo) x y (Named L)) :
    Matches K L (room + 1) base A st (w, memo) (Eval.nested s x) y (Named L) := by
  have hroom := h.room_le
  obtain ⟨htree, htreeOf⟩ := h.treeOf hs
  have hlt : (st.treeOf s).depth < (st.treeOf s).maxDepth := by
    rw [htreeOf]
    show defaultMaxDepth - (room + 1) < defaultMaxDepth
    omega
  have hrests : ∀ {st' memo'}, Rests K L room st' memo' → Rests K L (room + 1) (st'.setDepth 0 (· - 1)) memo' :=
    fun ⟨base, A, h⟩ => ⟨base, A, h.leave hroom⟩
  rw [Matches] at hx ⊢
  unfold Eval.nested
  rw [if_pos hlt, htree]
  generalize x (st.setDepth 0 (· + 1)) = p at hx ⊢
  generalize y (w, memo) = q at hx ⊢
  cases hx with
  | failed he hr => exact .failed he (hrests hr)
  | spent limit hr => exact .spent limit (hrests hr)
  | ok ha hm hp =>
    refine .ok ?_ (hm.leave hroom) hp
    exact ⟨ha.scopes, ha.lambdas, ha.size, ha.fresh, ha.apart, ha.steady⟩

/-- **An evaluation in a store matches the one that remembers**, with as many levels as the tree has left. -/
theorem remember_simulates (hK : K.Plain) (hL : ¬ L.assigns) : ∀ room,
    Simulates K L room (evaluateWithin room) (remember K room)
  | 0 => fun _ _ st _ _ s _ _ h _ _ _ => .spent (st.treeOf s).maxDepth (h.rests hK)
  | room + 1 => fun _ _ _ _ _ _ _ _ h hs ho he =>
    .nested h hs (evaluateBody_matches hK hL (remember_simulates hK hL room) h.enter hs ho he)

end Memoryless
end LazyFormula
