import LazyFormula.Proofs.Hosts
/-!
# Memoized values that a write does not reach

A write drops what look-ups memoized at the written scope and below it. A definition may call a procedure that closes
over a scope elsewhere, and a write there leaves the memoized value as it is (`Host.memo_outlives_write`).
-/
namespace LazyFormula

/-! ## Expressions that assign nothing -/

mutual
/-- An expression without the form that assigns, also where it is quoted. -/
def Expr.unassigning : Expr → Bool
  | .number _ | .symbol _ => true
  | .list items => !(items.head?.bind Form.symbol? == some "set!") && unassigningItems items

def Expr.unassigningItems : List Expr → Bool
  | [] => true
  | e :: es => e.unassigning && unassigningItems es
end

theorem Expr.unassigningItems_iff {es : List Expr} : unassigningItems es = true ↔
    ∀ e ∈ es, e.unassigning = true := by
  induction es with
  | nil => simp [unassigningItems]
  | cons e es ih => simp [unassigningItems, ih]

/-- The parts of a form are among the items of the list. -/
theorem Form.parts_subset {items : List Expr} {form : Form} (h : Form.ofItems items = .ok form) :
    ∀ e ∈ form.parts, e ∈ items := by
  unfold ofItems at h
  split at h
  · cases h
    simp [parts]
  · unfold ofKeyword ofQuote ofConditional ofDefine ofAssign ofLambda at h
    repeat' split at h
    all_goals cases h
    all_goals simp [parts]
  · cases h
    simp [parts]

/-- Only a list that is headed by the keyword assigns. -/
theorem Form.head_of_assign {items : List Expr} {name : String} {e : Expr}
    (h : Form.ofItems items = .ok (.assign name e)) :
    items.head?.bind symbol? = some "set!" := by
  unfold ofItems at h
  split at h
  · cases h
  · unfold ofKeyword ofQuote ofConditional ofDefine ofAssign ofLambda at h
    repeat' split at h
    all_goals cases h
    simp_all [symbol?]
  · cases h

/-- The language without assignments. -/
def Fragment.unassigning : Fragment where
  Mem e := e.unassigning = true
  assigns := False
  parts he hform e hpart := by
    simp only [Expr.unassigning, Bool.and_eq_true] at he
    exact Expr.unassigningItems_iff.1 he.2 e (Form.parts_subset hform e hpart)
  assigning he hform := by
    simp [Expr.unassigning, Form.head_of_assign hform] at he

namespace Store

/-- A store without anything that look-ups memoized. -/
def dropMemoized (st : Store) : Store :=
  { st with
    scopes := (st.scopes.toList.map (·.map fun c =>
      { c with slots := c.slots.filter fun _ slot => slot.kind == .bound })).toArray }

end Store

/-! ## A value out of reach -/

namespace Host

/-- A bare root with two scopes below. The second one has a parameter, and a procedure that reads it. -/
def pair : Host :=
  let root := (Store.empty.addOrphan 10).2
  let scopes := ((root.addChild 0 []).2.addChild 0 []).2
  let h : Host := ⟨scopes.update 2 [("k", .int 1)], [2, 1, 0], []⟩
  h.after (Eval.evaluateIn (.list [.symbol "lambda", .list [], .symbol "k"]) 2 h.store)

/-- The procedure of the second scope. -/
def reader : Value := .procedure ⟨⟨0, [], .symbol "k"⟩, 2, .strong⟩

/-- The first scope gets the procedure, a definition that calls it, and a reading of that. -/
def warmed : Host :=
  let st := (pair.store.define 1 "x" (.list [.symbol "f"])).update 1 [("f", reader)]
  let h : Host := ⟨st, [2, 1, 0], [reader]⟩
  h.after (Eval.lookup 1 "x" st)

/-- The parameter of the second scope changes. -/
def changed : Host := { warmed with store := warmed.store.update 2 [("k", .int 2)] }

theorem knows_int (h : Host) (name : String) (i : Int64) : ∀ x ∈ [(name, Value.int i)], h.Knows x.2 := by
  simp [Knows, Value.int, Value.procedures]

theorem reachable_pair : Reachable .unassigning pair := by
  have hroot : Reachable .unassigning ⟨(Store.empty.addOrphan 10).2, [0], []⟩ := .step .init (.root 10 true)
  have hfirst : Reachable .unassigning ⟨((Store.empty.addOrphan 10).2.addChild 0 []).2, [1, 0], []⟩ :=
    .step hroot (.child (by simp) nofun)
  have hsecond :
      Reachable .unassigning ⟨(((Store.empty.addOrphan 10).2.addChild 0 []).2.addChild 0 []).2, [2, 1, 0], []⟩ :=
    .step hfirst (.child (by simp) nofun)
  refine .step (.step hsecond (.update (s := 2) (by simp) (knows_int _ "k" 1))) ?_
  exact .evaluateIn (by simp) rfl

theorem reachable_changed : Reachable .unassigning changed := by
  have hdefined : Reachable .unassigning { pair with store := pair.store.define 1 "x" (.list [.symbol "f"]) } :=
    .step reachable_pair (.define "x" (by decide) rfl)
  have hgiven : Reachable .unassigning
      ⟨(pair.store.define 1 "x" (.list [.symbol "f"])).update 1 [("f", reader)], [2, 1, 0], [reader]⟩ := by
    refine .step hdefined (.update (by decide) fun x hx p hp => ?_)
    rw [List.mem_singleton.1 hx] at hp
    exact ⟨reader, List.mem_singleton_self _, hp⟩
  exact .step (.step hgiven (.lookup "x" (by decide))) (.update (by decide) (knows_int _ _ _))

/-- **A memoized value outlives a write it depends on**: the scope that a called procedure closes over is written, and
the definition that called it still answers with the old value. -/
theorem memo_outlives_write : Reachable .unassigning changed ∧
    (changed.store.scope 1).definitions.get? "x" = some (.list [.symbol "f"]) ∧
    (Eval.lookup 1 "x" changed.store).1 = .ok (.int 1) ∧ (Value.int 1).procedures = [] ∧
    (Eval.lookup 1 "x" changed.store.dropMemoized).1 = .ok (.int 2) ∧ Value.int 1 ≠ .int 2 :=
  ⟨reachable_changed, rfl, rfl, rfl, rfl, by simp [Value.int]⟩

end Host
end LazyFormula
