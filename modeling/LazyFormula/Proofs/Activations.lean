import LazyFormula.Proofs.Hosts
/-!
# Evaluations in progress

Each evaluation in progress takes some of the room that is left in a tree, so no more of them are ever nested than there
is room for at the start: what is done where the recursion would be cut off does not matter. And whenever an evaluation
starts or ends, each tree counts those of its evaluations that are in progress. Both are shown of an evaluator that
passes the evaluations in progress along and looks at the counts (`Reachable.evaluation_ends`).
-/
namespace LazyFormula

variable {α : Type} {T T' : Array Tree} {active : List Nat}

/-! ## Room -/

theorem totalRoom_modify : ∀ {trees : List Tree} {i : Nat}, 0 < (trees[i]?.getD default).room →
    totalRoom (trees.modify i fun t => { t with depth := t.depth + 1 }) + 1 = totalRoom trees
  | [], _, h => absurd h (Nat.lt_irrefl 0)
  | t :: trees, 0, h => by
    have hroom : 0 < t.room := h
    have hstep : Tree.room { t with depth := t.depth + 1 } + 1 = t.room := by
      unfold Tree.room at hroom ⊢
      dsimp only
      omega
    rw [List.modify_zero_cons, totalRoom, totalRoom, ← hstep]
    omega
  | t :: trees, i + 1, h => by
    have hroom : 0 < (trees[i]?.getD default).room := h
    have ih := totalRoom_modify hroom
    rw [List.modify_succ_cons, totalRoom, totalRoom, ← ih, Nat.add_assoc]

/-- An evaluation takes some of the room that is left. -/
theorem totalRoom_entered {i : Nat} (h : 0 < roomAt T i) :
    totalRoom (entered T i).toList + 1 = totalRoom T.toList := by
  rw [entered, Array.toList_modify]
  exact totalRoom_modify (by rwa [roomAt, ← Array.getElem?_toList] at h)

/-- Without any room left, evaluations fail for their depth as they do with a bound on the recursion that is used up. -/
theorem evaluateWithin_of_room {depth : Nat} {st : Store} (h : st.depthLeft ≤ depth) (e : Expr) (s : ScopeId) :
    evaluateWithin depth e s st = evaluateStep (evaluateWithin (depth - 1)) e s st := by
  cases depth with
  | succ depth => rfl
  | zero =>
    have hfull : ¬ 0 < roomAt st.trees (st.scope s).tree :=
      Nat.not_lt.2 (Nat.le_trans (roomAt_le_depthLeft st _) h)
    rw [roomAt_pos] at hfull
    exact (if_neg hfull).symm

/-! ## Counts -/

/-- **The counts are exact**: each tree counts the evaluations of it that are in progress, and there are no more than
its bound admits. -/
def Counted (active : List Nat) (T : Array Tree) : Prop :=
  ∀ i (h : i < T.size), T[i].depth = active.count i ∧ T[i].depth ≤ T[i].maxDepth

instance : Decidable (Counted active T) :=
  inferInstanceAs (Decidable (∀ i (h : i < T.size), T[i].depth = active.count i ∧ T[i].depth ≤ T[i].maxDepth))

theorem counted_iff : Counted active T ↔ ∀ i t, T[i]? = some t → t.depth = active.count i ∧
    t.depth ≤ t.maxDepth := by
  constructor
  · intro h i t ht
    obtain ⟨hi, rfl⟩ := Array.getElem?_eq_some_iff.1 ht
    exact h i hi
  · exact fun h i hi => h i T[i] (Array.getElem?_eq_getElem hi)

theorem Counted.entered (h : Counted active T) {i : Nat} (hroom : 0 < roomAt T i) :
    Counted (i :: active) (entered T i) := by
  rw [counted_iff] at h ⊢
  intro j t ht
  rw [LazyFormula.entered, Array.getElem?_modify] at ht
  rw [List.count_cons]
  by_cases hij : i = j
  · subst hij
    rw [if_pos rfl] at ht
    obtain ⟨u, hu, rfl⟩ := Option.map_eq_some_iff.1 ht
    obtain ⟨hcount, -⟩ := h i u hu
    rw [roomAt, hu] at hroom
    have hlt : u.depth < u.maxDepth := Nat.sub_pos_iff_lt.1 hroom
    rw [if_pos (beq_self_eq_true i), ← hcount]
    exact ⟨rfl, hlt⟩
  · rw [if_neg hij] at ht
    rw [if_neg (by simpa using hij), Nat.add_zero]
    exact h j t ht

namespace Eval

/-- A computation with the counts looked at before and after it. Where they are not exact, something else is done. -/
def checked (bad : Eval α) (active : List Nat) (x : Eval α) : Eval α := fun st =>
  if Counted active st.trees then
    if Counted active (x st).2.trees then x st else bad (x st).2
  else bad st

theorem checked_apply (bad : Eval α) {x : Eval α} {st : Store} (hc : Counted active st.trees)
    (h : (x st).2.trees = st.trees) : checked bad active x st = x st := by
  rw [checked, if_pos hc, if_pos (h ▸ hc)]

theorem Deepens.checked {excused : EvalError → Prop} {x y : Eval α} (bad : Eval α) (hc : Counted active T)
    (h : Deepens excused T T' x y) : Deepens excused T T' (checked bad active x) y := by
  intro st ht
  rw [checked_apply bad (ht ▸ hc) ((h st ht).1.trans ht.symm)]
  exact h st ht

end Eval

/-- **Evaluation under watch.** The trees of the evaluations in progress are passed along, the innermost first, and the
counts are looked at before and after an evaluation is counted and before and after it is no longer counted. Another
evaluator takes over where the recursion is cut off. -/
def watched (bad : Eval Value) (beyond : Evaluator) : Nat → List Nat → Evaluator
  | 0, _ => beyond
  | depth + 1, active => fun e s st =>
    let inside := (st.scope s).tree :: active
    Eval.checked bad active
      (Eval.nested s (Eval.checked bad inside (evaluateBody (watched bad beyond depth inside) e s))) st

section
variable {bad : Eval Value} {beyond : Evaluator} {depth depth' : Nat}

/-- One evaluation under watch, given that those inside it are as they are without. -/
theorem watched_step (hd : totalRoom T.toList ≤ depth') (hc : Counted active T)
    (hinside : ∀ i, 0 < roomAt T i → Deeper (fun _ => False) (entered T i) (entered T i)
      (watched bad beyond depth (i :: active)) (evaluateWithin (depth' - 1))) :
    Deeper (fun _ => False) T T (watched bad beyond (depth + 1) active) (evaluateWithin depth') := by
  intro e s st ht
  have hwithin : evaluateWithin depth' e s (st.withTrees T) =
      evaluateStep (evaluateWithin (depth' - 1)) e s (st.withTrees T) :=
    evaluateWithin_of_room (by rwa [Store.depthLeft_eq]) e s
  have hnested := Eval.Deepens.nested_at ht (.refl T) (.inr rfl) fun hroom =>
    (evaluateBody_deepens (hinside (st.scope s).tree hroom) e s).checked bad (hc.entered hroom)
  have hsame : watched bad beyond (depth + 1) active e s st = _ :=
    Eval.checked_apply bad (ht ▸ hc) (hnested.1.trans ht.symm)
  rw [hwithin, hsame]
  exact hnested

/-- **An evaluation under watch is the evaluation** as long as there is no more room than recursion. -/
theorem watched_deepens (hd : totalRoom T.toList ≤ depth) (hd' : totalRoom T.toList ≤ depth')
    (hc : Counted active T) :
    Deeper (fun _ => False) T T (watched bad beyond (depth + 1) active) (evaluateWithin depth') := by
  induction depth generalizing T active depth' with
  | zero =>
    refine watched_step hd' hc fun i hroom => ?_
    have hless := totalRoom_entered hroom
    omega
  | succ depth ih =>
    refine watched_step hd' hc fun i hroom => ?_
    have hless := totalRoom_entered hroom
    exact ih (by omega) (by omega) (hc.entered hroom)

/-- What is done with an evaluator under watch is what is done with the evaluator. -/
theorem watched_apply (bad : Eval Value) (beyond : Evaluator) {st : Store} (hd : st.depthLeft ≤ depth)
    (hc : Counted [] st.trees) {body : Evaluator → Eval Value}
    (hbody : ∀ {ev ev'}, Deeper (fun _ => False) st.trees st.trees ev ev' →
      Eval.Deepens (fun _ => False) st.trees st.trees (body ev) (body ev')) :
    body (watched bad beyond (depth + 1) []) st = Eval.withEvaluator body st ∧
      (Eval.withEvaluator body st).2.trees = st.trees := by
  rw [Store.depthLeft_eq] at hd
  have hev : Deeper (fun _ => False) st.trees st.trees (watched bad beyond (depth + 1) [])
      (evaluateWithin st.depthLeft) :=
    watched_deepens hd (Nat.le_of_eq st.depthLeft_eq.symm) hc
  obtain ⟨htrees, hrun⟩ := hbody hev st rfl
  rcases hrun with ⟨e, hfalse, -⟩ | hrun
  · exact hfalse.elim
  have hsame : body (watched bad beyond (depth + 1) []) st = Eval.withEvaluator body st := by
    rw [Eval.withEvaluator_apply]
    exact ((congrArg _ (Store.withTrees_trees st.trees rfl)).symm.trans (hrun.trans
      (congrArg _ (Store.withTrees_trees st.trees htrees)))).symm
  exact ⟨hsame, hsame ▸ htrees⟩

end

/-! ## What a host sees -/

namespace Host

variable {L : Fragment} {h h' : Host}

theorem counted_push (hc : Counted active T) (maxDepth : Nat) (hnew : active.count T.size = 0) :
    Counted active (T.push ⟨maxDepth, 0⟩) := by
  rw [counted_iff] at hc ⊢
  intro i t ht
  rw [Array.getElem?_push] at ht
  split at ht
  · rename_i hi
    cases ht
    exact ⟨(hi ▸ hnew).symm, Nat.zero_le _⟩
  · exact hc i t ht

theorem Step.counted (hs : Step L h h') (hc : Counted [] h.store.trees) : Counted [] h'.store.trees := by
  have hsame : ∀ {T : Array Tree}, T = h.store.trees → Counted [] T := fun hT => hT ▸ hc
  cases hs with
  | root maxDepth bare =>
    cases bare with
    | true => exact counted_push hc maxDepth rfl
    | false =>
      have htrees : (Session.addRoot h.store maxDepth false).2.trees = h.store.trees.push ⟨maxDepth, 0⟩ :=
        Store.trees_addRoot ..
      dsimp only
      rw [htrees]
      exact counted_push hc maxDepth rfl
  | child | parent | fresh | drop | log => exact hc
  | define => exact hsame (Store.trees_define ..)
  | update => exact hsame (Store.trees_update ..)
  | assign hs hL hv ha => exact hsame (Store.trees_assign? ha)
  | evaluate | evaluateIn => exact hsame (trees_evaluateWithin ..)
  | lookup => exact hsame (Eval.trees_lookup ..)
  | call => exact hsame (Eval.trees_call ..)
  | sweep => exact hsame (Store.trees_sweep ..)

theorem Reachable.counted (hr : Reachable L h) : Counted [] h.store.trees := by
  induction hr with
  | init => exact fun i hi => absurd hi (Nat.not_lt_zero i)
  | step _ hs ih => exact hs.counted ih

/-- **Evaluations end, and the counts are exact.** Whatever a host did, and whatever it asks for: the recursion goes no
deeper than there is room in all trees, so that what would be done beyond does not matter; whenever an evaluation starts
or ends, each tree counts those of its evaluations that are in progress, and no more than its bound; and in the end,
also after a failure, the counts are what they were. -/
theorem Reachable.evaluation_ends (hr : Reachable L h) (bad : Eval Value) (beyond : Evaluator) {depth : Nat}
    (hd : h.store.depthLeft ≤ depth) :
    let ev := watched bad beyond (depth + 1) []
    let Ends := fun x y : Eval Value => x h.store = y h.store ∧ (y h.store).2.trees = h.store.trees
    Counted [] h.store.trees ∧
    (∀ e s, Ends (ev e s) (Eval.evaluateIn e s)) ∧
    (∀ e s, Ends (do ev e (← Eval.child s [])) (Eval.evaluate e s)) ∧
    (∀ s name, Ends (lookup ev s name) (Eval.lookup s name)) ∧
    ∀ f args, Ends (callValue ev f args) (Eval.call f args) := by
  have hc := hr.counted
  intro ev Ends
  refine ⟨hc, fun e s => ?_, fun e s => ?_, fun s name => ?_, fun f args => ?_⟩
  · exact watched_apply bad beyond hd hc fun hev => hev e s
  · have hd' : (h.store.addChild s []).2.depthLeft ≤ depth := hd
    obtain ⟨hsame, hleft⟩ := watched_apply bad beyond hd' hc fun hev => hev e (h.store.addChild s []).1
    dsimp only [Ends]
    rw [Eval.evaluate, Eval.child_apply, Eval.child_apply]
    exact ⟨hsame, hleft⟩
  · exact watched_apply bad beyond hd hc fun hev => lookup_deepens hev s name
  · exact watched_apply bad beyond hd hc fun hev => callBelow_deepens hev _ f args

/-- Two roots that admit three and four evaluations, and a procedure in each that calls the one of the other. -/
def crossing : Host :=
  let roots : Host := ⟨((Store.empty.addOrphan 3).2.addOrphan 4).2, [1, 0], []⟩
  let first := roots.after (Eval.evaluateIn (.list [.symbol "lambda", .list [], .list [.symbol "g"]]) 1 roots.store)
  let given : Host := { first with store := first.store.update 0 (first.values.map ("f", ·)) }
  let second := given.after (Eval.evaluateIn (.list [.symbol "lambda", .list [], .list [.symbol "f"]]) 0 given.store)
  { second with store := second.store.update 1 ((second.values.take 1).map ("g", ·)) }

theorem reachable_crossing : Reachable .full crossing := by
  have hroots : Reachable .full ⟨((Store.empty.addOrphan 3).2.addOrphan 4).2, [1, 0], []⟩ :=
    .step (.step .init (.root 3 true)) (.root 4 true)
  refine .step (.step (.step (.step hroots (.evaluateIn (by simp) trivial)) (.update (by decide) ?_))
    (.evaluateIn (by decide) trivial)) (.update (by decide) ?_)
  · intro x hx p hp
    obtain ⟨v, hv, rfl⟩ := List.mem_map.1 hx
    exact ⟨v, hv, hp⟩
  · intro x hx p hp
    obtain ⟨v, hv, rfl⟩ := List.mem_map.1 hx
    exact ⟨v, List.mem_of_mem_take hv, hp⟩

/-- The procedures call each other until a root admits no more. The failure leaves the counts as they were. -/
theorem crossing_ends :
    let ev := watched (throw .scopeGone) (fun _ _ => throw .scopeGone) 8 []
    (ev (.list [.symbol "f"]) 0 crossing.store).1.isOk = false ∧
      (Eval.evaluateIn (.list [.symbol "f"]) 0 crossing.store).2.trees = #[⟨3, 0⟩, ⟨4, 0⟩] := by
  have hroom : crossing.store.depthLeft ≤ 7 := by decide
  obtain ⟨-, hends, -⟩ := reachable_crossing.evaluation_ends (throw .scopeGone) (fun _ _ => throw .scopeGone) hroom
  obtain ⟨hsame, htrees⟩ := hends (.list [.symbol "f"]) 0
  exact ⟨(congrArg (fun r => r.1.isOk) hsame).trans (by decide +kernel), htrees.trans (by decide +kernel)⟩

end Host
end LazyFormula
