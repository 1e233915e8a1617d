import LazyFormula.Proofs.Staleness
/-!
# Scopes that hold each other

Sweeping goes on until every scope that is left is held by the host or by a living scope (`sweep_settled`). What a scope
holds of itself is held weakly, so it is another scope that holds it (`Reachable.kept_by_other`). Two scopes may hold
each other, and then an evaluation leaves them behind: a scope that binds a closure which a call made from there
returned holds the scope of the call, and that one holds its parent (`Host.call_leaves_scope`).
-/
namespace LazyFormula

namespace Store

variable {st : Store} {s : ScopeId} {host : List ScopeId}

/-! ## Marks -/

/-- A mark that was not there is set for one of the list. -/
theorem mem_of_mark : ∀ {ids : List ScopeId} {marks : Array Bool},
    (ids.foldl (·.setIfInBounds · true) marks)[s]? = some true → s ∈ ids ∨ marks[s]? = some true
  | [], _, h => .inr h
  | t :: ids, marks, h => by
    rw [List.foldl_cons] at h
    rcases mem_of_mark h with h | h
    · exact .inl (List.mem_cons_of_mem _ h)
    · rw [Array.getElem?_setIfInBounds] at h
      by_cases ht : t = s
      · exact .inl (ht ▸ List.mem_cons_self)
      · rw [if_neg ht] at h
        exact .inr h

theorem held_of_mark : ∀ {cs : List (Option Scope)} {marks : Array Bool},
    (cs.foldl (fun marks c => (c.map Scope.held |>.getD []).foldl (·.setIfInBounds · true) marks) marks)[s]? =
        some true →
      (∃ c, some c ∈ cs ∧ s ∈ c.held) ∨ marks[s]? = some true
  | [], _, h => .inr h
  | d :: cs, marks, h => by
    rw [List.foldl_cons] at h
    rcases held_of_mark h with ⟨c, hc, hs⟩ | h
    · exact .inl ⟨c, List.mem_cons_of_mem _ hc, hs⟩
    · refine (mem_of_mark h).imp_left fun hs => ?_
      cases d with
      | none => cases hs
      | some c => exact ⟨c, List.mem_cons_self, hs⟩

/-- Only what is held gets a mark. -/
theorem held_of_heldMarks (h : (st.heldMarks host)[s]? = some true) :
    s ∈ host ∨ ∃ t c, st.scope? t = some c ∧ s ∈ c.held := by
  unfold heldMarks at h
  rw [← Array.foldl_toList] at h
  rcases held_of_mark h with ⟨c, hc, hs⟩ | h
  · obtain ⟨t, ht, hct⟩ := Array.mem_iff_getElem.1 (Array.mem_toList_iff.1 hc)
    exact .inr ⟨t, c, Option.join_eq_some_iff.2 (hct ▸ Array.getElem?_eq_getElem ht), hs⟩
  · refine (mem_of_mark h).imp_right fun h => ?_
    rw [Array.getElem?_replicate] at h
    split at h <;> cases h

/-! ## Rounds -/

/-- Some of the scopes of a list died. -/
theorem countP_isSome_mapIdx (keep : Nat → Bool) : ∀ (cs : List (Option Scope)) (i : Nat),
    let left := cs.mapIdx fun j c => if keep (i + j) then c else none
    left.countP (·.isSome) ≤ cs.countP (·.isSome) ∧
      (left.countP (·.isSome) = cs.countP (·.isSome) → left = cs)
  | [], _ => ⟨Nat.le_refl _, fun _ => rfl⟩
  | c :: cs, i => by
    have hshift : (cs.mapIdx fun j c => if keep (i + (j + 1)) then c else none) =
        cs.mapIdx fun j c => if keep (i + 1 + j) then c else none := by
      refine congrArg (List.mapIdx · cs) (funext fun j => ?_)
      rw [Nat.add_right_comm, Nat.add_assoc]
    obtain ⟨hle, heq⟩ := countP_isSome_mapIdx keep cs (i + 1)
    intro left
    have hleft : left = (if keep i then c else none) ::
        cs.mapIdx fun j c => if keep (i + 1 + j) then c else none := by
      rw [← hshift]
      exact List.mapIdx_cons
    rw [hleft, List.countP_cons, List.countP_cons]
    by_cases hk : keep i = true
    · rw [if_pos hk]
      exact ⟨Nat.add_le_add_right hle _, fun h => by rw [heq (Nat.add_right_cancel h)]⟩
    · rw [if_neg hk]
      cases c with
      | none => exact ⟨hle, fun h => by rw [heq h]⟩
      | some c =>
        refine ⟨Nat.le_trans hle (Nat.le_add_right ..), fun h => ?_⟩
        simp only [Option.isSome_none, Option.isSome_some, Bool.false_eq_true, if_false, if_true] at h
        omega

theorem liveCount_eq (st : Store) : st.liveCount = st.scopes.toList.countP (·.isSome) := by
  have hfold : ∀ (cs : List (Option Scope)) (n : Nat),
      cs.foldl (fun n c => if c.isSome then n + 1 else n) n = n + cs.countP (·.isSome) := by
    intro cs
    induction cs with
    | nil => exact fun _ => rfl
    | cons c cs ih =>
      intro n
      rw [List.foldl_cons, ih, List.countP_cons]
      cases c with
      | none => rfl
      | some c => exact Nat.add_right_comm n 1 _
  rw [liveCount, ← Array.foldl_toList, hfold, Nat.zero_add]

theorem scopes_keepHeld (st : Store) (host : List ScopeId) : (st.keepHeld host).scopes.toList =
    st.scopes.toList.mapIdx fun s c => if (st.heldMarks host)[0 + s]?.getD false then c else none := by
  simp only [Nat.zero_add]
  exact Array.toList_mapIdx

theorem liveCount_keepHeld_le (st : Store) (host : List ScopeId) : (st.keepHeld host).liveCount ≤ st.liveCount := by
  rw [liveCount_eq, liveCount_eq, scopes_keepHeld]
  exact (countP_isSome_mapIdx (fun s => (st.heldMarks host)[s]?.getD false) st.scopes.toList 0).1

/-- A round in which as many scopes are left as before lets none die. -/
theorem keepHeld_of_liveCount (h : (st.keepHeld host).liveCount = st.liveCount) : st.keepHeld host = st := by
  rw [liveCount_eq, liveCount_eq, scopes_keepHeld] at h
  have hlist := (countP_isSome_mapIdx (fun s => (st.heldMarks host)[s]?.getD false) st.scopes.toList 0).2 h
  have hscopes : (st.keepHeld host).scopes = st.scopes := Array.toList_inj.1 ((scopes_keepHeld st host).trans hlist)
  exact congrArg (fun scopes => { st with scopes }) hscopes

/-- As many rounds as there are living scopes are enough. -/
theorem keepHeld_sweepRounds (host : List ScopeId) : ∀ (rounds : Nat) (st : Store), st.liveCount ≤ rounds →
    (sweepRounds host rounds st).keepHeld host = sweepRounds host rounds st
  | 0, st, h => keepHeld_of_liveCount (Nat.le_antisymm (liveCount_keepHeld_le st host) (Nat.le_trans h (Nat.zero_le _)))
  | rounds + 1, st, h => by
    rw [sweepRounds]
    split
    · rename_i hsame
      rw [keepHeld_of_liveCount hsame, keepHeld_of_liveCount hsame]
    · rename_i hfewer
      have hle := liveCount_keepHeld_le st host
      exact keepHeld_sweepRounds host rounds (st.keepHeld host) (by omega)

/-- **Every scope that a sweep leaves is held** by the host or by a scope that it leaves as well. -/
theorem sweep_settled (hs : (st.sweep host).alive s = true) :
    s ∈ host ∨ ∃ t c, (st.sweep host).scope? t = some c ∧ s ∈ c.held := by
  unfold sweep at hs ⊢
  generalize hst : sweepRounds host st.liveCount st = st₁ at hs ⊢
  have hfixed : st₁.keepHeld host = st₁ := hst ▸ keepHeld_sweepRounds host _ st (Nat.le_refl _)
  rw [alive_forgetDead, alive, ← hfixed, scope?_keepHeld] at hs
  have hmark : (st₁.heldMarks host)[s]? = some true := by
    cases hm : (st₁.heldMarks host)[s]? with
    | none => rw [hm] at hs; cases hs
    | some b =>
      rw [hm] at hs
      cases b with
      | false => cases hs
      | true => rfl
  refine (held_of_heldMarks hmark).imp_right ?_
  rintro ⟨t, c, hc, hheld⟩
  refine ⟨t, { c with listeners := c.listeners.filter st₁.alive }, ?_, hheld⟩
  rw [scope?_forgetDead, hc]
  rfl

/-- A scope of a formed store holds nothing of itself. -/
theorem Formed.not_mem_held {L : Fragment} (h : st.Formed L) {c : Scope} (hc : st.scope? s = some c) :
    s ∉ c.held := by
  intro hs
  rcases List.mem_append.1 hs with hs | hs
  · obtain ⟨up, hup⟩ := List.head?_eq_some_iff.1 (Option.mem_toList.1 hs)
    exact Nat.lt_irrefl s (h.parented hc hup).1
  · obtain ⟨slot, hslot, hs⟩ := List.mem_flatMap.1 hs
    obtain ⟨name, hname⟩ := Bindings.mem_values.1 hslot
    obtain ⟨p, hp, rfl⟩ := List.mem_map.1 hs
    obtain ⟨hp, hstrong⟩ := List.mem_filter.1 hp
    have hweak := (h.slots hc hname p hp).2.2
    simp_all

end Store

namespace Host

/-- **No scope is kept alive by itself**: what a sweep leaves is held by the host or by another living scope. -/
theorem Reachable.kept_by_other {L : Fragment} {h : Host} (hr : Reachable L h) {s : ScopeId}
    (hs : (h.store.sweep h.held).alive s = true) :
    s ∈ h.held ∨ ∃ t c, t ≠ s ∧ (h.store.sweep h.held).scope? t = some c ∧ s ∈ c.held := by
  refine (Store.sweep_settled hs).imp_right ?_
  rintro ⟨t, c, hc, hheld⟩
  refine ⟨t, c, ?_, hc, hheld⟩
  rintro rfl
  exact (hr.formed.store.sweep h.held).not_mem_held hc hheld

/-! ## Two scopes that hold each other -/

/-- A root that knows nothing. -/
def bare : Host := ⟨(Store.empty.addOrphan 10).2, [0], []⟩

/-- A call returns a closure, and the scope that the call was made from binds it:
`(define g ((lambda (x) (lambda () x)) 1))`. -/
def knot : Expr :=
  .list [.symbol "define", .symbol "g",
    .list [.list [.symbol "lambda", .list [.symbol "x"], .list [.symbol "lambda", .list [], .symbol "x"]],
      .number (.int 1)]]

/-- **An evaluation leaves a scope behind**: the scope it ran in binds the closure and so holds the scope of the call,
which holds its parent. -/
theorem call_leaves_scope :
    Reachable .unassigning bare ∧ 0 ∈ bare.scopes ∧
      (∀ t ∈ bare.store.chain 0, (bare.store.scope t).definitions.isEmpty = true) ∧ knot.unassigning = true ∧
      (Eval.evaluate knot 0 bare.store).1 = .ok .unspecified ∧ Value.unspecified.procedures = [] ∧
      (bare.store.sweep bare.held).listenerCount 0 = 0 ∧
      let left := bare.after (Eval.evaluate knot 0 bare.store)
      (left.store.sweep left.held).listenerCount 0 = 1 := by
  refine ⟨.step .init (.root 10 true), by decide, ?_, by decide, rfl, rfl, by decide +kernel, by decide +kernel⟩
  intro t ht
  cases List.mem_singleton.1 ht
  rfl

end Host
end LazyFormula
