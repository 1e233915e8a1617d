import LazyFormula.Proofs.Staleness
/-!
# Evaluations and the scopes that were there

What an evaluation binds, it binds in scopes that it made. So the scopes that were there keep their definitions and the
names that are written there. If nothing assigns, they keep every value that they had, and gain memoized values of names
that had none; a definition of which the value was memoized is therefore not forced again (`Reachable.isolated`).
-/
namespace LazyFormula

/-! ## What becomes of a scope -/

namespace Scope

/-- The definitions and the names of the written values are the same. -/
structure SameNames (c c' : Scope) : Prop where
  definitions : c'.definitions = c.definitions
  bound (name : String) : (c'.bound? name).isSome = (c.bound? name).isSome

/-- Every value is kept, and what is gained is memoized. -/
structure Gained (c c' : Scope) : Prop where
  definitions : c'.definitions = c.definitions
  kept {name : String} {slot : Slot} : c.slots.get? name = some slot → c'.slots.get? name = some slot
  derived {name : String} {slot : Slot} : c.slots.get? name = none → c'.slots.get? name = some slot →
    slot.kind = .derived

variable {c c₁ c' : Scope}

theorem sameNames_listeners (c : Scope) (l : List ScopeId) : SameNames c { c with listeners := l } :=
  ⟨rfl, fun _ => rfl⟩

theorem gained_listeners (c : Scope) (l : List ScopeId) : Gained c { c with listeners := l } :=
  ⟨rfl, id, fun h h' => by rw [h] at h'; cases h'⟩

theorem SameNames.trans (h : SameNames c c₁) (h' : SameNames c₁ c') : SameNames c c' :=
  ⟨h'.definitions.trans h.definitions, fun name => (h'.bound name).trans (h.bound name)⟩

theorem Gained.trans (h : Gained c c₁) (h' : Gained c₁ c') : Gained c c' where
  definitions := h'.definitions.trans h.definitions
  kept hslot := h'.kept (h.kept hslot)
  derived {name slot} hnone hslot := by
    cases h₁ : c₁.slots.get? name with
    | none => exact h'.derived h₁ hslot
    | some slot₁ =>
      cases (h'.kept h₁).symm.trans hslot
      exact h.derived hnone h₁

/-- A value is memoized that was not there at first. -/
theorem Gained.put (h : Gained c c') {name : String} (hnone : c.slots.get? name = none) (v : Value) :
    Gained c (c'.put name ⟨v, .derived⟩) where
  definitions := h.definitions
  kept {n slot} hslot := by
    have hne : n ≠ name := by
      rintro rfl
      rw [hnone] at hslot
      cases hslot
    rw [get?_put, if_neg hne]
    exact h.kept hslot
  derived {n slot} hn hslot := by
    rw [get?_put] at hslot
    split at hslot
    · cases hslot
      rfl
    · exact h.derived hn hslot

/-- A value is overwritten and stays written or memoized. -/
theorem sameNames_put {name : String} {slot : Slot} (hslot : c.slots.get? name = some slot)
    (hd : c'.definitions = c.definitions) (hb : ∀ n, c'.bound? n = c.bound? n) (v : Value) :
    SameNames c (c'.put name ⟨v, slot.kind⟩) where
  definitions := hd
  bound n := by
    rw [← hb]
    by_cases hn : n = name
    · subst hn
      rw [hb, bound?, bound?, get?_put, if_pos rfl, hslot]
      cases hk : slot.kind <;> simp [hk]
    · rw [bound?, get?_put, if_neg hn, bound?]

end Scope

/-! ## What becomes of the scopes that were there -/

namespace Store

variable {L : Fragment} {base : Nat} {R : Scope → Scope → Prop} {st st₁ st' : Store} {s t : ScopeId}
  {name : String} {v : Value} {host : List ScopeId}

/-- **The scopes below a number are left in a relation** to what they were. None of them is made anew. -/
structure Leaves (base : Nat) (R : Scope → Scope → Prop) (st st' : Store) : Prop where
  size : st.scopes.size ≤ st'.scopes.size
  scope {t : ScopeId} {c' : Scope} : base ≤ st.scopes.size → t < base → st'.scope? t = some c' →
    ∃ c, st.scope? t = some c ∧ R c c'

theorem Leaves.trans (hR : ∀ {c c₁ c'}, R c c₁ → R c₁ c' → R c c') (h : Leaves base R st st₁)
    (h' : Leaves base R st₁ st') : Leaves base R st st' where
  size := Nat.le_trans h.size h'.size
  scope hb ht hc' := by
    obtain ⟨c₁, hc₁, h₁⟩ := h'.scope (Nat.le_trans hb h.size) ht hc'
    obtain ⟨c, hc, h₀⟩ := h.scope hb ht hc₁
    exact ⟨c, hc, hR h₀ h₁⟩

section
variable (hR : ∀ c l, R c { c with listeners := l })
include hR

theorem leaves_of_scope? (hsize : st'.scopes.size = st.scopes.size) (h : ∀ t, st'.scope? t = st.scope? t) :
    Leaves base R st st' where
  size := Nat.le_of_eq hsize.symm
  scope {t c'} _ _ hc' := ⟨c', (h t).symm.trans hc', hR c' c'.listeners⟩

theorem Fades.leaves (hf : Fades host st st') : Leaves base R st st' where
  size := Nat.le_of_eq hf.size.symm
  scope _ _ hc' := by
    obtain ⟨c, l, hc, rfl, -⟩ := hf.scope hc'
    exact ⟨c, hc, hR c l⟩

theorem leaves_addChild (hs : st.alive s = true) (values : List (String × Value)) :
    Leaves base R st (st.addChild s values).2 where
  size := by
    rw [size_addChild]
    exact Nat.le_succ _
  scope {t c'} hb ht hc' := by
    obtain ⟨c, hc, rfl⟩ := exists_of_addChild hs (Nat.ne_of_lt (Nat.lt_of_lt_of_le ht hb)) hc'
    exact ⟨c, hc, hR c _⟩

/-- What is bound in a new scope does not reach the others. -/
theorem leaves_add (h : st.Formed L) (hs : st.alive s = true) (ho : base ≤ s) (name : String) (v : Value) :
    Leaves base R st (st.add s name v) where
  size := Nat.le_of_eq (size_update ..).symm
  scope {t c'} _ ht hc' := by
    have hput : (st.add s name v).scope? t = (st.invalidate s .derived [name]).scope? t :=
      (scope?_put _ s name v .bound t).trans (if_neg (Nat.ne_of_lt (Nat.lt_of_lt_of_le ht ho)))
    rw [hput] at hc'
    obtain ⟨c, hc, -, -, hout⟩ := h.scope?_of_invalidate hs hc'
    have hnot : s ∉ st.chain t := fun hm =>
      Nat.not_le_of_lt (Nat.lt_of_lt_of_le ht ho) (h.alive_of_mem_chain (alive_of_scope? hc) hm).2
    rw [hout hnot]
    exact ⟨c, hc, hR c c.listeners⟩

end

/-! ## Names that are written -/

theorem Move.leaves (h : st.Formed L) (hm : Move L (base ≤ ·) st st') : Leaves base Scope.SameNames st st' := by
  cases hm with
  | record | count | fresh | depth => exact leaves_of_scope? Scope.sameNames_listeners rfl fun _ => rfl
  | child hs hv => exact leaves_addChild Scope.sameNames_listeners hs _
  | bind hs ho hv => exact leaves_add Scope.sameNames_listeners h hs ho _ _
  | @memoize s name v hs hv hb =>
    refine ⟨Nat.le_of_eq (size_modify ..).symm, fun {t c'} _ _ hc' => ?_⟩
    rcases scope_of_put hc' with ⟨c, hc, rfl, rfl⟩ | ⟨-, hc'⟩
    · rw [scope_of_scope? hc] at hb
      exact ⟨c, hc, rfl, fun n => by rw [Scope.bound?_put_derived _ hb]⟩
    · exact ⟨c', hc', Scope.sameNames_listeners c' c'.listeners⟩
  | @assign s name v _ hs hL hv ha =>
    obtain ⟨⟨u, slot⟩, hu, rfl⟩ := Option.map_eq_some_iff.1 ha
    obtain ⟨below, above, hchain, hslot, -⟩ := assignable?_eq_some hu
    have hua : st.alive u = true := (h.alive_of_mem_chain hs (hchain ▸ List.mem_append_right _ List.mem_cons_self)).1
    have hrec : (st.record (.assigning u name slot.kind)).Formed L := h.congr rfl fun _ => rfl
    dsimp only
    refine ⟨Nat.le_of_eq (by rw [put, size_modify, size_invalidate, size_record]), fun {t c'} _ _ hc' => ?_⟩
    -- a scope after it dropped what was memoized
    have hdropped : ∀ {t c₁}, ((st.record (.assigning u name slot.kind)).invalidate u .derived [name]).scope? t =
        some c₁ →
        ∃ c, st.scope? t = some c ∧ c₁.definitions = c.definitions ∧ ∀ n, c₁.bound? n = c.bound? n := by
      intro t c₁ hc₁
      obtain ⟨c, hc, -, hin, hout⟩ := hrec.scope?_of_invalidate hua hc₁
      by_cases hm : u ∈ (st.record (.assigning u name slot.kind)).chain t
      · exact ⟨c, hc, (hin hm).definitions, (hin hm).bound?⟩
      · rw [hout hm]
        exact ⟨c, hc, rfl, fun _ => rfl⟩
    rcases scope_of_put hc' with ⟨c₁, hc₁, rfl, rfl⟩ | ⟨-, hc'⟩
    · obtain ⟨c, hc, hd, hb⟩ := hdropped hc₁
      rw [scope_of_scope? hc] at hslot
      exact ⟨c, hc, Scope.sameNames_put hslot hd hb _⟩
    · obtain ⟨c, hc, hd, hb⟩ := hdropped hc'
      exact ⟨c, hc, hd, fun n => by rw [hb]⟩

theorem Moves.leaves (h : st.Formed L) (hm : Moves L (base ≤ ·) st st') : Leaves base Scope.SameNames st st' := by
  induction hm with
  | refl => exact leaves_of_scope? Scope.sameNames_listeners rfl fun _ => rfl
  | head hm _ ih => exact (hm.leaves h).trans Scope.SameNames.trans (ih (hm.formed h))

/-! ## Values without assignments -/

/-- A definition below a number was forced only where the name had no value. -/
def Unforced (base : Nat) (st st' : Store) : Prop :=
  ∃ events, st'.log = events ++ st.log ∧ ∀ t name e, .forcing t name e ∈ events →
    base ≤ st.scopes.size → t < base →
    st.alive t = true ∧ (st.scope t).slots.get? name = none

theorem unforced_of_log (events : List Event) (hlog : st'.log = events ++ st.log)
    (h : ∀ t name e, .forcing t name e ∉ events) : Unforced base st st' :=
  ⟨events, hlog, fun t name e he => absurd he (h t name e)⟩

theorem Unforced.trans (h : Unforced base st st₁) (hl : Leaves base Scope.Gained st st₁)
    (h' : Unforced base st₁ st') :
    Unforced base st st' := by
  obtain ⟨events, hlog, hnone⟩ := h
  obtain ⟨events', hlog', hnone'⟩ := h'
  refine ⟨events' ++ events, by rw [hlog', hlog, List.append_assoc], fun t name e he hb ht => ?_⟩
  rcases List.mem_append.1 he with he | he
  · obtain ⟨ha₁, hslot₁⟩ := hnone' t name e he (Nat.le_trans hb hl.size) ht
    obtain ⟨c₁, hc₁⟩ := alive_iff.1 ha₁
    obtain ⟨c, hc, hg⟩ := hl.scope hb ht hc₁
    refine ⟨alive_of_scope? hc, ?_⟩
    rw [scope_of_scope? hc₁] at hslot₁
    rw [scope_of_scope? hc]
    cases hslot : c.slots.get? name with
    | none => rfl
    | some slot => exact absurd ((hg.kept hslot).symm.trans hslot₁) nofun
  · exact hnone t name e he hb ht

/-- **What an evaluation without assignments does to the scopes below a number**, when it binds only above. -/
structure Isolates (base : Nat) (st st' : Store) : Prop where
  moves : Moves .unassigning (base ≤ ·) st st'
  leaves : Leaves base Scope.Gained st st'
  unforced : Unforced base st st'

theorem Isolates.trans (h : Isolates base st st₁) (h' : Isolates base st₁ st') : Isolates base st st' :=
  ⟨h.moves.trans h'.moves, h.leaves.trans Scope.Gained.trans h'.leaves, h.unforced.trans h.leaves h'.unforced⟩

/-- A move that leaves all scopes and does not log that a definition is forced. -/
theorem Move.isolates (events : List Event) (hm : Move .unassigning (base ≤ ·) st st')
    (hsize : st'.scopes.size = st.scopes.size) (hs : ∀ t, st'.scope? t = st.scope? t)
    (hlog : st'.log = events ++ st.log) (h : ∀ t name e, .forcing t name e ∉ events) : Isolates base st st' :=
  ⟨hm.moves, leaves_of_scope? Scope.gained_listeners hsize hs, unforced_of_log events hlog h⟩

theorem Isolates.memoize (hm : Isolates base st st') (hs : st.alive s = true)
    (hslot : (st.scope s).slots.get? name = none) (hv : st'.Supports .unassigning v)
    (hb : (st'.scope s).bound? name = none) : Isolates base st (st'.put s name v .derived) where
  moves := hm.moves.trans (Move.memoize (hm.moves.alive hs) hv hb).moves
  leaves := by
    refine ⟨Nat.le_trans hm.leaves.size (Nat.le_of_eq (size_modify ..).symm), fun {t c'} hbase ht hc' => ?_⟩
    rcases scope_of_put hc' with ⟨c₁, hc₁, rfl, rfl⟩ | ⟨-, hc'⟩
    · obtain ⟨c, hc, hg⟩ := hm.leaves.scope hbase ht hc₁
      rw [scope_of_scope? hc] at hslot
      exact ⟨c, hc, hg.put hslot _⟩
    · exact hm.leaves.scope hbase ht hc'
  unforced := hm.unforced

instance : Invariant .unassigning (base ≤ ·) (Isolates base) where
  moves h := h.moves
  refl st := ⟨.refl _, leaves_of_scope? Scope.gained_listeners rfl fun _ => rfl, unforced_of_log [] rfl nofun⟩
  trans := .trans
  cacheHit st s name := Move.isolates [_] (.record fun _ _ => id) rfl (fun _ => rfl) rfl (by simp)
  forcing {st s name e} hs hslot hdef := by
    refine ⟨(Move.record fun _ _ => id).moves,
      leaves_of_scope? Scope.gained_listeners rfl fun _ => rfl, [_], rfl, ?_⟩
    intro t n e' he _ _
    cases List.mem_singleton.1 he
    exact ⟨hs, hslot⟩
  child hst hp hv :=
    ⟨(Move.child hp hv).moves, leaves_addChild Scope.gained_listeners hp _, unforced_of_log [] rfl nofun⟩
  memoize hm hs hslot _ _ hv hb := hm.memoize hs hslot hv hb
  bind hst hs ho hv :=
    ⟨(Move.bind hs ho hv).moves, leaves_add Scope.gained_listeners hst.formed hs ho _ _,
      unforced_of_log [_] (log_invalidate ..) (by simp)⟩
  assign _ _ hL := hL.elim
  count st b := (Move.count b).isolates [] rfl (fun _ => rfl) rfl nofun
  fresh st := Move.fresh.isolates [] rfl (fun _ => rfl) rfl nofun
  depth st tree f := (Move.depth tree f).isolates [] rfl (fun _ => rfl) rfl nofun

/-! ## Evaluations one after the other -/

/-- **Evaluations one after the other**, also failed ones, below scopes that live. Scopes die in between. -/
inductive Evaluations (L : Fragment) : Store → Store → Prop
  | refl (st : Store) : Evaluations L st st
  | evaluate {st st' : Store} {s : ScopeId} {e : Expr} (hs : st.alive s = true) (he : L.Mem e)
      (rest : Evaluations L (Eval.evaluate e s st).2 st') : Evaluations L st st'
  | fade {st st₁ st' : Store} {host : List ScopeId} (hf : Fades host st st₁) (hlog : st₁.log = st.log)
      (rest : Evaluations L st₁ st') : Evaluations L st st'

/-- Nothing assigns: neither a definition nor a procedure in a value. -/
structure Unassigning (st : Store) : Prop where
  definitions {t : ScopeId} {c : Scope} {name : String} {e : Expr} :
    st.scope? t = some c → c.definitions.get? name = some e → e.unassigning = true
  bodies {t : ScopeId} {c : Scope} {name : String} {slot : Slot} :
    st.scope? t = some c → c.slots.get? name = some slot →
      ∀ p ∈ slot.value.procedures, p.lambda.body.unassigning = true

theorem Formed.restrict (h : st.Formed L) (hu : st.Unassigning) : st.Formed .unassigning where
  parented := h.parented
  listening := h.listening
  nodup_listeners := h.nodup_listeners
  listened := h.listened
  listener_lt := h.listener_lt
  definitions := hu.definitions
  slots hc hslot p hp := ⟨hu.bodies hc hslot p hp, (h.slots hc hslot p hp).2⟩

theorem Formed.unassigning (h : st.Formed .unassigning) : st.Unassigning where
  definitions := h.definitions
  bodies hc hslot p hp := (h.slots hc hslot p hp).1

theorem ready_of_le (h : st.Formed L) (hb : base ≤ st.scopes.size) : st.Ready L (base ≤ ·) :=
  ⟨h, Nat.le_trans hb⟩

theorem Evaluations.sameNames (he : Evaluations L st st') (h : st.Formed L) (hb : base ≤ st.scopes.size) :
    Leaves base Scope.SameNames st st' := by
  induction he with
  | refl => exact leaves_of_scope? Scope.sameNames_listeners rfl fun _ => rfl
  | evaluate hs he _ ih =>
    have hm : Moves L (base ≤ ·) _ _ := (Eval.evaluate_yields (ready_of_le h hb) he hs).1
    have hl := hm.leaves h
    exact hl.trans Scope.SameNames.trans (ih (hm.formed h) (Nat.le_trans hb hl.size))
  | fade hf _ _ ih =>
    have hl : Leaves base Scope.SameNames _ _ := hf.leaves Scope.sameNames_listeners
    exact hl.trans Scope.SameNames.trans (ih (hf.formed h) (Nat.le_trans hb hl.size))

theorem Evaluations.gained (he : Evaluations .unassigning st st') (h : st.Formed .unassigning)
    (hb : base ≤ st.scopes.size) : Leaves base Scope.Gained st st' ∧ Unforced base st st' := by
  induction he with
  | refl => exact ⟨leaves_of_scope? Scope.gained_listeners rfl fun _ => rfl, unforced_of_log [] rfl nofun⟩
  | evaluate hs he _ ih =>
    have hi : Isolates base _ _ := (Eval.evaluate_yields (ready_of_le h hb) he hs).1
    obtain ⟨hl, hu⟩ := ih (hi.moves.formed h) (Nat.le_trans hb hi.leaves.size)
    exact ⟨hi.leaves.trans Scope.Gained.trans hl, hi.unforced.trans hi.leaves hu⟩
  | fade hf hlog _ ih =>
    have hl : Leaves base Scope.Gained _ _ := hf.leaves Scope.gained_listeners
    obtain ⟨hl', hu⟩ := ih (hf.formed h) (Nat.le_trans hb hl.size)
    exact ⟨hl.trans Scope.Gained.trans hl', (unforced_of_log [] hlog nofun).trans hl hu⟩

end Store

namespace Host

variable {h : Host}

/-- **Evaluations are isolated from the scopes that were there.** Whatever a host did, and however many evaluations
follow, also failed ones: the scopes that were there and still live keep their definitions and the names of their
written values. If neither the expressions nor anything in the store assigns, they keep every value that they had and
gain only memoized ones, and a definition whose name had a value is not forced. -/
theorem Reachable.isolated (hr : Reachable .full h) {st : Store} :
    (Store.Evaluations .full h.store st → ∀ t, h.store.alive t = true → st.alive t = true →
      (st.scope t).definitions = (h.store.scope t).definitions ∧
      ∀ name, ((st.scope t).bound? name).isSome = ((h.store.scope t).bound? name).isSome) ∧
    (h.store.Unassigning → Store.Evaluations .unassigning h.store st →
      (∀ t, h.store.alive t = true → st.alive t = true → ∀ name,
        (∀ slot, (h.store.scope t).slots.get? name = some slot → (st.scope t).slots.get? name = some slot) ∧
        ((h.store.scope t).slots.get? name = none →
          ∀ slot, (st.scope t).slots.get? name = some slot → slot.kind = .derived)) ∧
      ∃ events, st.log = events ++ h.store.log ∧ ∀ t name slot, h.store.alive t = true →
        (h.store.scope t).slots.get? name = some slot → ∀ e, .forcing t name e ∉ events) := by
  have hf := hr.formed.store
  -- a scope that is left, with what it was
  have hleft : ∀ {R : Scope → Scope → Prop} {t}, Store.Leaves h.store.scopes.size R h.store st →
      h.store.alive t = true → st.alive t = true → R (h.store.scope t) (st.scope t) := by
    intro R t hl ht ht'
    obtain ⟨c', hc'⟩ := Store.alive_iff.1 ht'
    obtain ⟨c, hc, hR⟩ := hl.scope (Nat.le_refl _) (Store.lt_size_of_alive ht) hc'
    rw [Store.scope_of_scope? hc, Store.scope_of_scope? hc']
    exact hR
  refine ⟨fun he t ht ht' => ?_, fun hu he => ?_⟩
  · have hsame := hleft (he.sameNames hf (Nat.le_refl _)) ht ht'
    exact ⟨hsame.definitions, hsame.bound⟩
  · obtain ⟨hl, events, hlog, hnone⟩ := he.gained (hf.restrict hu) (Nat.le_refl _)
    refine ⟨fun t ht ht' name => ?_, events, hlog, fun t name slot ht hslot e he => ?_⟩
    · have hgained := hleft hl ht ht'
      exact ⟨fun _ => hgained.kept, fun hn _ => hgained.derived hn⟩
    · have h₀ := (hnone t name e he (Nat.le_refl _) (Store.lt_size_of_alive ht)).2
      rw [hslot] at h₀
      cases h₀

/-- A root that defines a name and was asked for it. -/
def consulted : Host :=
  let h : Host := ⟨(Store.empty.addOrphan 10).2.define 0 "x" (.number (.int 1)), [0], []⟩
  h.after (Eval.lookup 0 "x" h.store)

theorem reachable_consulted {L : Fragment} (he : L.Mem (.number (.int 1))) : Reachable L consulted := by
  have hroot : Reachable L ⟨(Store.empty.addOrphan 10).2, [0], []⟩ := .step .init (.root 10 true)
  exact .step (.step hroot (.define "x" (by decide) he)) (.lookup "x" (by decide))

/-- The name is bound below to what was memoized, which is still there and still memoized. -/
theorem isolated_of_consulted :
    let st := (Eval.evaluate (.list [.symbol "define", .symbol "x", .symbol "x"]) 0 consulted.store).2
    (st.scope 0).slots.get? "x" = some ⟨.int 1, .derived⟩ ∧ ((st.scope 0).bound? "x").isSome = false ∧
      ((st.scope 2).bound? "x").isSome = true ∧
      ∃ events, st.log = events ++ consulted.store.log ∧ ∀ e, .forcing 0 "x" e ∉ events := by
  intro st
  have hunassigning : consulted.store.Unassigning := (reachable_consulted rfl).formed.store.unassigning
  have hslot : (consulted.store.scope 0).slots.get? "x" = some ⟨.int 1, .derived⟩ := rfl
  have hdefine : Expr.unassigning (.list [.symbol "define", .symbol "x", .symbol "x"]) = true := by decide
  obtain ⟨hnames, hvalues⟩ := Reachable.isolated (reachable_consulted trivial : Reachable .full consulted)
  obtain ⟨hkept, events, hlog, hforced⟩ := hvalues hunassigning (.evaluate rfl hdefine (.refl st))
  refine ⟨(hkept 0 rfl rfl "x").1 _ hslot, ?_, by decide +kernel, events, hlog, hforced 0 "x" _ rfl hslot⟩
  exact ((hnames (.evaluate rfl trivial (.refl st)) 0 rfl rfl).2 "x").trans rfl

end Host
end LazyFormula
