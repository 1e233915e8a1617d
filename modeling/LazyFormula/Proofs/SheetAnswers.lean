import LazyFormula.Proofs.Depth
import LazyFormula.Proofs.Lifetimes
import LazyFormula.Proofs.Roots
import LazyFormula.Proofs.Sheets
/-!
# Answers of sheets

A root that is used as a sheet memoizes values in itself and in the scopes of evaluations below it. Each of them is what
its name denotes (`Shows.derived`, `Active.slots`), and look-ups and evaluations only ever add such values (`Grows`). So
what is answered is what is denoted, whatever was memoized before.
-/
namespace LazyFormula
namespace Sheet

/-- Where a sheet is: a root, the scope with the builtins above it, and their tree. -/
structure Place where
  root : ScopeId
  builtins : ScopeId
  tree : Nat

variable {σ : Sheet} {p : Place} {st st₁ st' : Store} {s : ScopeId} {x : String} {v : Value} {t : Formula}

/-- What a scope memoized is right. -/
def Right (σ : Sheet) (c : Scope) : Prop :=
  ∀ {x : String} {v : Value}, c.slots.get? x = some ⟨v, .derived⟩ → ∃ h, σ.Denotes h (.name x) v

/-- A scope below the root, in which formulas are evaluated: it has nothing but what it memoized, and that is right. -/
structure Below (σ : Sheet) (p : Place) (c : Scope) : Prop where
  tree : c.tree = p.tree
  ancestors : c.ancestors = [p.root, p.builtins]
  definitions (x : String) : c.definitions.get? x = none
  bound (x : String) : c.bound? x = none
  right : σ.Right c

/-- A living scope below the root. -/
structure Active (σ : Sheet) (p : Place) (st : Store) (s : ScopeId) : Prop where
  alive : st.alive s = true
  below : σ.Below p (st.scope s)

/-- **A store shows a sheet** in a root: the root has what was written and defined, the scope above it what is there
from the start, and what the root and the scopes below it memoized is right. -/
structure Shows (σ : Sheet) (p : Place) (st : Store) : Prop where
  builtins_alive : st.alive p.builtins = true
  builtins_ancestors : (st.scope p.builtins).ancestors = []
  builtins_definitions (x : String) : (st.scope p.builtins).definitions.get? x = none
  builtins_slots (x : String) : (st.scope p.builtins).slots.get? x = (σ.standard x).map (⟨·, .bound⟩)
  root_alive : st.alive p.root = true
  root_tree : (st.scope p.root).tree = p.tree
  root_ancestors : (st.scope p.root).ancestors = [p.builtins]
  root_definitions (x : String) : (st.scope p.root).definitions.get? x = (σ.definitions x).map Formula.expr
  root_bound (x : String) : (st.scope p.root).bound? x = (σ.values x).map Value.int
  root_right : σ.Right (st.scope p.root)
  active {s : ScopeId} : st.alive s = true → p.root ∈ (st.scope s).ancestors → σ.Active p st s

/-! ## Stores that grow -/

/-- A scope before and after look-ups; one without ancestors memoizes nothing. -/
structure Memoizes (σ : Sheet) (c c' : Scope) : Prop where
  tree : c'.tree = c.tree
  ancestors : c'.ancestors = c.ancestors
  definitions : c'.definitions = c.definitions
  bound (x : String) : c'.bound? x = c.bound? x
  orphan : c.ancestors = [] → c'.slots = c.slots
  right : σ.Right c → σ.Right c'

/-- **A store before and after look-ups**: the scopes have all that they had, and memoized what is right; new scopes are
below the root. -/
structure Grows (σ : Sheet) (p : Place) (st st' : Store) : Prop where
  old {s : ScopeId} {c : Scope} : st.scope? s = some c → ∃ c', st'.scope? s = some c' ∧ σ.Memoizes c c'
  new {s : ScopeId} {c' : Scope} : st.scope? s = none → st'.scope? s = some c' → σ.Below p c'

theorem Memoizes.refl (c : Scope) : σ.Memoizes c c := ⟨rfl, rfl, rfl, fun _ => rfl, fun _ => rfl, id⟩

theorem Memoizes.trans {c c₁ c' : Scope} (h : σ.Memoizes c c₁) (h' : σ.Memoizes c₁ c') : σ.Memoizes c c' where
  tree := h'.tree.trans h.tree
  ancestors := h'.ancestors.trans h.ancestors
  definitions := h'.definitions.trans h.definitions
  bound x := (h'.bound x).trans (h.bound x)
  orphan hc := (h'.orphan (h.ancestors.trans hc)).trans (h.orphan hc)
  right := h'.right ∘ h.right

theorem Below.memoizes {c c' : Scope} (h : σ.Below p c) (hm : σ.Memoizes c c') : σ.Below p c' where
  tree := hm.tree.trans h.tree
  ancestors := hm.ancestors.trans h.ancestors
  definitions x := hm.definitions ▸ h.definitions x
  bound x := (hm.bound x).trans (h.bound x)
  right := hm.right h.right

theorem Grows.of_eq (h : ∀ t, st'.scope? t = st.scope? t) : σ.Grows p st st' where
  old {s c} hc := ⟨c, (h s).trans hc, .refl c⟩
  new hn hc := by
    rw [h, hn] at hc
    cases hc

theorem Grows.trans (h : σ.Grows p st st₁) (h' : σ.Grows p st₁ st') : σ.Grows p st st' where
  old hc := by
    obtain ⟨c₁, hc₁, hm⟩ := h.old hc
    obtain ⟨c', hc', hm'⟩ := h'.old hc₁
    exact ⟨c', hc', hm.trans hm'⟩
  new {s c'} hn hc' := by
    cases hc₁ : st₁.scope? s with
    | none => exact h'.new hc₁ hc'
    | some c₁ =>
      obtain ⟨c'', hc'', hm⟩ := h'.old hc₁
      cases hc''.symm.trans hc'
      exact (h.new hn hc₁).memoizes hm

theorem Grows.scope (h : σ.Grows p st st') (hs : st.alive s = true) :
    st'.alive s = true ∧ σ.Memoizes (st.scope s) (st'.scope s) := by
  obtain ⟨c', hc', hm⟩ := h.old (Store.scope?_eq_of_alive hs)
  rw [Store.scope_of_scope? hc']
  exact ⟨Store.alive_of_scope? hc', hm⟩

theorem Active.grows (h : σ.Active p st s) (hg : σ.Grows p st st') : σ.Active p st' s := by
  obtain ⟨ha, hm⟩ := hg.scope h.alive
  exact ⟨ha, h.below.memoizes hm⟩

theorem Shows.grows (h : σ.Shows p st) (hg : σ.Grows p st st') : σ.Shows p st' := by
  obtain ⟨hba, hb⟩ := hg.scope h.builtins_alive
  obtain ⟨hra, hr⟩ := hg.scope h.root_alive
  refine
    { builtins_alive := hba
      builtins_ancestors := hb.ancestors.trans h.builtins_ancestors
      builtins_definitions := fun x => hb.definitions ▸ h.builtins_definitions x
      builtins_slots := fun x => hb.orphan h.builtins_ancestors ▸ h.builtins_slots x
      root_alive := hra
      root_tree := hr.tree.trans h.root_tree
      root_ancestors := hr.ancestors.trans h.root_ancestors
      root_definitions := fun x => hr.definitions ▸ h.root_definitions x
      root_bound := fun x => (hr.bound x).trans (h.root_bound x)
      root_right := hr.right h.root_right
      active := ?_ }
  intro s hs hroot
  cases hc : st.scope? s with
  | none => exact ⟨hs, hg.new hc (Store.scope?_eq_of_alive hs)⟩
  | some c =>
    have ha := Store.alive_of_scope? hc
    rw [(hg.scope ha).2.ancestors] at hroot
    exact (h.active ha hroot).grows hg

theorem Shows.root_chain (h : σ.Shows p st) : st.chain p.root = [p.root, p.builtins] :=
  congrArg (p.root :: ·) h.root_ancestors

/-- A new child of the root. -/
theorem Shows.below_newborn (h : σ.Shows p st) : σ.Below p (st.newborn p.root []) :=
  ⟨h.root_tree, h.root_chain, fun _ => rfl, fun _ => rfl, nofun⟩

theorem Shows.grows_child (h : σ.Shows p st) : σ.Grows p st (st.addChild p.root []).2 := by
  have hscope := Store.scope?_addChild h.root_alive []
  constructor
  · intro s c hc
    rw [hscope, if_neg (Nat.ne_of_lt (Store.lt_size_of_alive (Store.alive_of_scope? hc)))]
    split
    · rename_i hs
      rw [← hs, hc]
      exact ⟨_, rfl, rfl, rfl, rfl, fun _ => rfl, fun _ => rfl, id⟩
    · exact ⟨c, hc, .refl c⟩
  · intro s c' hn hc'
    rw [hscope] at hc'
    split at hc'
    · cases hc'
      exact h.below_newborn
    · split at hc'
      · rename_i hs
        rw [← hs, hn] at hc'
        cases hc'
      · rw [hn] at hc'
        cases hc'

theorem Shows.active_child (h : σ.Shows p st) : σ.Active p (st.addChild p.root []).2 st.scopes.size := by
  refine ⟨Store.alive_addChild_size h.root_alive [], ?_⟩
  rw [Store.scope_of_scope? ((Store.scope?_addChild h.root_alive [] _).trans (if_pos rfl))]
  exact h.below_newborn

/-- A right value is memoized where none was written. -/
theorem grows_memoize (hd : ∃ h, σ.Denotes h (.name x) v) (hv : v.procedures = [])
    (hb : (st.scope s).bound? x = none) (hs : (st.scope s).ancestors ≠ []) :
    σ.Grows p st (st.put s x v .derived) := by
  constructor
  · intro u c hc
    rw [Store.scope?_put]
    split
    · rename_i hu
      subst hu
      rw [Store.scope_of_scope? hc] at hb hs
      refine ⟨c.put x ⟨v.detach u, .derived⟩, by rw [hc]; rfl, rfl, rfl, rfl, Scope.bound?_put_derived _ hb,
        fun h => absurd h hs, ?_⟩
      intro hr y w hw
      rw [Scope.get?_put] at hw
      split at hw
      · rename_i hy
        have hdetach : v.detach u = v := Value.mapProcedures_eq_self fun q hq => by rw [hv] at hq; cases hq
        rw [hdetach] at hw
        cases hw
        exact hy ▸ hd
      · exact hr hw
    · exact ⟨c, hc, .refl c⟩
  · intro u c' hn hc'
    rw [Store.scope?_put] at hc'
    split at hc'
    · rename_i hu
      rw [← hu, hn] at hc'
      cases hc'
    · rw [hn] at hc'
      cases hc'

/-! ## Answers -/

/-- **A computation answers for a formula**: what it answers is what the formula denotes, and it does answer if there
is room for the expansion. -/
structure Answers (σ : Sheet) (p : Place) (st : Store) (x : Eval Value) (t : Formula) (room : Nat) : Prop where
  grows : σ.Grows p st (x st).2
  denotes {v : Value} : (x st).1 = .ok v → ∃ h, σ.Denotes h t v
  answer {h : Nat} {v : Value} : σ.Denotes h t v → h ≤ room → (x st).1 = .ok v

/-- What is known from the start needs no room. -/
theorem Answers.of_eq {y : Eval Value} {room : Nat} (hd : ∃ h, σ.Denotes h t v) (h : y st = (.ok v, st'))
    (hg : σ.Grows p st st') : σ.Answers p st y t room where
  grows := by rw [h]; exact hg
  denotes hw := by
    rw [h] at hw
    cases hw
    exact hd
  answer hw _ := by
    obtain ⟨k, hk⟩ := hd
    rw [h, hw.unique hk]

/-- What fails for a formula that denotes nothing. -/
theorem Answers.of_error {y : Eval Value} {room : Nat} {e : EvalError} (hn : ∀ h v, σ.Denotes h t v → room < h)
    (h : y st = (.error e, st')) (hg : σ.Grows p st st') : σ.Answers p st y t room where
  grows := by rw [h]; exact hg
  denotes hw := by
    rw [h] at hw
    cases hw
  answer hw hr := absurd (hn _ _ hw) (Nat.not_lt.2 hr)

/-- A computation that goes on from a store that grew. -/
theorem Answers.of_grows {y z : Eval Value} {room : Nat} (hz : σ.Answers p st₁ z t room) (hg : σ.Grows p st st₁)
    (h : y st = z st₁) : σ.Answers p st y t room :=
  ⟨by rw [h]; exact hg.trans hz.grows, by rw [h]; exact hz.denotes, by rw [h]; exact hz.answer⟩

/-- What is done with the value of a part, which is there if the whole has one. -/
theorem Answers.bind {y : Eval Value} {f : Value → Eval Value} {t' : Formula} {room room' : Nat}
    (hy : σ.Answers p st y t room)
    (hpart : ∀ {h w}, σ.Denotes h t' w → h ≤ room' → ∃ k v, σ.Denotes k t v ∧ k ≤ room)
    (hf : ∀ {h v}, σ.Denotes h t v → σ.Grows p st (y st).2 → σ.Answers p (y st).2 (f v) t' room') :
    σ.Answers p st (y >>= f) t' room' := by
  have hrun := bind_apply y f st
  rcases hy with ⟨hg, hden, hans⟩
  rcases hr : y st with ⟨r, st₁⟩
  rw [hr] at hg hden hans hrun hf
  cases r with
  | error e =>
    refine .of_error (fun h w hw => Nat.lt_of_not_le fun hle => ?_) hrun hg
    obtain ⟨k, v, hv, hle⟩ := hpart hw hle
    cases hans hv hle
  | ok v =>
    obtain ⟨h, hv⟩ := hden rfl
    exact (hf hv hg).of_grows hg hrun

section
variable {ev : Evaluator} {room : Nat}

theorem memoize_answers (hσ : σ.Standard) {generation h : Nat} (hs : st.alive s = true)
    (hb : (st.scope s).bound? x = none) (ha : (st.scope s).ancestors ≠ []) (hd : σ.Denotes h (.name x) v)
    (hg : σ.Grows p st st₁) :
    σ.Answers p st₁ (do memoize s x generation v; return v) (.name x) room := by
  refine .of_eq ⟨h, hd⟩ rfl ?_
  show σ.Grows p st₁ (if (st₁.scope s).generation = generation then st₁.put s x v .derived else st₁)
  obtain ⟨-, hm⟩ := hg.scope hs
  split
  · exact grows_memoize ⟨h, hd⟩ (hd.procedures hσ) ((hm.bound x).trans hb) (hm.ancestors ▸ ha)
  · exact Grows.of_eq fun _ => rfl

/-- A value in a scope is right if it was memoized. -/
theorem lookupAlong_slot (hσ : σ.Standard) {up : List ScopeId} {slot : Slot}
    (hslot : (st.scope s).slots.get? x = some slot) (hd : ∃ h, σ.Denotes h (.name x) slot.value) :
    σ.Answers p st (lookupAlong ev x (s :: up)) (.name x) room := by
  obtain ⟨h, hv⟩ := hd
  refine .of_eq ⟨h, hv⟩ (?_ : _ = (_, st.record (.cacheHit s x))) (Grows.of_eq fun _ => rfl)
  have hattach : slot.value.attach st.alive = slot.value := Value.mapProcedures_eq_self fun q hq => by
    rw [hv.procedures hσ] at hq
    cases hq
  rw [lookupAlong, get_apply]
  simp only [hslot]
  exact congrArg (fun v => (Except.ok v, st.record (.cacheHit s x))) hattach

/-- The scope above the root answers for what is there from the start. -/
theorem lookup_builtins (hσ : σ.Standard) (hst : σ.Shows p st) (hv : σ.values x = none)
    (hd : σ.definitions x = none) :
    σ.Answers p st (lookupAlong ev x [p.builtins]) (.name x) room := by
  have hslots := hst.builtins_slots x
  cases hs : σ.standard x with
  | some v =>
    rw [hs] at hslots
    exact lookupAlong_slot hσ hslots ⟨1, .standard hv hd hs⟩
  | none =>
    rw [hs] at hslots
    have hrun : lookupAlong ev x [p.builtins] st = (.error (.unresolved x), st) := by
      rw [lookupAlong, get_apply]
      simp only [hslots, hst.builtins_definitions x, Option.map_none]
      rfl
    refine .of_error (fun h v hn => ?_) hrun (Grows.of_eq fun _ => rfl)
    exact absurd hn (Unresolved.not_denotes ⟨hv, hd, hs⟩)

variable {T : Array Tree}
  (hev : ∀ {t s st}, σ.Shows p st → σ.Active p st s → st.trees = T → σ.Answers p st (ev t.expr s) t room)
include hev

/-- A definition of the root answers for its formula. -/
theorem force_answers (hσ : σ.Standard) (hst : σ.Shows p st) (hT : st.trees = T) (x : String) (t : Formula) :
    σ.Answers p st (force ev p.root x t.expr) t room := by
  have hrec : σ.Grows p st (st.record (.forcing p.root x t.expr)) := Grows.of_eq fun _ => rfl
  have hst₁ := hst.grows hrec
  have hchild := hst₁.grows_child
  have hbody : σ.Answers p ((st.record (.forcing p.root x t.expr)).addChild p.root []).2
      (do
        let v ← ev t.expr (st.record (.forcing p.root x t.expr)).scopes.size
        return if ((← get).scope (st.record (.forcing p.root x t.expr)).scopes.size).holdsOnlyDerived then
          v.recapture (st.record (.forcing p.root x t.expr)).scopes.size p.root else v) t room := by
    refine Answers.bind (hev (hst₁.grows hchild) hst₁.active_child hT) (fun hd hle => ⟨_, _, hd, hle⟩)
      fun {h v} hv _ => ?_
    have hrecapture : ∀ a b, v.recapture a b = v := fun a b => Value.mapProcedures_eq_self fun q hq => by
      rw [hv.procedures hσ] at hq
      cases hq
    refine .of_eq ⟨h, hv⟩ ?_ (Grows.of_eq fun _ => rfl)
    rw [get_apply, hrecapture, ite_self]
    rfl
  exact Answers.of_grows hbody (hrec.trans hchild) rfl

/-- The root answers for a name. -/
theorem lookup_root (hσ : σ.Standard) (hst : σ.Shows p st) (hT : st.trees = T) (x : String) :
    σ.Answers p st (lookupAlong ev x [p.root, p.builtins]) (.name x) (room + 1) := by
  cases hslot : (st.scope p.root).slots.get? x with
  | some slot =>
    refine lookupAlong_slot hσ hslot ?_
    rcases slot with ⟨v, kind⟩
    cases kind with
    | derived => exact hst.root_right hslot
    | bound =>
      have hb := (hst.root_bound x).symm.trans (Scope.bound?_eq_some.2 hslot)
      obtain ⟨i, hi, rfl⟩ := Option.map_eq_some_iff.1 hb
      exact ⟨1, .value hi⟩
  | none =>
    have hb : (st.scope p.root).bound? x = none := Scope.bound?_eq_none hslot
    have hup : (st.scope p.root).ancestors ≠ [] := by
      rw [hst.root_ancestors]
      exact List.cons_ne_nil _ _
    have hv : σ.values x = none := Option.map_eq_none_iff.1 ((hst.root_bound x).symm.trans hb)
    cases hdef : σ.definitions x with
    | some t =>
      have hrun : lookupAlong ev x [p.root, p.builtins] st = (force ev p.root x t.expr >>= fun v => do
          memoize p.root x (st.scope p.root).generation v
          return v : Eval Value) st := by
        rw [lookupAlong, get_apply]
        simp only [hslot, hst.root_definitions x, hdef, Option.map_some]
      refine Answers.of_grows ?_ (Grows.of_eq fun _ => rfl : σ.Grows p st st) hrun
      refine Answers.bind (force_answers hev hσ hst hT x t) (fun hd hle => ?_) fun hd hg =>
        memoize_answers hσ hst.root_alive hb hup (.definition hv hdef hd) hg
      obtain ⟨k, rfl, ht⟩ := hd.of_definition hv hdef
      exact ⟨k, _, ht, Nat.le_of_succ_le_succ hle⟩
    | none =>
      have hrun : lookupAlong ev x [p.root, p.builtins] st = (lookupAlong ev x [p.builtins] >>= fun v => do
          memoize p.root x (st.scope p.root).generation v
          return v : Eval Value) st := by
        rw [lookupAlong, get_apply]
        simp only [hslot, hst.root_definitions x, hdef, Option.map_none]
      refine Answers.of_grows ?_ (Grows.of_eq fun _ => rfl : σ.Grows p st st) hrun
      exact Answers.bind (lookup_builtins hσ hst hv hdef) (fun hd hle => ⟨_, _, hd, hle⟩) fun hd hg =>
        memoize_answers hσ hst.root_alive hb hup hd hg

/-- A scope below the root answers for a name. -/
theorem lookup_active (hσ : σ.Standard) (hst : σ.Shows p st) (hs : σ.Active p st s) (hT : st.trees = T)
    (x : String) :
    σ.Answers p st (lookup ev s x) (.name x) (room + 1) := by
  have hrun : lookup ev s x st = lookupAlong ev x [s, p.root, p.builtins] st := by
    rw [lookup, get_apply, Store.chain, hs.below.ancestors]
  refine Answers.of_grows ?_ (Grows.of_eq fun _ => rfl : σ.Grows p st st) hrun
  cases hslot : (st.scope s).slots.get? x with
  | some slot =>
    refine lookupAlong_slot hσ hslot ?_
    rcases slot with ⟨v, kind⟩
    cases kind with
    | derived => exact hs.below.right hslot
    | bound => cases (hs.below.bound x).symm.trans (Scope.bound?_eq_some.2 hslot)
  | none =>
    have hrun : lookupAlong ev x [s, p.root, p.builtins] st = (lookupAlong ev x [p.root, p.builtins] >>= fun v => do
        memoize s x (st.scope s).generation v
        return v : Eval Value) st := by
      rw [lookupAlong, get_apply]
      simp only [hslot, hs.below.definitions x]
    have hup : (st.scope s).ancestors ≠ [] := by
      rw [hs.below.ancestors]
      exact List.cons_ne_nil _ _
    refine Answers.of_grows ?_ (Grows.of_eq fun _ => rfl : σ.Grows p st st) hrun
    exact Answers.bind (lookup_root hev hσ hst hT x) (fun hd hle => ⟨_, _, hd, hle⟩) fun hd hg =>
      memoize_answers hσ hs.alive (hs.below.bound x) hup hd hg

/-- A formula with an operator is answered from its parts. -/
theorem apply_answers (htrees : ∀ e s st, (ev e s st).2.trees = st.trees) (hσ : σ.Standard) (hst : σ.Shows p st)
    (hs : σ.Active p st s) (hT : st.trees = T) (o : Operator) (left right : Formula) :
    σ.Answers p st (evaluateForm ev s (.apply (.symbol o.name) [left.expr, right.expr])) (.apply o left right)
      (room + 1) := by
  have hrun : evaluateForm ev s (.apply (.symbol o.name) [left.expr, right.expr]) =
      (ev (Formula.name o.name).expr s >>= fun f => ev left.expr s >>= fun u => ev right.expr s >>= fun v =>
        callValue ev f [u, v]) := by
    rw [evaluateForm]
    simp only [List.mapM_cons, List.mapM_nil, bind_assoc, pure_bind]
    rfl
  obtain ⟨id, hid⟩ := hσ.operator o
  have hop : ∀ {k}, σ.Denotes (k + 1) (.name o.name) _ := .standard (hσ.values o) (hσ.definitions o) hid
  rw [hrun]
  -- a part of a formula has a smaller height, and one that leaves room for the operator
  refine Answers.bind (hev hst hs hT (t := .name o.name)) (fun hd hle => ?_) fun {_ f} hf hg₁ => ?_
  · cases hd with
    | apply hl _ _ =>
      obtain ⟨k, rfl⟩ := Nat.exists_eq_succ_of_ne_zero (Nat.ne_of_gt hl.pos)
      exact ⟨_, _, hop, Nat.le_of_succ_le_succ hle⟩
  cases hf.unique (hop (k := 0))
  have hT₁ := (htrees (Formula.name o.name).expr s st).trans hT
  have hst₁ := hst.grows hg₁
  have hs₁ := hs.grows hg₁
  refine Answers.bind (hev hst₁ hs₁ hT₁ (t := left)) (fun hd hle => ?_) fun {h₁ u} hu hg₂ => ?_
  · cases hd with
    | apply hl _ _ => exact ⟨_, _, hl, Nat.le_of_succ_le_succ hle⟩
  refine Answers.bind (hev (hst₁.grows hg₂) (hs₁.grows hg₂) ((htrees ..).trans hT₁) (t := right))
    (fun hd hle => ?_)
    fun {h₂ v} hv _ => ?_
  · cases hd with
    | apply _ hr _ => exact ⟨_, _, hr, Nat.le_of_succ_le_succ hle⟩
  cases hw : o.primitive.run [u, v] with
  | ok w =>
    refine .of_eq ⟨max h₁ h₂ + 1, .apply (hu.mono (Nat.le_max_left ..)) (hv.mono (Nat.le_max_right ..)) hw⟩ ?_
      (Grows.of_eq fun _ => rfl)
    show Eval.ofExcept (o.primitive.run [u, v]) _ = _
    rw [hw]
    rfl
  | error e =>
    refine .of_error (e := e) (fun h w hd => ?_) ?_ (Grows.of_eq fun _ => rfl)
    · cases hd with
      | apply hl hr hw' =>
        rw [hl.unique hu, hr.unique hv, hw] at hw'
        cases hw'
    · show Eval.ofExcept (o.primitive.run [u, v]) _ = _
      rw [hw]
      rfl

end

/-! ## Evaluations -/

/-- An evaluation needs room for one more. -/
theorem nested_answers {y : Eval Value} {room : Nat} (hs : σ.Active p st s)
    (hy : 0 < roomAt st.trees p.tree → σ.Answers p (st.setDepth p.tree (· + 1)) y t room)
    (hroom : roomAt st.trees p.tree = 0 → room = 0) : σ.Answers p st (Eval.nested s y) t room := by
  have hlt : (st.treeOf s).depth < (st.treeOf s).maxDepth ↔ 0 < roomAt st.trees p.tree := by
    rw [← hs.below.tree]
    exact Nat.sub_pos_iff_lt.symm
  by_cases hroom' : 0 < roomAt st.trees p.tree
  · obtain ⟨hg, hden, hans⟩ := hy hroom'
    have hrun : Eval.nested s y st = ((y (st.setDepth p.tree (· + 1))).1,
        (y (st.setDepth p.tree (· + 1))).2.setDepth p.tree (· - 1)) := by
      rw [Eval.nested, hs.below.tree]
      exact if_pos (hlt.2 hroom')
    refine ⟨?_, by rw [hrun]; exact hden, by rw [hrun]; exact hans⟩
    rw [hrun]
    exact ⟨hg.old, hg.new⟩
  · have hrun : Eval.nested s y st = (.error (.depthLimit (st.treeOf s).maxDepth), st) := if_neg (mt hlt.1 hroom')
    refine .of_error (fun h v hd => ?_) hrun (Grows.of_eq fun _ => rfl)
    rw [hroom (Nat.eq_zero_of_not_pos hroom')]
    exact hd.pos

/-- **An evaluation below the root answers for its formula**, if the tree admits one evaluation for every level of the
expansion. -/
theorem evaluateWithin_answers (hσ : σ.Standard) : ∀ (depth : Nat) {st : Store} {s : ScopeId} {t : Formula},
    σ.Shows p st → σ.Active p st s →
      σ.Answers p st (evaluateWithin depth t.expr s) t (min depth (roomAt st.trees p.tree))
  | 0, st, s, t, hst, hs => by
    refine .of_error (fun h v hd => ?_) rfl (Grows.of_eq fun _ => rfl)
    rw [Nat.zero_min]
    exact hd.pos
  | depth + 1, st, s, t, hst, hs => by
    refine nested_answers hs (fun hroom => ?_) fun hroom => by rw [hroom, Nat.min_zero]
    -- inside, one more evaluation is in progress
    have hentered : σ.Grows p st (st.setDepth p.tree (· + 1)) := Grows.of_eq fun _ => rfl
    have hst₁ := hst.grows hentered
    have hs₁ := hs.grows hentered
    have hev : ∀ {t s st₁}, σ.Shows p st₁ → σ.Active p st₁ s → st₁.trees = entered st.trees p.tree →
        σ.Answers p st₁ (evaluateWithin depth t.expr s) t (min depth (roomAt st.trees p.tree - 1)) := by
      intro t s st₁ hst hs hT
      have h := evaluateWithin_answers hσ depth (t := t) hst hs
      rwa [hT, roomAt_entered, if_pos rfl] at h
    have hmin : min (depth + 1) (roomAt st.trees p.tree) = min depth (roomAt st.trees p.tree - 1) + 1 := by omega
    rw [hmin]
    cases t with
    | literal i => exact .of_eq ⟨1, .literal i⟩ rfl (Grows.of_eq fun _ => rfl)
    | name x => exact lookup_active hev hσ hst₁ hs₁ rfl x
    | apply o left right =>
      have hform : Form.ofItems [.symbol o.name, left.expr, right.expr] =
          .ok (.apply (.symbol o.name) [left.expr, right.expr]) := by cases o <;> rfl
      have hrun : (do evaluateForm (evaluateWithin depth) s (← Eval.ofExcept
          (Form.ofItems [.symbol o.name, left.expr, right.expr])) : Eval Value) =
            evaluateForm (evaluateWithin depth) s (.apply (.symbol o.name) [left.expr, right.expr]) := by
        rw [hform]
        rfl
      show σ.Answers p _ (do evaluateForm (evaluateWithin depth) s (← Eval.ofExcept
        (Form.ofItems [.symbol o.name, left.expr, right.expr])) : Eval Value) _ _
      rw [hrun]
      exact apply_answers hev (trees_evaluateWithin depth) hσ hst₁ hs₁ rfl o left right

end Sheet
end LazyFormula
