import LazyFormula.Proofs.Hosts
import LazyFormula.Proofs.SheetAnswers
/-!
# Runs of sheets

A root is made and used as a sheet: its host defines formulas, writes integers, looks up names, evaluates formulas and
lets scopes die, in any order. The store shows the sheet all along, so that every answer is about what was written since
the last definition and what is defined, and about nothing else (`Run.answers`).
-/
namespace LazyFormula
namespace Sheet

open Number (toInt_ofInt_of_fits)

variable {L : Fragment} {σ σ' : Sheet} {p : Place} {st st' : Store} {s : ScopeId} {x : String}

/-! ## Answers of the root -/

theorem Shows.evaluate_answers (hst : σ.Shows p st) (hσ : σ.Standard) (t : Formula) :
    σ.Answers p st (Eval.evaluate t.expr p.root) t (roomAt st.trees p.tree) := by
  have h := evaluateWithin_answers hσ (st.addChild p.root []).2.depthLeft (t := t) (hst.grows hst.grows_child)
    hst.active_child
  rw [Nat.min_eq_right (roomAt_le_depthLeft ..)] at h
  exact h.of_grows hst.grows_child rfl

theorem Shows.lookup_answers (hst : σ.Shows p st) (hσ : σ.Standard) (x : String) :
    σ.Answers p st (Eval.lookup p.root x) (.name x) (roomAt st.trees p.tree + 1) := by
  have hev : ∀ {t s st₁}, σ.Shows p st₁ → σ.Active p st₁ s → st₁.trees = st.trees →
      σ.Answers p st₁ (evaluateWithin st.depthLeft t.expr s) t (roomAt st.trees p.tree) := by
    intro t s st₁ hst₁ hs hT
    have h := evaluateWithin_answers hσ st.depthLeft (t := t) hst₁ hs
    rwa [hT, Nat.min_eq_right (roomAt_le_depthLeft st _)] at h
  have hrun : Eval.lookup p.root x st = lookupAlong (evaluateWithin st.depthLeft) x [p.root, p.builtins] st := by
    rw [Eval.lookup_apply, hst.root_chain]
  exact (lookup_root hev hσ hst rfl x).of_grows (Grows.of_eq fun _ => rfl) hrun

/-! ## Writes -/

/-- A scope below the root drops all it has. -/
theorem Below.dropped {reach : Reach} {c c' : Scope} (h : σ.Below p c) (hd : c.Dropped reach c') : σ'.Below p c' := by
  have hslots : ∀ x, c'.slots.get? x = none := by
    intro x
    rw [hd.slots]
    cases reach with
    | everything => rfl
    | derived =>
      rw [Scope.get?_clear_derived, Option.filter_eq_none_iff]
      rintro ⟨v, kind⟩ hslot
      cases kind with
      | derived => exact nofun
      | bound => cases (h.bound x).symm.trans (Scope.bound?_eq_some.2 hslot)
  refine ⟨hd.tree.trans h.tree, hd.ancestors.trans h.ancestors, fun x => hd.definitions ▸ h.definitions x, ?_, ?_⟩
  · intro x
    rw [Scope.bound?, hslots]
    rfl
  · intro x v hx
    rw [hslots] at hx
    cases hx

theorem Shows.root_ne_builtins (h : σ.Shows p st) : p.root ≠ p.builtins := by
  intro he
  have hr := h.root_ancestors
  rw [he, h.builtins_ancestors] at hr
  cases hr

/-- After a write at the root, the scopes below it have nothing. -/
theorem Shows.written {c : Scope} (h : σ.Shows p st) (reach : Reach) (hstandard : σ'.standard = σ.standard)
    (hb : st'.scope? p.builtins = st.scope? p.builtins)
    (hd : ∀ {t c'}, t ≠ p.root → st'.scope? t = some c' →
      ∃ c, st.scope? t = some c ∧ c'.ancestors = c.ancestors ∧ (p.root ∈ c.ancestors → c.Dropped reach c'))
    (hc : st'.scope? p.root = some c) (htree : c.tree = p.tree) (hup : c.ancestors = [p.builtins])
    (hdef : ∀ x, c.definitions.get? x = (σ'.definitions x).map Formula.expr)
    (hslots : ∀ x, c.slots.get? x = (σ'.values x).map fun i => ⟨.int i, .bound⟩) : σ'.Shows p st' := by
  have hbs : st'.scope p.builtins = st.scope p.builtins := by rw [Store.scope, hb, ← Store.scope]
  have hcs := Store.scope_of_scope? hc
  refine
    { builtins_alive := by rw [Store.alive, hb]; exact h.builtins_alive
      builtins_ancestors := by rw [hbs]; exact h.builtins_ancestors
      builtins_definitions := by rw [hbs]; exact h.builtins_definitions
      builtins_slots := by rw [hbs, hstandard]; exact h.builtins_slots
      root_alive := Store.alive_of_scope? hc
      root_tree := by rw [hcs]; exact htree
      root_ancestors := by rw [hcs]; exact hup
      root_definitions := by rw [hcs]; exact hdef
      root_bound := ?_
      root_right := ?_
      active := ?_ }
  · intro x
    rw [hcs, Scope.bound?, hslots]
    cases σ'.values x <;> rfl
  · intro x v hx
    rw [hcs, hslots] at hx
    obtain ⟨i, -, hi⟩ := Option.map_eq_some_iff.1 hx
    cases hi
  · intro t ht hroot
    have hne : t ≠ p.root := by
      rintro rfl
      rw [hcs, hup, List.mem_singleton] at hroot
      exact h.root_ne_builtins hroot
    have hc' := Store.scope?_eq_of_alive ht
    obtain ⟨d, hdt, hanc, hdrop⟩ := hd hne hc'
    rw [hanc] at hroot
    have hactive := h.active (Store.alive_of_scope? hdt) (by rw [Store.scope_of_scope? hdt]; exact hroot)
    rw [← Store.scope_of_scope? hdt] at hdrop hroot
    exact ⟨ht, hactive.below.dropped (hdrop hroot)⟩

theorem Shows.not_mem_chain_builtins (h : σ.Shows p st) : p.root ∉ st.chain p.builtins := by
  rw [Store.chain, h.builtins_ancestors, List.mem_singleton]
  exact h.root_ne_builtins

/-- The scope above the root is out of reach. -/
theorem Shows.builtins_invalidate (h : σ.Shows p st) (hf : st.Formed L) (reach : Reach) (written : List String) :
    (st.invalidate p.root reach written).scope? p.builtins = st.scope? p.builtins := by
  obtain ⟨c', hc'⟩ := Store.alive_iff.1 ((Store.alive_invalidate st p.root reach written _).trans h.builtins_alive)
  obtain ⟨c, hc, -, -, hout⟩ := hf.scope?_of_invalidate h.root_alive hc'
  rw [hc', hc, hout h.not_mem_chain_builtins]

/-- **Values are written.** -/
theorem Shows.update (h : σ.Shows p st) (hf : st.Formed L) (values : List (String × Int64)) :
    (σ.write values).Shows p (st.update p.root (values.map fun (x, i) => (x, .int i))) := by
  have hscope : ∀ t, (st.update p.root (values.map fun (x, i) => (x, .int i))).scope? t = _ := fun t =>
    Store.scope?_puts p.root t _ (st.invalidate p.root .derived _)
  obtain ⟨c', hc'⟩ := Store.alive_iff.1 ((Store.alive_invalidate st p.root .derived
    ((values.map fun (x, i) => (x, Value.int i)).map Prod.fst) _).trans h.root_alive)
  obtain ⟨c, hc, -, hdrop, -⟩ := hf.scope?_of_invalidate h.root_alive hc'
  have hcs := Store.scope_of_scope? hc
  obtain ⟨hup, hdef, -, htree, -, hslots⟩ := hdrop List.mem_cons_self
  rw [← hcs] at hup hdef htree hslots
  have hroot := hscope p.root
  rw [if_pos rfl, hc', Option.map_some] at hroot
  refine h.written .derived rfl ?_ ?_ hroot (htree.trans h.root_tree) (hup.trans h.root_ancestors)
    (fun x => ?_) fun x => ?_
  · rw [hscope, if_neg h.root_ne_builtins.symm]
    exact h.builtins_invalidate hf _ _
  · intro t d' hne hd'
    rw [hscope, if_neg hne] at hd'
    obtain ⟨d, hd, hanc, hdrop, -⟩ := hf.scope?_of_invalidate h.root_alive hd'
    refine ⟨d, hd, hanc, fun hroot => hdrop ?_⟩
    rw [Store.chain_of_scope? hd]
    exact List.mem_cons_of_mem _ hroot
  · exact hdef ▸ h.root_definitions x
  · show (c'.slots.insertAll _).get? x = _
    rw [List.map_map]
    refine (Bindings.get?_insertAll_map _ (fun i => (⟨.int i, .bound⟩ : Slot)) x values).trans ?_
    rw [hslots, Scope.get?_clear_derived_eq_bound?, h.root_bound, Option.map_map]
    exact Option.map_or.symm

/-- **A formula is defined.** -/
theorem Shows.define (h : σ.Shows p st) (hf : st.Formed L) (x : String) (t : Formula) (ht : L.Mem t.expr) :
    (σ.define x t).Shows p (st.define p.root x t.expr) := by
  -- the store with the definition, before values are dropped
  let st₁ := (st.record (.defining p.root x t.expr)).modify p.root (·.putDefinition x t.expr)
  have hrec : (st.record (.defining p.root x t.expr)).Formed L := hf.congr rfl fun _ => rfl
  have hf₁ : st₁.Formed L := hrec.putDefinition ht p.root x
  have hscope : ∀ {u}, u ≠ p.root → st₁.scope? u = st.scope? u := fun hne =>
    (Store.scope?_modify _ p.root _ _).trans (if_neg hne)
  have hroot : st₁.scope? p.root = some ((st.scope p.root).putDefinition x t.expr) := by
    refine (Store.scope?_modify _ p.root _ _).trans ((if_pos rfl).trans ?_)
    rw [Store.scope?_record, Store.scope?_eq_of_alive h.root_alive, Option.map_some]
  have ha₁ := Store.alive_of_scope? hroot
  have hchain : p.root ∉ st₁.chain p.builtins := by
    rw [Store.chain, Store.scope, hscope h.root_ne_builtins.symm]
    exact h.not_mem_chain_builtins
  obtain ⟨c', hc'⟩ := Store.alive_iff.1 ((Store.alive_define st p.root p.root x t.expr).trans h.root_alive)
  obtain ⟨c, hc, -, hdrop, -⟩ := hf₁.scope?_of_invalidate ha₁ hc'
  cases hroot.symm.trans hc
  obtain ⟨hup, hdef, -, htree, -, hslots⟩ := hdrop List.mem_cons_self
  refine h.written .everything rfl ?_ ?_ hc' (htree.trans h.root_tree) (hup.trans h.root_ancestors)
    (fun y => ?_) fun y => hslots y
  · obtain ⟨d', hd'⟩ :=
      Store.alive_iff.1 ((Store.alive_define st p.root p.builtins x t.expr).trans h.builtins_alive)
    obtain ⟨d, hd, -, -, hout⟩ := hf₁.scope?_of_invalidate ha₁ hd'
    rw [hd', hout hchain, ← hd, hscope h.root_ne_builtins.symm]
  · intro u d' hne hd'
    obtain ⟨d, hd, hanc, hdrop, -⟩ := hf₁.scope?_of_invalidate ha₁ hd'
    refine ⟨d, (hscope hne).symm.trans hd, hanc, fun hu => hdrop ?_⟩
    rw [Store.chain_of_scope? hd]
    exact List.mem_cons_of_mem _ hu
  · rw [hdef, Scope.putDefinition, Bindings.get?_insert, h.root_definitions]
    show _ = (if y = x then some t else σ.definitions y).map Formula.expr
    split <;> rfl

/-! ## The start and the end of scopes -/

/-- What a new root shows. -/
def initial (first : Nat) : Sheet where
  values _ := none
  definitions _ := none
  standard x := (Root.standardValues first).reverse.lookup x

theorem standard_initial (first : Nat) : (initial first).Standard where
  values _ := rfl
  definitions _ := rfl
  operator o := by cases o <;> exact ⟨_, rfl⟩
  procedures := Store.procedures_standardValue

/-- A new child of a scope that has nothing but what is there from the start. -/
theorem shows_addChild {b : ScopeId} {c : Scope} {first : Nat} (hf : st.Formed L) (hc : st.scope? b = some c)
    (hup : c.ancestors = []) (hdef : ∀ x, c.definitions.get? x = none)
    (hslots : ∀ x, c.slots.get? x = ((initial first).standard x).map (⟨·, .bound⟩)) :
    (initial first).Shows ⟨st.scopes.size, b, c.tree⟩ (st.addChild b []).2 := by
  have hb := Store.alive_of_scope? hc
  have hlt := Store.lt_size_of_alive hb
  have hscope := Store.scope?_addChild hb []
  have hroot : (st.addChild b []).2.scope? st.scopes.size = some (st.newborn b []) := (hscope _).trans (if_pos rfl)
  have hbuiltins : (st.addChild b []).2.scope? b = some (c.listen st.scopes.size) := by
    rw [hscope, if_neg (Nat.ne_of_lt hlt), if_pos rfl, hc, Option.map_some]
  have hchain : st.chain b = [b] := by rw [Store.chain_of_scope? hc, hup]
  have hbscope := Store.scope_of_scope? hbuiltins
  have hrscope := Store.scope_of_scope? hroot
  refine
    { builtins_alive := Store.alive_of_scope? hbuiltins
      builtins_ancestors := by rw [hbscope]; exact hup
      builtins_definitions := by rw [hbscope]; exact hdef
      builtins_slots := by rw [hbscope]; exact hslots
      root_alive := Store.alive_of_scope? hroot
      root_tree := by rw [hrscope, Store.newborn, Store.scope_of_scope? hc]
      root_ancestors := by rw [hrscope]; exact hchain
      root_definitions := by rw [hrscope]; exact fun _ => rfl
      root_bound := by rw [hrscope]; exact fun _ => rfl
      root_right := by rw [hrscope]; exact fun hx => by cases hx
      active := ?_ }
  -- no scope is below the new root
  intro s hs hmem
  obtain ⟨d, hd⟩ := Store.alive_iff.1 hs
  rw [Store.scope_of_scope? hd] at hmem
  rw [hscope] at hd
  split at hd
  · cases hd
    rw [Store.newborn, hchain, List.mem_singleton] at hmem
    exact absurd hmem.symm (Nat.ne_of_lt hlt)
  split at hd
  · rw [hc] at hd
    cases hd
    rw [Scope.listen_ancestors, hup] at hmem
    cases hmem
  · have hmem' : st.scopes.size ∈ st.chain s := by
      rw [Store.chain_of_scope? hd]
      exact List.mem_cons_of_mem _ hmem
    have ha := (hf.alive_of_mem_chain (Store.alive_of_scope? hd) hmem').1
    exact absurd (Store.lt_size_of_alive ha) (Nat.lt_irrefl _)

/-- Where a new root is. -/
def newPlace (st : Store) (m : Nat) : Place := ⟨(st.addRoot m).1, st.scopes.size, st.trees.size⟩

theorem root_newPlace (st : Store) (m : Nat) : (newPlace st m).root = (st.addRoot m).1 := by rw [newPlace]

theorem shows_addRoot (hf : st.Formed L) (m : Nat) : (initial st.fresh).Shows (newPlace st m) (st.addRoot m).2 := by
  obtain ⟨c, hc, hup, htree, hdef, hslots⟩ := st.scope?_withBuiltins_size m
  have h := shows_addChild (hf.withBuiltins m) hc hup hdef hslots
  rw [htree] at h
  rw [newPlace, Store.addRoot_eq, Store.addChild_fst]
  exact h

theorem roomAt_addRoot (st : Store) (m : Nat) : roomAt (st.addRoot m).2.trees (newPlace st m).tree = m := by
  rw [Store.addRoot_eq, Store.trees_addChild, Store.trees_withBuiltins, roomAt, newPlace, Array.getElem?_push,
    if_pos rfl]
  exact Nat.sub_zero m

/-- **Scopes die**, but not the root. -/
theorem Shows.sweep (h : σ.Shows p st) (hf : st.Formed L) {held : List ScopeId} (hroot : p.root ∈ held) :
    σ.Shows p (st.sweep held) := by
  have hra := Store.alive_sweep hroot h.root_alive
  have hscope : ∀ {s}, (st.sweep held).alive s = true → ∃ l, st.alive s = true ∧
      (st.sweep held).scope s = { st.scope s with listeners := l } := by
    intro s hs
    obtain ⟨c', hc'⟩ := Store.alive_iff.1 hs
    obtain ⟨c, l, hc, rfl⟩ := Store.scope?_sweep hc'
    refine ⟨l, Store.alive_of_scope? hc, ?_⟩
    rw [Store.scope_of_scope? hc', Store.scope_of_scope? hc]
  obtain ⟨l, -, hr⟩ := hscope hra
  have hba : (st.sweep held).alive p.builtins = true := by
    refine ((hf.sweep held).alive_of_mem_chain hra ?_).1
    rw [Store.chain, hr, h.root_ancestors]
    exact List.mem_cons_of_mem _ (List.mem_singleton_self _)
  obtain ⟨l', -, hb⟩ := hscope hba
  refine
    { builtins_alive := hba
      builtins_ancestors := by rw [hb]; exact h.builtins_ancestors
      builtins_definitions := by rw [hb]; exact h.builtins_definitions
      builtins_slots := by rw [hb]; exact h.builtins_slots
      root_alive := hra
      root_tree := by rw [hr]; exact h.root_tree
      root_ancestors := by rw [hr]; exact h.root_ancestors
      root_definitions := by rw [hr]; exact h.root_definitions
      root_bound := by rw [hr]; exact h.root_bound
      root_right := by rw [hr]; exact h.root_right
      active := ?_ }
  intro s hs hmem
  obtain ⟨l, ha, hsc⟩ := hscope hs
  rw [hsc] at hmem
  obtain ⟨-, htree, hup, hdef, hbound, hright⟩ := h.active ha hmem
  refine ⟨hs, ?_⟩
  rw [hsc]
  exact ⟨htree, hup, hdef, hbound, hright⟩

/-! ## Runs -/

/-- A name that may be written or defined: the operators keep their meaning. -/
def Free (x : String) : Prop := ∀ o : Operator, x ≠ o.name

/-- **A sheet in use**: the root, the store and the sheet after a host that did anything before made a root with some
bound on nesting, and then took some steps on it. -/
inductive Run (m : Nat) : ScopeId → Store → Sheet → Prop
  | start {h : Host} (hr : h.Reachable .full) :
      Run m (h.store.addRoot m).1 (h.store.addRoot m).2 (initial h.store.fresh)
  | define {r : ScopeId} {st : Store} {σ : Sheet} {x : String} (hrun : Run m r st σ) (hx : Free x) (t : Formula) :
      Run m r (st.define r x t.expr) (σ.define x t)
  | write {r : ScopeId} {st : Store} {σ : Sheet} {values : List (String × Int64)} (hrun : Run m r st σ)
      (hx : ∀ y ∈ values, Free y.1) :
      Run m r (st.update r (values.map fun (x, i) => (x, .int i))) (σ.write values)
  | lookup {r : ScopeId} {st : Store} {σ : Sheet} (hrun : Run m r st σ) (x : String) :
      Run m r (Eval.lookup r x st).2 σ
  | evaluate {r : ScopeId} {st : Store} {σ : Sheet} (hrun : Run m r st σ) (t : Formula) :
      Run m r (Eval.evaluate t.expr r st).2 σ
  /-- The scopes that nothing keeps alive die. -/
  | sweep {r : ScopeId} {st : Store} {σ : Sheet} {held : List ScopeId} (hrun : Run m r st σ) (hr : r ∈ held) :
      Run m r (st.sweep held) σ

/-- One value is added. -/
theorem Run.add {m : Nat} {r : ScopeId} (hrun : Run m r st σ) (hx : Free x) (i : Int64) :
    Run m r (st.add r x (.int i)) (σ.write [(x, i)]) :=
  @Run.write m r st σ [(x, i)] hrun fun y hy => by rw [List.mem_singleton.1 hy]; exact hx

/-- What holds all along. -/
structure Backed (σ : Sheet) (m : Nat) (p : Place) (st : Store) : Prop where
  formed : st.Formed .full
  shows : σ.Shows p st
  standard : σ.Standard
  room : roomAt st.trees p.tree = m

theorem Run.backed {m : Nat} {r : ScopeId} (hrun : Run m r st σ) : ∃ p : Place, p.root = r ∧ σ.Backed m p st := by
  induction hrun with
  | @start h hr =>
    have hf := hr.formed.store
    exact ⟨newPlace h.store m, root_newPlace h.store m, hf.addRoot m, shows_addRoot hf m, standard_initial _,
      roomAt_addRoot h.store m⟩
  | define _ hx t ih =>
    obtain ⟨p, rfl, hf, hst, hσ, hroom⟩ := ih
    refine ⟨p, rfl, hf.define trivial _ _, hst.define hf _ t trivial, hσ.define hx t, ?_⟩
    rw [Store.define, Store.trees_invalidate]
    exact hroom
  | write _ hx ih =>
    obtain ⟨p, rfl, hf, hst, hσ, hroom⟩ := ih
    refine ⟨p, rfl, hf.update (fun y hy => ?_) _, hst.update hf _, hσ.write hx, ?_⟩
    · obtain ⟨z, -, rfl⟩ := List.mem_map.1 hy
      exact Store.supports_of_procedures_eq_nil rfl
    · rw [Store.trees_update]
      exact hroom
  | @lookup _ st _ _ x ih =>
    obtain ⟨p, rfl, hf, hst, hσ, hroom⟩ := ih
    have hready : st.Ready .full fun _ => True := ⟨hf, fun _ => trivial⟩
    refine ⟨p, rfl, (Eval.lookup_yields hready hst.root_alive x).1.formed hf,
      hst.grows (hst.lookup_answers hσ x).grows, hσ, ?_⟩
    rw [Eval.trees_lookup]
    exact hroom
  | @evaluate _ st _ _ t ih =>
    obtain ⟨p, rfl, hf, hst, hσ, hroom⟩ := ih
    have hready : st.Ready .full fun _ => True := ⟨hf, fun _ => trivial⟩
    refine ⟨p, rfl, (Eval.evaluate_yields hready trivial hst.root_alive).1.formed hf,
      hst.grows (hst.evaluate_answers hσ t).grows, hσ, ?_⟩
    have htrees : (Eval.evaluate t.expr p.root st).2.trees = st.trees := trees_evaluateWithin ..
    rw [htrees]
    exact hroom
  | sweep _ hr ih =>
    obtain ⟨p, rfl, hf, hst, hσ, hroom⟩ := ih
    exact ⟨p, rfl, hf.sweep _, hst.sweep hf hr, hσ, by rw [Store.trees_sweep]; exact hroom⟩

/-- A formula is answered by an error if its expansion comes to a name that is missing or circular. -/
theorem Answers.error {y : Eval Value} {t : Formula} {room : Nat} (hy : σ.Answers p st y t room) (hn : σ.Needs t x)
    (hx : σ.Unresolved x ∨ σ.Circular x) : ∃ e, (y st).1 = .error e := by
  cases hr : (y st).1 with
  | error e => exact ⟨e, rfl⟩
  | ok v =>
    obtain ⟨h, hv⟩ := hy.denotes hr
    exact absurd hv (not_denotes_of_needs hn hx)

/-- A formula is answered by its exact value if there is room for its expansion. -/
theorem Answers.exact {y : Eval Value} {t : Formula} {room : Nat} (hy : σ.Answers p st y t room) {z : Int}
    (hz : σ.Exact room t z) : ∃ i : Int64, i.toInt = z ∧ (y st).1 = .ok (.int i) :=
  ⟨.ofInt z, toInt_ofInt_of_fits hz.fits, hy.answer hz.denotes (Nat.le_refl _)⟩

/-- A circular name has no value at the root or below it. -/
theorem Shows.not_memoized (h : σ.Shows p st) (hx : σ.Circular x) (hs : p.root ∈ st.chain s) :
    (st.scope s).slots.get? x = none := by
  by_cases ha : st.alive s = true
  · obtain ⟨hb, hr⟩ : (st.scope s).bound? x = none ∧ σ.Right (st.scope s) := by
      rcases List.mem_cons.1 hs with rfl | hs
      · exact ⟨by rw [h.root_bound, hx.1]; rfl, h.root_right⟩
      · exact ⟨(h.active ha hs).below.bound x, (h.active ha hs).below.right⟩
    cases hslot : (st.scope s).slots.get? x with
    | none => rfl
    | some slot =>
      rcases slot with ⟨v, kind⟩
      cases kind with
      | bound => cases hb.symm.trans (Scope.bound?_eq_some.2 hslot)
      | derived =>
        obtain ⟨k, hv⟩ := hr hslot
        exact absurd hv hx.not_denotes
  · have hnone : st.scope? s = none := by simpa [Store.alive] using ha
    rw [Store.scope, hnone]
    rfl

/-- **A root answers as the sheet that it is used as.** Whatever was read or memoized before, a value that is answered
is the one that the formula denotes; a formula whose expansion fits within the bound on nesting, and whose values all
fit, is answered by its exact value; one that needs a name that is missing or that depends on itself is answered by an
error; and a name that depends on itself is never memoized. A look-up follows a definition without a level of its
own. -/
theorem Run.answers {m : Nat} {r : ScopeId} (hrun : Run m r st σ) :
    (∀ t,
      (∀ v, (Eval.evaluate t.expr r st).1 = .ok v → ∃ h, σ.Denotes h t v) ∧
      (∀ z, σ.Exact m t z → ∃ i : Int64, i.toInt = z ∧ (Eval.evaluate t.expr r st).1 = .ok (.int i)) ∧
      ∀ x, σ.Needs t x → σ.Unresolved x ∨ σ.Circular x → ∃ e, (Eval.evaluate t.expr r st).1 = .error e) ∧
    (∀ x,
      (∀ v, (Eval.lookup r x st).1 = .ok v → ∃ h, σ.Denotes h (.name x) v) ∧
      (∀ z, σ.Exact (m + 1) (.name x) z → ∃ i : Int64, i.toInt = z ∧ (Eval.lookup r x st).1 = .ok (.int i)) ∧
      ∀ y, σ.Needs (.name x) y → σ.Unresolved y ∨ σ.Circular y →
        ∃ e, (Eval.lookup r x st).1 = .error e) ∧
    ∀ x s, σ.Circular x → r ∈ st.chain s → (st.scope s).slots.get? x = none := by
  obtain ⟨p, rfl, -, hst, hσ, rfl⟩ := hrun.backed
  refine ⟨fun t => ?_, fun x => ?_, fun x s hx hs => hst.not_memoized hx hs⟩
  · have ha := hst.evaluate_answers hσ t
    exact ⟨fun v hv => ha.denotes hv, fun z hz => ha.exact hz, fun x hn hx => ha.error hn hx⟩
  · have ha := hst.lookup_answers hσ x
    exact ⟨fun v hv => ha.denotes hv, fun z hz => ha.exact hz, fun y hn hy => ha.error hn hy⟩

/-- A parameter is written anew after a formula that reads it was evaluated. -/
theorem answers_of_parameter :
    let h : Host := ⟨.empty, [], []⟩
    let r := (h.store.addRoot 5).1
    let start := (h.store.addRoot 5).2
    let sum := Formula.apply .plus (.name "b") (.literal 1)
    let before := (start.define r "a" sum.expr).add r "b" (.int 1)
    let st := (Eval.evaluate (Formula.name "a").expr r before).2.add r "b" (.int 2)
    ∃ i : Int64, i.toInt = 3 ∧ (Eval.evaluate (Formula.name "a").expr r st).1 = .ok (.int i) := by
  intro h r start sum before st
  have ha : Free "a" := by intro o; cases o <;> decide
  have hb : Free "b" := by intro o; cases o <;> decide
  have hstart : Run 5 r start (initial h.store.fresh) := Run.start .init
  clear_value r start
  have hbefore : Run 5 r before (((initial h.store.fresh).define "a" sum).write [("b", 1)]) :=
    (hstart.define ha sum).add hb 1
  have hrun : Run 5 r st ((((initial h.store.fresh).define "a" sum).write [("b", 1)]).write [("b", 2)]) :=
    (hbefore.evaluate (.name "a")).add hb 2
  have hfits : Number.Fits (Operator.plus.exact (Int64.toInt 2) (Int64.toInt 1)) := by decide
  have hexact : ((((initial h.store.fresh).define "a" sum).write [("b", 1)]).write [("b", 2)]).Exact 5 (.name "a") 3 :=
    .definition rfl rfl (.apply (.value rfl) (.literal 1) hfits)
  exact (hrun.answers.1 (.name "a")).2.1 3 hexact

end Sheet
end LazyFormula
