import LazyFormula.Proofs.Lifetimes
import LazyFormula.Proofs.Simulation
/-!
# Roots between evaluations

A root to which nothing but definitions and values was written mirrors a world with nothing remembered
(`Fresh.mirrors`). Whatever was evaluated since then, an update makes it such a root again (`Mirrors.update`), and
scopes that die take nothing with them that the root could look up (`Mirrors.fade`).
-/
namespace LazyFormula
namespace Memoryless

variable {K K' : Book} {L : Fragment} {A : Atlas} {st st' : Store} {w : World} {memo : List String} {room base : Nat}
  {o : Origin} {f : Frame} {s t : ScopeId} {name : String} {v : Value}

/-! ## Scopes that were only written -/

/-- **A scope that nothing was memoized in.** -/
structure Written (ancestors : List ScopeId) (definitions : List (String × Expr)) (values : List (String × Value))
    (c : Scope) : Prop where
  tree : c.tree = 0
  ancestors : c.ancestors = ancestors
  definitions (name : String) : c.definitions.get? name = definitions.lookup name
  slots (name : String) : c.slots.get? name = (values.lookup name).map (⟨·, .bound⟩)

section
variable {up : List ScopeId} {definitions : List (String × Expr)} {values : List (String × Value)} {c : Scope}

theorem Written.bound? (h : Written up definitions values c) (name : String) : c.bound? name = values.lookup name := by
  rw [Scope.bound?, h.slots]
  cases values.lookup name <;> rfl

theorem rename_of_procedures_eq_nil {ρ : Renaming} (h : v.procedures = []) : v.rename ρ = v :=
  Value.mapProcedures_eq_self (by simp [h])

theorem procedures_of_rename_eq_nil {ρ : Renaming} (h : (v.rename ρ).procedures = []) : v.procedures = [] :=
  List.map_eq_nil_iff.1 (Value.procedures_rename v ▸ h)

/-- What is written in it is what is bound in a scope of a world. -/
theorem Written.reflects (h : Written up definitions values c) (hv : ∀ x ∈ values, x.2.procedures = [])
    (hup : f.ancestors = up.map A.scopes.origin) (habove : ∀ u ∈ up, u ∈ A.scopes.ids)
    (hdef : ∀ n, definitions.lookup n = if o = .root then K.definitions.lookup n else none) (hf : f.bound = values) :
    Reflects K w memo A o c f where
  tree := h.tree
  ancestors := h.ancestors ▸ hup
  above := h.ancestors ▸ habove
  definitions n := (h.definitions n).trans (hdef n)
  bound n := by
    rw [h.bound?, hf]
    cases hl : values.lookup n with
    | none => rfl
    | some v => exact congrArg some (rename_of_procedures_eq_nil (hv _ (mem_of_lookup hl))).symm
  has {n slot} hslot p hp := by
    rw [h.slots, Option.map_eq_some_iff] at hslot
    obtain ⟨v, hl, rfl⟩ := hslot
    rw [show v.procedures = [] from hv _ (mem_of_lookup hl)] at hp
    cases hp
  derived hslot := by
    rw [h.slots, Option.map_eq_some_iff] at hslot
    obtain ⟨v, -, hslot⟩ := hslot
    cases hslot

/-- The written values of a scope are those of the scope of the world, if these hold no procedures. -/
theorem Reflects.bound?_eq {c : Scope} (h : Reflects K w memo A o c f) (hv : ∀ x ∈ f.bound, x.2.procedures = [])
    (n : String) :
    c.bound? n = f.bound.lookup n := by
  have hb := h.bound n
  cases hc : c.bound? n with
  | none => rw [hb, hc]; rfl
  | some v =>
    rw [hc] at hb
    have hn := procedures_of_rename_eq_nil (hv _ (mem_of_lookup hb))
    rw [hb, Option.map_some, rename_of_procedures_eq_nil hn]

end

/-- **A root to which nothing but definitions and values was written**, below its builtins. -/
structure Fresh (K : Book) (L : Fragment) (st : Store) : Prop where
  formed : st.Formed L
  trees : st.trees = #[⟨defaultMaxDepth, 0⟩]
  builtins : ∃ c, st.scope? 0 = some c ∧ Written [] [] K.standard c
  root : ∃ c, st.scope? 1 = some c ∧ Written [0] K.definitions K.given c

/-- Where a root and its builtins come from. -/
def home : Atlas :=
  ⟨⟨{s | s = 0 ∨ s = 1}, fun s => if s = 0 then .builtins else .root⟩, ⟨∅, fun _ => .root⟩⟩

/-- **A root that was only written mirrors a world in which nothing is remembered.** -/
theorem Fresh.mirrors (h : Fresh K L st) (hK : K.Plain) : Mirrors K L defaultMaxDepth 0 home st .empty [] where
  formed := h.formed
  trees := h.trees.trans (by rw [Nat.sub_self])
  room_le := Nat.le_refl _
  base_le := Nat.zero_le _
  closed := closed_nil
  scopes := by
    rintro s t (rfl | rfl) (rfl | rfl) he
    · rfl
    · cases he
    · cases he
    · rfl
  lambdas := nofun
  lambda_lt := nofun
  root_mem := .inr rfl
  root := rfl
  remembered := nofun
  settled_scope := by
    rintro s name k (rfl | rfl) ho
    · cases ho
    · cases ho
  settled_lambda := nofun
  own_scope _ _ := Nat.zero_le _
  own_lambda := nofun
  scope := by
    rintro s (rfl | rfl)
    · obtain ⟨c, hc, hw⟩ := h.builtins
      exact ⟨c, _, hc, rfl, hw.reflects hK.standard rfl nofun (fun n => rfl) rfl⟩
    · obtain ⟨c, hc, hw⟩ := h.root
      refine ⟨c, _, hc, rfl, hw.reflects hK.given rfl (fun u hu => ?_) (fun n => rfl) rfl⟩
      exact .inl (List.mem_singleton.1 hu)

/-- Only what can be looked up of the definitions matters. -/
theorem Fresh.congr (h : Fresh K L st) (hg : K'.given = K.given) (hs : K'.standard = K.standard)
    (hd : ∀ n, K'.definitions.lookup n = K.definitions.lookup n) : Fresh K' L st where
  formed := h.formed
  trees := h.trees
  builtins := hs ▸ h.builtins
  root := by
    obtain ⟨c, hc, hw⟩ := h.root
    exact ⟨c, hc, hw.tree, hw.ancestors, fun n => (hw.definitions n).trans (hd n).symm, hg ▸ hw.slots⟩

/-! ## New roots -/

/-- What a new root knows. -/
def blank : Book := ⟨[], [], (Root.standardValues 0).reverse⟩

theorem plain_blank : blank.Plain :=
  ⟨nofun, fun x hx => Store.procedures_standardValues 0 x (List.mem_reverse.1 hx)⟩

/-- A new child of a scope with values is a root where nothing is defined. -/
theorem fresh_addChild (hf : st.Formed L) (htrees : st.trees = #[⟨defaultMaxDepth, 0⟩]) (hsize : st.scopes.size = 1)
    {c : Scope} (hc : st.scope? 0 = some c) {values : List (String × Value)} (hw : Written [] [] values c) :
    Fresh ⟨[], [], values⟩ L (st.addChild 0 []).2 := by
  have hscope := Store.scope?_addChild (Store.alive_of_scope? hc) []
  rw [hsize] at hscope
  have hroot : (st.addChild 0 []).2.scope? 1 = some (st.newborn 0 []) := (hscope 1).trans (if_pos rfl)
  have hbuiltins : (st.addChild 0 []).2.scope? 0 = some (c.listen 1) := by
    rw [hscope, if_neg Nat.zero_ne_one, if_pos rfl, hc, Option.map_some]
  refine ⟨hf.addChild (Store.alive_of_scope? hc) nofun, htrees,
    ⟨_, hbuiltins, hw.tree, hw.ancestors, hw.definitions, hw.slots⟩,
    ⟨_, hroot, ?_, ?_, fun _ => rfl, fun _ => rfl⟩⟩
  · exact (congrArg Scope.tree (Store.scope_of_scope? hc)).trans hw.tree
  · exact (Store.chain_of_scope? hc).trans (by rw [hw.ancestors])

/-- **A new root.** -/
theorem fresh_addRoot (L : Fragment) : Fresh blank L (Store.empty.addRoot defaultMaxDepth).2 := by
  obtain ⟨c, hc, hup, htree, hdef, hslots⟩ := Store.empty.scope?_withBuiltins_size defaultMaxDepth
  exact fresh_addChild (Store.formed_empty.withBuiltins _) (Store.trees_withBuiltins ..) (Store.size_withBuiltins ..) hc
    ⟨htree, hup, hdef, hslots⟩

/-- A book with one more definition. -/
def Book.define (K : Book) (name : String) (e : Expr) : Book := { K with definitions := (name, e) :: K.definitions }

/-- **A definition of a root where nothing was written.** -/
theorem Fresh.define (h : Fresh K L st) (hg : K.given = []) {e : Expr} (he : L.Mem e) (name : String) :
    Fresh (K.define name e) L (st.define 1 name e) := by
  obtain ⟨d, hd, hwd⟩ := h.builtins
  obtain ⟨c, hc, hw⟩ := h.root
  let st₁ := (st.record (.defining 1 name e)).modify 1 (·.putDefinition name e)
  have hrec : (st.record (.defining 1 name e)).Formed L := h.formed.congr rfl fun _ => rfl
  have hscope : ∀ t, st₁.scope? t = if t = 1 then (st.scope? 1).map (·.putDefinition name e) else st.scope? t :=
    Store.scope?_modify (st.record (.defining 1 name e)) 1 _
  have hroot : st₁.scope? 1 = some (c.putDefinition name e) := by rw [hscope, if_pos rfl, hc, Option.map_some]
  have hbuiltins : st₁.scope? 0 = some d := by rw [hscope, if_neg Nat.zero_ne_one, hd]
  have hformed₁ : st₁.Formed L := hrec.putDefinition he 1 name
  refine ⟨h.formed.define he 1 name, (Store.trees_define ..).trans h.trees, ⟨d, ?_, hwd⟩, ?_⟩
  · have hout : 0 ∉ st₁.reach 1 := by
      intro hm
      have := ((hformed₁.mem_reach (Store.alive_of_scope? hroot)).1 hm).2
      rw [Store.chain_of_scope? hbuiltins, hwd.ancestors] at this
      simp at this
    exact (Store.scope?_invalidate_of_not_mem hout _ _).trans hbuiltins
  · obtain ⟨c₁, hc₁, hdrop⟩ :=
      Store.dropped_of_mem_reach (Store.self_mem_reach st₁ 1) hroot .everything [name]
    refine ⟨c₁, hc₁, hdrop.tree.trans hw.tree, hdrop.ancestors.trans hw.ancestors, fun n => ?_, fun n => ?_⟩
    · rw [hdrop.definitions, Scope.putDefinition, Bindings.get?_insert, hw.definitions, Book.define, List.lookup_cons]
      by_cases hn : n = name
      · rw [if_pos hn, beq_iff_eq.2 hn]
      · rw [if_neg hn, beq_false_of_ne hn]
    · rw [hdrop.slots, Book.define, hg]
      rfl

/-! ## Updates -/

/-- A book with more values given. -/
def Book.give (K : Book) (values : List (String × Value)) : Book := { K with given := values.reverse ++ K.given }

theorem Book.Plain.give (hK : K.Plain) {values : List (String × Value)} (hv : ∀ x ∈ values, x.2.procedures = []) :
    (K.give values).Plain where
  given x hx := (List.mem_append.1 hx).elim (fun hx => hv x (List.mem_reverse.1 hx)) (hK.given x)
  standard := hK.standard

/-- The builtins of a mirror were only written. -/
theorem Mirrors.builtins (h : Mirrors K L room base A st w memo) (hK : K.Plain) :
    (∃ c, st.scope? 0 = some c ∧ Written [] [] K.standard c) ∧
    ∃ c, st.scope? 1 = some c ∧ c.ancestors = [0] := by
  obtain ⟨c, f, hc, hf, hr⟩ := h.scope h.root_mem
  rw [h.root] at hf hr
  cases hf
  -- the parent of the root has the only number below that of the root
  obtain ⟨b, hb, hob⟩ := List.map_eq_singleton_iff.1 hr.ancestors.symm
  have hmem : b ∈ A.scopes.ids := hr.above b (hb ▸ List.mem_singleton_self b)
  obtain rfl : b = 0 := Nat.lt_one_iff.1 (h.formed.parented hc hb).1
  obtain ⟨d, g, hd, hg, hrd⟩ := h.scope hmem
  rw [hob] at hg hrd
  cases hg
  have hbound := hrd.bound?_eq hK.standard
  refine ⟨⟨d, hd, hrd.tree, List.map_eq_nil_iff.1 hrd.ancestors.symm, hrd.definitions, fun n => ?_⟩, c, hc, hb⟩
  rw [← hbound]
  cases hslot : d.slots.get? n with
  | none => rw [Scope.bound?_eq_none hslot]; rfl
  | some slot =>
    obtain ⟨v, kind⟩ := slot
    cases kind with
    | bound => rw [Scope.bound?_eq_some.2 hslot]; rfl
    | derived =>
      -- nothing lies above the builtins that could be memoized there
      obtain ⟨g, hg, hcases⟩ := resolve?_cases (hrd.derived hslot)
      cases hg
      rcases hcases with hb | ⟨-, ho, -⟩ | ⟨-, -, hup⟩
      · rw [← hbound, Scope.bound?, hslot] at hb
        cases hb
      · cases ho
      · cases hup

/-- **After an update a root is as if nothing had been evaluated.** -/
theorem Mirrors.update (h : Mirrors K L defaultMaxDepth base A st w memo) (hK : K.Plain)
    {values : List (String × Value)}
    (hv : ∀ x ∈ values, x.2.procedures = []) : Fresh (K.give values) L (st.update 1 values) := by
  obtain ⟨⟨d, hd, hwd⟩, c, hc, hanc⟩ := h.builtins hK
  obtain ⟨c', f, hc', hf, hr⟩ := h.scope h.root_mem
  rw [h.root] at hf hr
  cases hf
  cases hc.symm.trans hc'
  have hscope : ∀ t, (st.update 1 values).scope? t = _ :=
    fun t => Store.scope?_puts 1 t values (st.invalidate 1 .derived _)
  have hsupports : ∀ x ∈ values, st.Supports L x.2 := fun x hx => Store.supports_of_procedures_eq_nil (hv x hx)
  refine ⟨h.formed.update hsupports 1, (Store.trees_update ..).trans (h.trees.trans (by rw [Nat.sub_self])), ?_, ?_⟩
  · refine ⟨d, ?_, hwd⟩
    rw [hscope, if_neg (Nat.zero_ne_one)]
    have hout : 0 ∉ st.reach 1 := by
      intro hm
      have := ((h.formed.mem_reach (Store.alive_of_scope? hc)).1 hm).2
      rw [Store.chain_of_scope? hd, hwd.ancestors] at this
      simp at this
    rw [Store.scope?_invalidate_of_not_mem hout, hd]
  · obtain ⟨c₁, hc₁, hdrop⟩ :=
      Store.dropped_of_mem_reach (Store.self_mem_reach st 1) hc .derived (values.map Prod.fst)
    have hroot := hscope 1
    rw [if_pos rfl, hc₁, Option.map_some] at hroot
    refine ⟨_, hroot, hdrop.tree.trans hr.tree, hdrop.ancestors.trans hanc, fun n => ?_, fun n => ?_⟩
    · exact (congrArg (Bindings.get? · n) hdrop.definitions).trans (hr.definitions n)
    · refine (Bindings.get?_insertAll_map _ (fun v : Value => (⟨v.detach 1, .bound⟩ : Slot)) n values).trans ?_
      rw [hdrop.slots, Scope.get?_clear_derived_eq_bound?, hr.bound?_eq hK.given, Book.give, List.lookup_append]
      cases hl : values.reverse.lookup n with
      | none => rfl
      | some v =>
        have hdetach : v.detach 1 = v :=
          Value.mapProcedures_eq_self (by simp [hv _ (List.mem_reverse.1 (mem_of_lookup hl))])
        rw [Option.map_some, hdetach]
        rfl

/-! ## Scopes that die -/

theorem fresh_sweep (st : Store) (held : List ScopeId) : (st.sweep held).fresh = st.fresh := by
  have hrounds : ∀ (rounds : Nat) (st : Store), (Store.sweepRounds held rounds st).fresh = st.fresh := by
    intro rounds
    induction rounds with
    | zero => exact fun _ => rfl
    | succ rounds ih =>
      intro st
      rw [Store.sweepRounds]
      split
      · rfl
      · exact ih (st.keepHeld held)
  exact hrounds st.liveCount st

/-- A store without some scopes that nothing needs. -/
theorem Mirrors.fade (h : Mirrors K L room base A st w memo) {held : List ScopeId} (hf : Store.Fades held st st')
    (hroot : 1 ∈ held) (htrees : st'.trees = st.trees) (hfresh : st'.fresh = st.fresh) :
    Mirrors K L room base ⟨⟨{s | s ∈ A.scopes.ids ∧ st'.alive s = true}, A.scopes.origin⟩, A.lambdas⟩ st'
      w memo := by
  have hformed := hf.formed h.formed
  have hroot' : st'.alive 1 = true := hf.host hroot (h.alive h.root_mem)
  have hold : ∀ {s c'}, st'.scope? s = some c' → ∃ c l, st.scope? s = some c ∧
      c' = { c with listeners := l } := by
    intro s c' hc'
    obtain ⟨c, l, hc, he, -⟩ := hf.scope hc'
    exact ⟨c, l, hc, he⟩
  exact
    { formed := hformed
      trees := htrees.trans h.trees
      room_le := h.room_le
      base_le := hf.size ▸ h.base_le
      closed := h.closed
      scopes := fun s t hs ht he => h.scopes s t hs.1 ht.1 he
      lambdas := h.lambdas
      lambda_lt := fun hl => hfresh ▸ h.lambda_lt hl
      root_mem := ⟨h.root_mem, hroot'⟩
      root := h.root
      remembered := fun hn => by
        obtain ⟨c', hc'⟩ := Store.alive_iff.1 hroot'
        obtain ⟨c, l, hc, rfl⟩ := hold hc'
        have := h.remembered hn
        rw [Store.scope_of_scope? hc] at this
        rwa [Store.scope_of_scope? hc']
      settled_scope := fun hs ho => h.settled_scope hs.1 ho
      settled_lambda := h.settled_lambda
      own_scope := fun hs ho => h.own_scope hs.1 ho
      own_lambda := h.own_lambda
      scope := by
        rintro s ⟨hs, ha⟩
        obtain ⟨c', hc'⟩ := Store.alive_iff.1 ha
        obtain ⟨c, l, hc, rfl⟩ := hold hc'
        obtain ⟨d, f, hd, hframe, hr⟩ := h.scope hs
        cases hc.symm.trans hd
        refine ⟨_, f, hc', hframe, hr.tree, hr.ancestors, fun u hu => ⟨hr.above u hu, ?_⟩, hr.definitions,
          hr.bound, ?_,
            hr.derived⟩
        · refine (hformed.alive_of_mem_chain ha ?_).1
          rw [Store.chain_of_scope? hc']
          exact List.mem_cons_of_mem _ hu
        · exact fun hslot p hp =>
            ⟨⟨(hr.has hslot p hp).1, (hformed.slots hc' hslot p hp).2.1⟩, (hr.has hslot p hp).2⟩ }

end Memoryless
end LazyFormula
