import LazyFormula.Proofs.Mirror
/-!
# Mirrored changes

Each change that an evaluation makes in a store keeps the store a mirror, with the same change made in the world: new
lambdas and scopes, values that are bound and values that are memoized.
-/
namespace LazyFormula

/-! ## Values in scopes of a store -/

namespace Store

variable {L : Fragment} {st : Store} {s t : ScopeId}

theorem fresh_foldl_modify {α : Type} (g : α → ScopeId × (Scope → Scope)) : ∀ (l : List α) (st : Store),
    (l.foldl (fun st a => st.modify (g a).1 (g a).2) st).fresh = st.fresh
  | [], _ => rfl
  | a :: l, st => fresh_foldl_modify g l (st.modify (g a).1 (g a).2)

@[simp] theorem fresh_update (st : Store) (s : ScopeId) (values : List (String × Value)) :
    (st.update s values).fresh = st.fresh :=
  (fresh_foldl_modify (fun x : String × Value => (s, Scope.put x.1 ⟨x.2.detach s, .bound⟩)) values _).trans
    (fresh_foldl_modify (fun t => (t, Scope.clear .derived)) _ st)

/-- What becomes of a scope when a value is bound. -/
theorem Formed.scope?_add (h : st.Formed L) (hs : st.alive s = true) {c : Scope} (hc : st.scope? t = some c)
    (name : String) (v : Value) : (s ∉ st.chain t ∧ (st.add s name v).scope? t = some c) ∨
      (s ∈ st.chain t ∧ t ≠ s ∧ ∃ c', (st.add s name v).scope? t = some c' ∧ c.Dropped .derived c') ∨
      (t = s ∧ ∃ c', (st.add s name v).scope? t = some (c'.put name ⟨v.detach s, .bound⟩) ∧
        c.Dropped .derived c') := by
  have hput := scope?_put (st.invalidate s .derived [name]) s name v .bound t
  obtain ⟨c', hc'⟩ := alive_iff.1 ((alive_invalidate st s .derived [name] t).trans (alive_of_scope? hc))
  obtain ⟨c₀, hc₀, -, hbelow, helse⟩ := h.scope?_of_invalidate hs hc'
  cases hc.symm.trans hc₀
  by_cases ht : t = s
  · subst ht
    rw [if_pos rfl, hc'] at hput
    exact .inr (.inr ⟨rfl, c', hput, hbelow List.mem_cons_self⟩)
  · rw [if_neg ht, hc'] at hput
    by_cases hm : s ∈ st.chain t
    · exact .inr (.inl ⟨hm, ht, c', hput, hbelow hm⟩)
    · exact .inl ⟨hm, helse hm ▸ hput⟩

end Store

namespace Memoryless

/-- **What an evaluation leaves of an atlas and a store**: new names go to new numbers, and scopes that are neither
named nor new are as they were. -/
structure Advances (base : Nat) (A : Atlas) (st : Store) (A' : Atlas) (st' : Store) : Prop where
  scopes : A.scopes.Extends st.scopes.size A'.scopes
  lambdas : A.lambdas.Extends st.fresh A'.lambdas
  size : st.scopes.size ≤ st'.scopes.size
  fresh : st.fresh ≤ st'.fresh
  apart {t : ScopeId} : t < base → t ∉ A.scopes.ids → st'.scope? t = st.scope? t
  /-- Nothing was dropped at the root. -/
  steady : (st'.scope 1).generation = (st.scope 1).generation

variable {K : Book} {L : Fragment} {A A₁ A' : Atlas} {st st₁ st' : Store} {w w' : World} {memo : List String}
  {room base : Nat} {name : String} {v a : Value} {o : Origin} {os : List Origin} {f : Frame} {s t : ScopeId} {k : Nat}

namespace Advances

theorem refl (base : Nat) (A : Atlas) (st : Store) : Advances base A st A st :=
  ⟨.refl _ _, .refl _ _, Nat.le_refl _, Nat.le_refl _, fun _ _ => rfl, rfl⟩

theorem le (h : Advances base A st A' st') : A.Le A' := ⟨h.scopes.toLe, h.lambdas.toLe⟩

theorem trans (h : Advances base A st A₁ st₁) (h' : Advances base A₁ st₁ A' st')
    (hb : base ≤ st.scopes.size) :
    Advances base A st A' st' where
  scopes := h.scopes.trans h'.scopes h.size
  lambdas := h.lambdas.trans h'.lambdas h.fresh
  size := Nat.le_trans h.size h'.size
  fresh := Nat.le_trans h.fresh h'.fresh
  apart {t} ht hn := by
    refine (h'.apart ht fun hm => ?_).trans (h.apart ht hn)
    exact (h.scopes.fresh hm).elim hn (Nat.not_le.2 (Nat.lt_of_lt_of_le ht hb))
  steady := h'.steady.trans h.steady

/-- Only things that are not named change. -/
theorem of_scope? (hsize : st'.scopes.size = st.scopes.size) (hscope : ∀ t, st'.scope? t = st.scope? t)
    (hfresh : st'.fresh = st.fresh) : Advances base A st A st' where
  scopes := .refl _ _
  lambdas := .refl _ _
  size := Nat.le_of_eq hsize.symm
  fresh := Nat.le_of_eq hfresh.symm
  apart _ _ := hscope _
  steady := by rw [Store.scope, hscope, ← Store.scope]

theorem memoize (hs : s ∈ A.scopes.ids) (name : String) (v : Value) :
    Advances base A st A (st.put s name v .derived) where
  scopes := .refl _ _
  lambdas := .refl _ _
  size := Nat.le_of_eq (Store.size_modify ..).symm
  fresh := Nat.le_refl _
  apart {t} _ hn := by rw [Store.scope?_put, if_neg fun he : t = s => hn (he ▸ hs)]
  steady := Store.generation_put ..

end Advances

/-! ## Scopes of a world -/

theorem frame?_push {T : Table} (hf : frame? K T w o = some f) (f' : Frame) : frame? K T (w.push f').2 o = some f := by
  cases o with
  | own k => exact (List.getElem?_append_left (List.getElem?_eq_some_iff.1 hf).1).trans hf
  | builtins | root | settled name k => exact hf

theorem frame?_bind {T : Table} (name : String) (v : Value) (k : Nat) (o : Origin) :
    frame? K T (w.bind name v (.own k)) o =
      if o = .own k then (frame? K T w o).map (.bind name v) else frame? K T w o := by
  cases o with
  | own k' =>
    rw [frame?, frame?, World.bind, List.getElem?_modify]
    by_cases hk : k = k'
    · simp [hk]
    · simp [hk, Ne.symm hk]
  | builtins | root | settled name' k' => exact (if_neg (by simp)).symm

/-- What is bound in a scope does not show from scopes beside it. -/
theorem resolve?_bind {n : String} (hos : .own k ∉ os) :
    resolve? K (w.bind name v (.own k)) memo n os = resolve? K w memo n os := by
  induction os with
  | nil => rfl
  | cons o os ih =>
    rw [resolve?, resolve?, ih fun hm => hos (List.mem_cons_of_mem _ hm),
      frame?_bind, if_neg fun he : o = .own k => hos (he ▸ List.mem_cons_self)]

theorem Frame.lookup_bind (f : Frame) (name : String) (v : Value) (n : String) :
    (f.bind name v).bound.lookup n = if n = name then some v else f.bound.lookup n := by
  rw [Frame.bind, List.lookup_cons]
  by_cases hn : n = name
  · rw [if_pos hn, beq_iff_eq.2 hn]
  · rw [if_neg hn, beq_false_of_ne hn]

/-! ## Scopes of a store -/

/-- A scope with nothing memoized reflects what is bound. -/
theorem Reflects.of_dropped {c c' : Scope} (h : Reflects K w memo A o c f) (hd : c.Dropped .derived c') :
    Reflects K w' memo A o c' f where
  tree := hd.tree.trans h.tree
  ancestors := hd.ancestors ▸ h.ancestors
  above := hd.ancestors ▸ h.above
  definitions n := hd.definitions ▸ h.definitions n
  bound n := by rw [hd.bound?, h.bound]
  has hslot := by
    rw [hd.slots, Scope.get?_clear_derived, Option.filter_eq_some_iff] at hslot
    exact h.has hslot.1
  derived hslot := by
    rw [hd.slots, Scope.get?_clear_derived, Option.filter_eq_some_iff] at hslot
    cases hslot.2

/-- A value is bound where nothing is memoized. -/
theorem Reflects.bind {c : Scope} (h : Reflects K w memo A o c f)
    (hc : ∀ n v, c.slots.get? n ≠ some ⟨v, .derived⟩) (hv : ∀ p ∈ v.procedures, A.Has p)
    (ha : v.rename A.codes = a) :
    Reflects K w memo A o (c.put name ⟨v, .bound⟩) (f.bind name a) where
  tree := h.tree
  ancestors := h.ancestors
  above := h.above
  definitions := h.definitions
  bound n := by
    rw [Frame.lookup_bind, Scope.bound?_put_bound, h.bound, ← ha]
    split <;> rfl
  has {n slot} hslot := by
    rw [Scope.get?_put] at hslot
    split at hslot
    · cases hslot
      exact hv
    · exact h.has hslot
  derived {n v'} hslot := by
    rw [Scope.get?_put] at hslot
    split at hslot
    · cases hslot
    · exact absurd hslot (hc n v')

namespace Mirrors

variable (h : Mirrors K L room base A st w memo)
include h

theorem mem_chain (hs : s ∈ A.scopes.ids) : ∀ t ∈ st.chain s, t ∈ A.scopes.ids := by
  obtain ⟨c, f, hc, -, hr⟩ := h.scope hs
  rw [Store.chain_of_scope? hc]
  intro t ht
  rcases List.mem_cons.1 ht with rfl | ht
  · exact hs
  · exact hr.above t ht

theorem own_scope_lt (hs : s ∈ A.scopes.ids) (ho : A.scopes.origin s = .own k) : k < w.frames.length := by
  obtain ⟨c, f, -, hf, -⟩ := h.scope hs
  rw [ho] at hf
  exact (List.getElem?_eq_some_iff.1 hf).1

/-- Nothing that was made before lies below what is made now. -/
theorem not_mem_chain (hK : K.Plain) (ho : A.scopes.origin s = .own k)
    (ht : t ∈ A.scopes.ids) (ht' : (A.scopes.origin t).isOwn = false) : s ∉ st.chain t := by
  obtain ⟨c, f, hc, hf, hr⟩ := h.scope ht
  rw [Store.chain_of_scope? hc]
  intro hm
  rcases List.mem_cons.1 hm with rfl | hm
  · rw [ho] at ht'
    cases ht'
  · have hown := (settled_of_frame? hK ht' hf).ancestors (A.scopes.origin s)
      (hr.ancestors ▸ List.mem_map_of_mem (f := A.scopes.origin) hm)
    rw [ho] at hown
    cases hown

/-! ## Lambdas -/

theorem takeLambda : Mirrors K L room base ⟨A.scopes, A.lambdas.add st.fresh (.own w.lambdas)⟩ st.takeFresh.2
    w.takeLambda.2 memo := by
  have hA : A.Le ⟨A.scopes, A.lambdas.add st.fresh (.own w.lambdas)⟩ :=
    ⟨.refl _, (Naming.extends_add h.lambda_lt _).toLe⟩
  refine
    { h with
      formed := h.formed.congr rfl fun _ => rfl
      lambdas := h.lambdas.add (fun hm => Nat.lt_irrefl _ (h.lambda_lt hm)) fun {l} hl ho =>
        Nat.lt_irrefl _ (h.own_lambda hl ho)
      lambda_lt := ?_
      settled_lambda := ?_
      own_lambda := ?_
      scope := ?_ }
  · rintro l (rfl | hl)
    · exact Nat.lt_succ_self _
    · exact Nat.lt_succ_of_lt (h.lambda_lt hl)
  · rintro l name k (rfl | hl) ho
    · rw [Naming.origin_add_self] at ho
      cases ho
    · rw [Naming.origin_add_of_ne (Nat.ne_of_lt (h.lambda_lt hl))] at ho
      exact h.settled_lambda hl ho
  · rintro l k (rfl | hl) ho
    · rw [Naming.origin_add_self] at ho
      cases ho
      exact Nat.lt_succ_self _
    · rw [Naming.origin_add_of_ne (Nat.ne_of_lt (h.lambda_lt hl))] at ho
      exact Nat.lt_succ_of_lt (h.own_lambda hl ho)
  · intro s hs
    obtain ⟨c, f, hc, hf, hr⟩ := h.scope hs
    have hframe : ∀ o, frame? K (meaning K) w.takeLambda.2 o = frame? K (meaning K) w o := frame?_congr rfl
    refine ⟨c, f, hc, (hframe _).trans hf, hr.mono hA rfl rfl rfl (fun _ => rfl) id ?_⟩
    exact resolve?_mono (fun _ => id) fun o _ f hf => (hframe o).trans hf

theorem advances_takeLambda (o : Origin) :
    Advances base A st ⟨A.scopes, A.lambdas.add st.fresh o⟩ st.takeFresh.2 where
  scopes := .refl _ _
  lambdas := Naming.extends_add h.lambda_lt _
  size := Nat.le_refl _
  fresh := Nat.le_succ _
  apart _ _ := rfl
  steady := rfl

/-! ## New scopes -/

theorem advances_child (hs : s ∈ A.scopes.ids) (values : List (String × Value)) (o : Origin) :
    Advances base A st ⟨A.scopes.add st.scopes.size o, A.lambdas⟩ (st.addChild s values).2 where
  scopes := Naming.extends_add h.scope_lt _
  lambdas := .refl _ _
  size := by simp
  fresh := Nat.le_refl _
  apart {t} ht hn := by
    rw [Store.scope?_addChild (h.alive hs), if_neg (Nat.ne_of_lt (Nat.lt_of_lt_of_le ht h.base_le)),
      if_neg fun he : t = s => hn (he ▸ hs)]
  steady := by
    obtain ⟨c, hc⟩ := Store.alive_iff.1 (h.alive h.root_mem)
    obtain ⟨l, hc'⟩ := Store.scope?_addChild_of_scope? (h.alive hs) values hc
    rw [Store.scope_of_scope? hc, Store.scope_of_scope? hc']

/-- The scope that is made for values reflects the one that is made for these values in the world. -/
theorem reflects_newborn {values : List (String × Value)} (hs : s ∈ A.scopes.ids)
    (hf : frame? K (meaning K) w (A.scopes.origin s) = some f)
    (hv : ∀ x ∈ values, ∀ p ∈ x.2.procedures, A.Has p) :
    Reflects K w' memo ⟨A.scopes.add st.scopes.size (.own k), A.lambdas⟩ (.own k) (st.newborn s values)
      ⟨A.scopes.origin s :: f.ancestors, (values.map fun x => (x.1, x.2.rename A.codes)).reverse⟩ := by
  have hA : A.Le ⟨A.scopes.add st.scopes.size (.own k), A.lambdas⟩ :=
    ⟨(Naming.extends_add h.scope_lt _).toLe, .refl _⟩
  obtain ⟨c, f', hc, hf', hr⟩ := h.scope hs
  cases hf.symm.trans hf'
  have hchain := Store.chain_of_scope? hc
  exact
    { tree := (congrArg Scope.tree (Store.scope_of_scope? hc)).trans hr.tree
      ancestors := by
        rw [Store.newborn, hchain, List.map_cons, hr.ancestors]
        have hanc : c.ancestors.map A.scopes.origin = c.ancestors.map (A.scopes.add st.scopes.size (.own k)).origin :=
          List.map_congr_left fun u hu => (hA.scopes.origin (hr.above u hu)).symm
        rw [hanc, ← hA.scopes.origin hs]
      above := fun u hu => hA.scopes.mem (h.mem_chain hs u hu)
      definitions := fun n => (if_neg (by simp)).symm
      bound := fun n => by
        rw [Scope.bound?, Store.get?_newborn, ← List.map_reverse, Bindings.lookup_map]
        cases hl : values.reverse.lookup n with
        | none => rfl
        | some v =>
          have hmem := List.mem_reverse.1 (mem_of_lookup hl)
          exact congrArg some (hA.rename (hv _ hmem)).symm
      has := fun hs' p hp => by
        obtain ⟨x, hx, -, rfl⟩ := Store.newborn_slot hs'
        exact hA.has (hv x hx p hp)
      derived := fun hs' => by
        obtain ⟨x, -, -, he⟩ := Store.newborn_slot hs'
        cases he }

/-- **A new scope.** -/
theorem child {values : List (String × Value)} (hs : s ∈ A.scopes.ids)
    (hf : frame? K (meaning K) w (A.scopes.origin s) = some f)
    (hv : ∀ x ∈ values, A.Names L x.2 (x.2.rename A.codes)) :
    Mirrors K L room base ⟨A.scopes.add st.scopes.size (.own w.frames.length), A.lambdas⟩ (st.addChild s values).2
      (w.push ⟨A.scopes.origin s :: f.ancestors,
        (values.map fun x => (x.1, x.2.rename A.codes)).reverse⟩).2 memo := by
  have hA : A.Le ⟨A.scopes.add st.scopes.size (.own w.frames.length), A.lambdas⟩ :=
    ⟨(Naming.extends_add h.scope_lt _).toLe, .refl _⟩
  have horigin : ∀ {t}, t ∈ A.scopes.ids →
      (A.scopes.add st.scopes.size (.own w.frames.length)).origin t = A.scopes.origin t :=
    fun ht => Naming.origin_add_of_ne (Nat.ne_of_lt (h.scope_lt ht))
  refine
    { h with
      formed := h.formed.addChild (h.alive hs) fun x hx => h.supports (hv x hx)
      base_le := Nat.le_trans h.base_le (by simp)
      scopes := h.scopes.add (fun hm => Nat.lt_irrefl _ (h.scope_lt hm)) fun {t} ht ho =>
        Nat.lt_irrefl _ (h.own_scope_lt ht ho)
      root_mem := hA.scopes.mem h.root_mem
      root := (horigin h.root_mem).trans h.root
      remembered := ?_
      settled_scope := ?_
      own_scope := ?_
      scope := ?_ }
  · intro name hn
    obtain ⟨v, hslot⟩ := h.remembered hn
    obtain ⟨l, hc'⟩ :=
      Store.scope?_addChild_of_scope? (h.alive hs) values (Store.scope?_eq_of_alive (h.alive h.root_mem))
    exact ⟨v, by rw [Store.scope_of_scope? hc', hslot]⟩
  · rintro t name k (rfl | ht) ho
    · rw [Naming.origin_add_self] at ho
      cases ho
    · exact h.settled_scope ht ((horigin ht).symm.trans ho)
  · rintro t k (rfl | ht) ho
    · exact h.base_le
    · exact h.own_scope ht ((horigin ht).symm.trans ho)
  · rintro t (rfl | ht)
    · have hself : (A.scopes.add st.scopes.size (.own w.frames.length)).origin st.scopes.size = .own w.frames.length :=
        Naming.origin_add_self ..
      simp only [hself]
      exact ⟨_, _, by rw [Store.scope?_addChild (h.alive hs), if_pos rfl], List.getElem?_concat_length,
        h.reflects_newborn hs hf fun x hx => (hv x hx).has⟩
    · obtain ⟨c, f', hc, hf', hr⟩ := h.scope ht
      obtain ⟨l, hc'⟩ := Store.scope?_addChild_of_scope? (h.alive hs) values hc
      simp only [horigin ht]
      refine ⟨_, f', hc', frame?_push hf' _, hr.mono hA rfl rfl rfl (fun _ => rfl) id ?_⟩
      exact resolve?_mono (fun _ => id) fun o _ f hf => frame?_push hf _

/-! ## Values -/

theorem advances_bind (hK : K.Plain) (hs : s ∈ A.scopes.ids) (ho : A.scopes.origin s = .own k) (name : String)
    (v : Value) :
    Advances base A st A (st.add s name v) where
  scopes := .refl _ _
  lambdas := .refl _ _
  size := Nat.le_of_eq (Store.size_update ..).symm
  fresh := Nat.le_of_eq (Store.fresh_update ..).symm
  apart {t} ht hn := by
    cases hc : st.scope? t with
    | none =>
      have hdead := Store.alive_update st s t [(name, v)]
      rw [Store.alive, Store.alive, hc] at hdead
      exact Option.isNone_iff_eq_none.1 (Option.isSome_eq_false_iff.1 hdead)
    | some c =>
      -- what lies below was made later
      rcases h.formed.scope?_add (h.alive hs) hc name v with ⟨-, hadd⟩ | ⟨hm, -⟩ | ⟨rfl, -⟩
      · exact hadd
      · have := (h.formed.alive_of_mem_chain (Store.alive_of_scope? hc) hm).2
        exact absurd (h.own_scope hs ho) (Nat.not_le.2 (Nat.lt_of_le_of_lt this ht))
      · exact absurd hs hn
  steady := by
    have hc := Store.scope?_eq_of_alive (h.alive h.root_mem)
    rcases h.formed.scope?_add (h.alive hs) hc name v with ⟨-, hadd⟩ | ⟨hm, -⟩ | ⟨rfl, -⟩
    · rw [Store.scope_of_scope? hadd]
    · exact absurd hm (h.not_mem_chain hK ho h.root_mem (by rw [h.root]; rfl))
    · rw [h.root] at ho
      cases ho

/-- **A value is bound in a scope that the evaluation made.** -/
theorem bind (hK : K.Plain) (hs : s ∈ A.scopes.ids) (ho : A.scopes.origin s = .own k) (hv : A.Names L v a)
    (name : String) :
    Mirrors K L room base A (st.add s name v) (w.bind name a (.own k)) memo := by
  have hsize : (st.add s name v).scopes.size = st.scopes.size := Store.size_update ..
  refine
    { h with
      formed := h.formed.add (h.supports hv) s name
      trees := (Store.trees_update ..).trans h.trees
      base_le := hsize.symm ▸ h.base_le
      lambda_lt := fun hl => (Store.fresh_update ..).symm ▸ h.lambda_lt hl
      remembered := ?_
      own_lambda := fun hl ho => h.own_lambda hl ho
      scope := ?_ }
  · intro n hn
    have hc := Store.scope?_eq_of_alive (h.alive h.root_mem)
    rcases h.formed.scope?_add (h.alive hs) hc name v with ⟨-, hadd⟩ | ⟨hm, -⟩ | ⟨rfl, -⟩
    · rw [Store.scope_of_scope? hadd]
      exact h.remembered hn
    · exact absurd hm (h.not_mem_chain hK ho h.root_mem (by rw [h.root]; rfl))
    · rw [h.root] at ho
      cases ho
  · intro t ht
    obtain ⟨c, f, hc, hf, hr⟩ := h.scope ht
    have hne : t ≠ s → A.scopes.origin t ≠ .own k := fun hts he => hts (h.scopes t s ht hs (he.trans ho.symm))
    rcases h.formed.scope?_add (h.alive hs) hc name v with ⟨hm, hadd⟩ | ⟨-, hts, c', hadd, hd⟩
      | ⟨rfl, c', hadd, hd⟩
    · -- a scope beside it
      have hts : t ≠ s := fun he => hm (he ▸ List.mem_cons_self)
      refine ⟨c, f, hadd, by rw [frame?_bind, if_neg (hne hts), hf], ?_⟩
      have hall : Origin.own k ∉ A.scopes.origin t :: f.ancestors := by
        intro hmem
        rcases List.mem_cons.1 hmem with he | hmem
        · exact hne hts he.symm
        · rw [hr.ancestors] at hmem
          obtain ⟨u, hu, hou⟩ := List.mem_map.1 hmem
          have := h.scopes u s (hr.above u hu) hs (hou.trans ho.symm)
          exact hm (Store.chain_of_scope? hc ▸ List.mem_cons_of_mem _ (this ▸ hu))
      exact hr.mono (.refl A) rfl rfl rfl (fun _ => rfl) id fun hres => (resolve?_bind hall).trans hres
    · -- a scope below it
      exact ⟨c', f, hadd, by rw [frame?_bind, if_neg (hne hts), hf], hr.of_dropped hd⟩
    · refine ⟨_, _, hadd, by rw [frame?_bind, if_pos ho, hf]; rfl, ?_⟩
      have hcleared : ∀ n v', c'.slots.get? n ≠ some ⟨v', .derived⟩ := by
        intro n v' hslot
        rw [hd.slots, Scope.get?_clear_derived, Option.filter_eq_some_iff] at hslot
        cases hslot.2
      exact (hr.of_dropped hd).bind hcleared (Atlas.has_detach hv.has) (by rw [Atlas.rename_detach, hv.eq])

/-- **A value is memoized that is found.** -/
theorem memoize (hs : s ∈ A.scopes.ids) (hf : frame? K (meaning K) w (A.scopes.origin s) = some f)
    (hb : f.bound.lookup name = none) (hv : A.Names L v a)
    (hres : resolve? K w memo name (A.scopes.origin s :: f.ancestors) = some a) :
    Mirrors K L room base A (st.put s name v .derived) w memo := by
  have hsize : (st.put s name v .derived).scopes.size = st.scopes.size := Store.size_modify ..
  refine
    { h with
      formed := h.formed.put (h.supports hv) s name .derived
      trees := h.trees
      base_le := hsize.symm ▸ h.base_le
      lambda_lt := fun hl => h.lambda_lt hl
      remembered := ?_
      scope := ?_ }
  · intro n hn
    obtain ⟨v', hslot⟩ := h.remembered hn
    rw [Store.slot_put _ (h.alive h.root_mem)]
    split
    · exact ⟨_, rfl⟩
    · exact ⟨v', hslot⟩
  · intro t ht
    obtain ⟨c, f', hc, hf', hr⟩ := h.scope ht
    by_cases hts : t = s
    · subst hts
      cases hf.symm.trans hf'
      refine ⟨_, f, by rw [Store.scope?_put, if_pos rfl, hc]; rfl, hf, ?_⟩
      refine hr.memoize ?_ (Atlas.has_detach hv.has) (by rw [Atlas.rename_detach, hv.eq, hres])
      rw [hr.bound] at hb
      exact Option.map_eq_none_iff.1 hb
    · exact ⟨c, f', by rw [Store.scope?_put, if_neg hts, hc], hf', hr⟩

end Mirrors
end Memoryless
end LazyFormula
