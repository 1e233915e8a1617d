import LazyFormula.Proofs.Mirroring
/-!
# Definitions forced meanwhile

While an evaluation goes on, a definition is evaluated in a scope of its own. That evaluation starts with nothing of the
one in progress (`Mirrors.before`), and when it is over, what it made is settled and its value is memoized at the root
(`Mirrors.conclude`).
-/
namespace LazyFormula
namespace Memoryless

variable {K : Book} {L : Fragment} {A A₁ A' : Atlas} {st st₁ : Store} {w w₁ w' : World}
  {memo memo₁ memo' : List String}
  {room base : Nat} {name : String} {v a : Value} {o : Origin} {f : Frame} {s t : ScopeId} {e : Expr}

/-! ## What was there before -/

/-- What is settled has names that were there before. -/
theorem has_before (hv : ∀ p ∈ v.procedures, A.Has p) (h : Settled (v.rename A.codes)) :
    ∀ p ∈ v.procedures, A.before.Has p := by
  intro p hp
  obtain ⟨-, ⟨o, ho, hs⟩, o', ho', hl⟩ := h (A.codes.procedure p) (by
    rw [Value.procedures_rename]
    exact List.mem_map_of_mem hp)
  have hs : A.scopes.origin p.scope = o := Origin.code_injective hs
  have hl : A.lambdas.origin p.lambda.id = o' := Origin.code_injective hl
  exact ⟨⟨(hv p hp).1, by rw [hs, ho]⟩, ⟨(hv p hp).2, by rw [hl, ho']⟩⟩

theorem Reflects.before {c : Scope} (h : Reflects K w memo A o c f) (hK : K.Plain) (ho : o.isOwn = false)
    (hf : f.Settled) : Reflects K w' memo A.before o c f where
  tree := h.tree
  ancestors := h.ancestors
  above u hu := ⟨h.above u hu, hf.ancestors _ (h.ancestors ▸ List.mem_map_of_mem (f := A.scopes.origin) hu)⟩
  definitions := h.definitions
  bound := h.bound
  has {name slot} hslot := by
    refine has_before (h.has hslot) ?_
    obtain ⟨v, kind⟩ := slot
    cases kind with
    | bound =>
      have hb := h.bound name
      rw [Scope.bound?_eq_some.2 hslot] at hb
      exact hf.bound _ (mem_of_lookup hb)
    | derived =>
      refine settled_of_resolve? hK (fun o' ho' => ?_) (h.derived hslot)
      rcases List.mem_cons.1 ho' with rfl | ho'
      · exact ho
      · exact hf.ancestors o' ho'
  derived hslot := by
    refine resolve?_mono (fun _ => id) (fun o' ho' f' hf' => ?_) (h.derived hslot)
    have hown : o'.isOwn = false := by
      rcases List.mem_cons.1 ho' with rfl | ho'
      · exact ho
      · exact hf.ancestors o' ho'
    rwa [frame?_of_isOwn hown _ w]

/-- **The store mirrors what was there before the evaluation in progress.** -/
theorem Mirrors.before (h : Mirrors K L room base A st w memo) (hK : K.Plain) :
    Mirrors K L room st.scopes.size A.before st .empty memo where
  formed := h.formed
  trees := h.trees
  room_le := h.room_le
  base_le := Nat.le_refl _
  closed := h.closed
  scopes := h.scopes.before
  lambdas := h.lambdas.before
  lambda_lt hl := h.lambda_lt hl.1
  root_mem := ⟨h.root_mem, by rw [h.root]; rfl⟩
  root := h.root
  remembered := h.remembered
  settled_scope hs ho := h.settled_scope hs.1 ho
  settled_lambda hl ho := h.settled_lambda hl.1 ho
  own_scope hs ho := by
    have hown : (A.scopes.origin _).isOwn = false := hs.2
    rw [show A.scopes.origin _ = _ from ho] at hown
    cases hown
  own_lambda hl ho := by
    have hown : (A.lambdas.origin _).isOwn = false := hl.2
    rw [show A.lambdas.origin _ = _ from ho] at hown
    cases hown
  scope {s} hs := by
    obtain ⟨c, f, hc, hf, hr⟩ := h.scope hs.1
    exact ⟨c, f, hc,
      by rw [← hf]; exact frame?_of_isOwn hs.2 _ _, hr.before hK hs.2 (settled_of_frame? hK hs.2 hf)⟩

/-! ## What is left of a definition -/

/-- Nothing but memoized values lives in a scope where nothing is bound. -/
theorem Reflects.holdsOnlyDerived_eq {c : Scope} (h : Reflects K w memo A o c f) (ho : o ≠ .root) :
    c.holdsOnlyDerived = f.bound.isEmpty := by
  have hdefs : c.definitions.isEmpty = true := by
    rw [Bindings.isEmpty, List.isEmpty_iff]
    cases he : c.definitions.entries with
    | nil => rfl
    | cons x rest =>
      have := h.definitions x.1
      rw [Bindings.get?_eq_some.2 (he ▸ List.mem_cons_self), if_neg ho] at this
      cases this
  rw [Scope.holdsOnlyDerived, hdefs, Bool.true_and, Bool.eq_iff_iff, List.all_eq_true, List.isEmpty_iff]
  constructor
  · intro hall
    rw [List.eq_nil_iff_forall_not_mem]
    rintro ⟨n, b⟩ hb
    cases hl : f.bound.lookup n with
    | none => simpa using List.lookup_eq_none_iff.1 hl _ hb
    | some b' =>
      rw [h.bound] at hl
      obtain ⟨v, hv, -⟩ := Option.map_eq_some_iff.1 hl
      cases hall _ (Bindings.mem_values.2 ⟨n, Scope.bound?_eq_some.1 hv⟩)
  · intro hnil slot hslot
    obtain ⟨n, hn⟩ := Bindings.mem_values.1 hslot
    obtain ⟨v, kind⟩ := slot
    cases kind with
    | derived => rfl
    | bound =>
      have hb := h.bound n
      rw [Scope.bound?_eq_some.2 hn, hnil] at hb
      cases hb

/-- A value whose procedures run in the root instead. -/
theorem Mirrors.names_recapture (h : Mirrors K L room base A st w memo) (hs : s ∈ A.scopes.ids) (hv : A.Names L v a) :
    A.Names L (v.recapture s 1) (a.recapture (A.scopes.origin s).code Origin.root.code) where
  has p hp := by
    rw [Value.recapture, Value.procedures_mapProcedures] at hp
    obtain ⟨q, hq, rfl⟩ := List.mem_map.1 hp
    split
    · exact ⟨h.root_mem, (hv.has q hq).2⟩
    · exact hv.has q hq
  holds p hp := by
    rw [Value.recapture, Value.procedures_mapProcedures] at hp
    obtain ⟨q, hq, rfl⟩ := List.mem_map.1 hp
    split
    · exact ⟨(hv.holds q hq).1, rfl⟩
    · exact hv.holds q hq
  eq := by
    rw [← hv.eq, Value.recapture, Value.recapture, Value.rename, Value.rename, Value.mapProcedures_mapProcedures,
      Value.mapProcedures_mapProcedures]
    refine Value.mapProcedures_congr fun p hp => ?_
    have hsame : (A.scopes.origin p.scope).code = (A.scopes.origin s).code ↔ p.scope = s :=
      ⟨fun he => h.scopes _ _ (hv.has p hp).1 hs (Origin.code_injective he), fun he => he ▸ rfl⟩
    by_cases hps : p.scope = s
    · simp [Renaming.procedure, Atlas.codes, hps, h.root]
    · simp [Renaming.procedure, Atlas.codes, hps, hsame]

section
variable (h : Mirrors K L room base A st w memo) (h₁ : Mirrors K L room st.scopes.size A₁ st₁ w₁ memo₁)
  (ha : Advances st.scopes.size A.before st A₁ st₁)
include h ha

/-- A name inside is settled when the evaluation of the definition is over. -/
theorem origin_join_scope (hs : s ∈ A₁.scopes.ids) :
    (A.join A₁ name).scopes.origin s = (A₁.scopes.origin s).settle name := ha.scopes.origin_join h.scope_lt hs

theorem rename_join (hv : ∀ p ∈ v.procedures, A₁.Has p) :
    v.rename (A.join A₁ name).codes = (v.rename A₁.codes).rename (settling name) :=
  Atlas.rename_join ha.scopes ha.lambdas h.scope_lt h.lambda_lt hv

omit h ha in
theorem has_join {p : Procedure} (hp : A₁.Has p) : (A.join A₁ name).Has p := ⟨.inr hp.1, .inr hp.2⟩

theorem Reflects.join {c : Scope} (hr : Reflects K w₁ memo₁ A₁ o c f) (hK : K.Plain) {b : Value}
    (hm : meaning K name = some (.ok (Memoryless.conclude name b w₁))) (hmemo : ∀ n ∈ memo₁, n ∈ memo')
    (w' : World) :
    Reflects K w' memo' (A.join A₁ name) (o.settle name) c (f.settle name) where
  tree := hr.tree
  ancestors := by
    rw [Frame.settle, hr.ancestors, List.map_map]
    exact List.map_congr_left fun u hu => (origin_join_scope h ha (hr.above u hu)).symm
  above u hu := .inr (hr.above u hu)
  definitions n := by simp only [hr.definitions, Origin.settle_eq_root]
  bound n := by
    rw [lookup_settle, hr.bound, Option.map_map]
    cases hb : c.bound? n with
    | none => rfl
    | some v => exact congrArg some (rename_join h ha (hr.has_bound hb)).symm
  has hslot p hp := has_join (hr.has hslot p hp)
  derived hslot := by
    rw [rename_join h ha (hr.has hslot)]
    exact resolve?_settle hK hm hmemo (hr.derived hslot)

include h₁

/-- The value of a definition, once its evaluation in a scope is over. -/
theorem names_conclude (hs : s ∈ A₁.scopes.ids) (ho : A₁.scopes.origin s = .own 0) (hv : A₁.Names L v a) :
    (A.join A₁ name).Names L (if (st₁.scope s).holdsOnlyDerived then v.recapture s 1 else v)
      (Memoryless.conclude name a w₁).value := by
  obtain ⟨c, f, hc, hf, hr⟩ := h₁.scope hs
  have hrecapture := h₁.names_recapture hs hv
  rw [ho] at hf hr hrecapture
  have hhead : w₁.frames.head? = some f := by rw [List.head?_eq_getElem?, ← hf, frame?]
  have hbare : (st₁.scope s).holdsOnlyDerived = w₁.bare := by
    rw [Store.scope_of_scope? hc, hr.holdsOnlyDerived_eq (by simp), World.bare, hhead, Option.all_some]
  have hsettled : ∀ {v a}, A₁.Names L v a → (A.join A₁ name).Names L v (a.rename (settling name)) := fun hv =>
    ⟨fun p hp => has_join (hv.has p hp), hv.holds, by rw [rename_join h ha hv.has, hv.eq]⟩
  rw [hbare, Memoryless.conclude]
  split
  · exact hsettled hrecapture
  · exact hsettled hv

omit h₁ in
/-- What is left of the store is what was there, with what is settled now. -/
theorem advances_conclude (hb : base ≤ st.scopes.size) (name : String) (v : Value) :
    Advances base A st (A.join A₁ name) (st₁.put 1 name v .derived) where
  scopes := ha.scopes.join
  lambdas := ha.lambdas.join
  size := Nat.le_trans ha.size (Nat.le_of_eq (Store.size_modify ..).symm)
  fresh := ha.fresh
  apart {t} ht hn := by
    rw [Store.scope?_put, if_neg fun he : t = 1 => hn (he ▸ h.root_mem)]
    exact ha.apart (Nat.lt_of_lt_of_le ht hb) fun hm => hn hm.1
  steady := by
    rw [← ha.steady]
    exact Store.generation_put ..

omit h₁ in
/-- The scopes that are accounted for are left alive. -/
theorem alive_conclude (h₁ : Mirrors K L room st.scopes.size A₁ st₁ w₁ memo₁)
    (hs : s ∈ (A.join A₁ name).scopes.ids) :
    st₁.alive s = true := by
  rcases hs with hs | hs
  · by_cases hb : s ∈ A.before.scopes.ids
    · exact h₁.alive (ha.scopes.mem hb)
    · rw [Store.alive, ha.apart (h.scope_lt hs) hb]
      exact h.alive hs
  · exact h₁.alive hs

section
variable (hK : K.Plain) (hm : meaning K name = some (.ok (Memoryless.conclude name a w₁)))
  (hrecalls : Recalls K memo w₁.consulted memo₁)

include hrecalls in
/-- A scope of the evaluation in progress shows what it did. -/
theorem scope_conclude_outer (hs : s ∈ A.scopes.ids) (hs₁ : s ∉ A₁.scopes.ids) (v : Value) :
    ∃ c f, (st₁.put 1 name v .derived).scope? s = some c ∧
      frame? K (meaning K) (w.consult name) ((A.join A₁ name).scopes.origin s) = some f ∧
      Reflects K (w.consult name) (name :: memo₁) (A.join A₁ name) ((A.join A₁ name).scopes.origin s) c f := by
  obtain ⟨c, f, hc, hf, hr⟩ := h.scope hs
  have hA : A.Le (A.join A₁ name) := ⟨ha.scopes.join.toLe, ha.lambdas.join.toLe⟩
  have hframe : ∀ o, frame? K (meaning K) (w.consult name) o = frame? K (meaning K) w o := frame?_congr rfl
  have hsame := ha.apart (h.scope_lt hs) fun hb => hs₁ (ha.scopes.mem hb)
  have hne : s ≠ 1 := fun he => hs₁ (he ▸ h₁.root_mem)
  rw [hA.scopes.origin hs]
  refine ⟨c, f, by rw [Store.scope?_put, if_neg hne, hsame, hc], (hframe _).trans hf, ?_⟩
  exact hr.mono hA rfl rfl rfl (fun _ => rfl) id
    (resolve?_mono (fun n hn => List.mem_cons_of_mem _ (hrecalls.grown n hn)) fun o _ f hf => (hframe o).trans hf)

include hK hm

/-- A scope that the definition saw shows what it did under its settled name, and the root the memoized value. -/
theorem scope_conclude (hdef : K.definitions.lookup name = some e) (hgiven : K.given.lookup name = none)
    (hv : (A.join A₁ name).Names L v (Memoryless.conclude name a w₁).value) (hs : s ∈ A₁.scopes.ids) :
    ∃ c f, (st₁.put 1 name v .derived).scope? s = some c ∧
      frame? K (meaning K) (w.consult name) ((A.join A₁ name).scopes.origin s) = some f ∧
      Reflects K (w.consult name) (name :: memo₁) (A.join A₁ name) ((A.join A₁ name).scopes.origin s) c f := by
  obtain ⟨c, f, hc, hf, hr⟩ := h₁.scope hs
  have hf' : frame? K (meaning K) (w.consult name) _ = _ := frame?_settle hK hm hf
  have hr' := hr.join h ha hK hm (fun n hn => List.mem_cons_of_mem name hn) (w.consult name)
  rw [origin_join_scope h ha hs]
  by_cases h1 : s = 1
  · subst h1
    rw [h₁.root] at hf hf' hr' ⊢
    cases hf
    have hfree : c.bound? name = none := Option.map_eq_none_iff.1 ((hr.bound name).symm.trans hgiven)
    refine ⟨_, _,
      by rw [Store.scope?_put, if_pos rfl, hc]; rfl, hf', hr'.memoize hfree (Atlas.has_detach hv.has) ?_⟩
    rw [resolve?_root hf' (by rw [lookup_settle]; exact congrArg _ hgiven) rfl hdef, if_pos List.mem_cons_self,
      value?_eq hm, Atlas.rename_detach, hv.eq]
  · exact ⟨c, _, by rw [Store.scope?_put, if_neg h1, hc], hf', hr'⟩

include hrecalls

/-- **A definition was evaluated meanwhile**: its value is memoized at the root, and what its evaluation made is
settled. -/
theorem Mirrors.conclude (hname : name ∉ memo₁) (hdef : K.definitions.lookup name = some e)
    (hgiven : K.given.lookup name = none)
    (hv : (A.join A₁ name).Names L v (Memoryless.conclude name a w₁).value) :
    Mirrors K L room base (A.join A₁ name) (st₁.put 1 name v .derived) (w.consult name) (name :: memo₁) where
  formed := h₁.formed.put (hv.supports fun s hs => alive_conclude h ha h₁ hs) 1 name .derived
  trees := h₁.trees
  room_le := h₁.room_le
  base_le := Nat.le_trans h.base_le (Nat.le_trans ha.size (Nat.le_of_eq (Store.size_modify ..).symm))
  closed := h₁.closed.cons hm hrecalls.consulted
  scopes := ha.scopes.distinct_join h.scope_lt h.scopes h₁.scopes fun hs ho => hname (h₁.settled_scope hs ho)
  lambdas := ha.lambdas.distinct_join h.lambda_lt h.lambdas h₁.lambdas fun hl ho => hname (h₁.settled_lambda hl ho)
  lambda_lt := by
    rintro l (hl | hl)
    · exact Nat.lt_of_lt_of_le (h.lambda_lt hl) ha.fresh
    · exact h₁.lambda_lt hl
  root_mem := .inl h.root_mem
  root := (ha.scopes.join.origin h.root_mem).trans h.root
  remembered {n} hn := by
    rw [Store.slot_put _ (h₁.alive h₁.root_mem)]
    split
    · exact ⟨_, rfl⟩
    · rename_i hne
      exact h₁.remembered ((List.mem_cons.1 hn).resolve_left fun he => hne ⟨rfl, he⟩)
  settled_scope {_ n _} hs ho := by
    rcases ha.scopes.join_settled h.scope_lt hs ho with ⟨hs, ho⟩ | rfl | ⟨hs, ho⟩
    · exact List.mem_cons_of_mem _ (hrecalls.grown n (h.settled_scope hs ho))
    · exact List.mem_cons_self
    · exact List.mem_cons_of_mem _ (h₁.settled_scope hs ho)
  settled_lambda {_ n _} hl ho := by
    rcases ha.lambdas.join_settled h.lambda_lt hl ho with ⟨hl, ho⟩ | rfl | ⟨hl, ho⟩
    · exact List.mem_cons_of_mem _ (hrecalls.grown n (h.settled_lambda hl ho))
    · exact List.mem_cons_self
    · exact List.mem_cons_of_mem _ (h₁.settled_lambda hl ho)
  own_scope hs ho := by
    obtain ⟨hs, ho⟩ := ha.scopes.join_own h.scope_lt hs ho
    exact h.own_scope hs ho
  own_lambda hl ho := by
    obtain ⟨hl, ho⟩ := ha.lambdas.join_own h.lambda_lt hl ho
    exact h.own_lambda hl ho
  scope {s} hs := by
    by_cases hs₁ : s ∈ A₁.scopes.ids
    · exact scope_conclude h h₁ ha hK hm hdef hgiven hv hs₁
    · exact scope_conclude_outer h h₁ ha hrecalls (hs.resolve_right hs₁) hs₁ v

end

end

end Memoryless
end LazyFormula
