import LazyFormula.Proofs.Matching
/-!
# Look-ups that match

What is found for a name without forcing anything is what an evaluation that remembers looks up
(`lookupAlong_of_resolve?`), and what it looked up is found from then on (`resolve?_of_lookupAlong`). So every scope
on the way may memoize it, and a look-up in a store matches one in the world that it mirrors (`lookup_matches`).
-/
namespace LazyFormula

/-- What a definition that is forced leaves in the store. -/
theorem force_apply (ev : Evaluator) (s : ScopeId) (name : String) (e : Expr) (st : Store) :
    force ev s name e st =
      match ev e st.scopes.size ((st.record (.forcing s name e)).addChild s []).2 with
      | (.ok v, st') =>
        (.ok (if (st'.scope st.scopes.size).holdsOnlyDerived then v.recapture st.scopes.size s else v), st')
      | (.error e, st') => (.error e, st') := by
  have hrun : force ev s name e st = (ev e st.scopes.size >>= fun v => do
      return if ((← get).scope st.scopes.size).holdsOnlyDerived then v.recapture st.scopes.size s else v)
        ((st.record (.forcing s name e)).addChild s []).2 := rfl
  rw [hrun, bind_apply]
  rcases ev e st.scopes.size ((st.record (.forcing s name e)).addChild s []).2 with ⟨r, st'⟩
  cases r <;> rfl

namespace Memoryless

variable {K : Book} {L : Fragment} {room base n : Nat} {A : Atlas} {st : Store} {w w' : World}
  {memo memo' : List String}
  {name : String} {v : Value} {o : Origin} {os : List Origin} {f : Frame} {s : ScopeId} {k : Nat}
  {ev : Evaluator} {e : Expr}

/-! ## Look-ups in a world -/

section
variable {T : Table} {refer : String → Run (List String) Value} (hf : frame? K T w o = some f)
include hf

theorem frame_apply : frame K T o (w, memo) = (.ok f, (w, memo)) := by rw [frame, hf]

theorem lookupAlong_bound (hb : f.bound.lookup name = some v) :
    lookupAlong K T refer name (o :: os) (w, memo) = (.ok v, (w, memo)) := by
  rw [lookupAlong, bind_apply, frame_apply hf]
  simp only [hb]
  rfl

theorem lookupAlong_root (hb : f.bound.lookup name = none) (ho : o = .root) {e : Expr}
    (he : K.definitions.lookup name = some e) :
    lookupAlong K T refer name (o :: os) (w, memo) = refer name (w, memo) := by
  rw [lookupAlong, bind_apply, frame_apply hf]
  simp only [hb, ho, he, Option.isSome_some, and_self, if_true]

theorem lookupAlong_up (hb : f.bound.lookup name = none) (ho : ¬ (o = .root ∧ (K.definitions.lookup name).isSome)) :
    lookupAlong K T refer name (o :: os) (w, memo) = lookupAlong K T refer name os (w, memo) := by
  rw [lookupAlong, bind_apply, frame_apply hf]
  simp only [hb, if_neg ho]

end

/-- What the world holds beside what was consulted. -/
def World.Same (w w' : World) : Prop := w'.frames = w.frames ∧ w'.lambdas = w.lambdas

theorem exists_of_value? (h : value? K name = some v) : ∃ entry, meaning K name = some (.ok entry) ∧
    entry.value = v := by
  unfold value? at h
  split at h
  · rename_i entry he
    cases h
    exact ⟨entry, he, rfl⟩
  · cases h

/-- What is found is looked up, and nothing is forced for it. -/
theorem lookupAlong_of_resolve? : ∀ {os : List Origin}, resolve? K w memo name os = some v →
    ∀ ev : Expr → Origin → Run (List String) Value, ∃ w',
      w.Same w' ∧ lookupAlong K (meaning K) (force K ev) name os (w, memo) = (.ok v, (w', memo))
  | [], h, _ => nomatch h
  | o :: os, h, ev => by
    obtain ⟨f, hf, hb | ⟨hb, ho, ⟨e, he⟩, hm, hv⟩ | ⟨hb, ho, hup⟩⟩ := resolve?_cases h
    · exact ⟨w, ⟨rfl, rfl⟩, lookupAlong_bound hf hb⟩
    · obtain ⟨entry, hentry, rfl⟩ := exists_of_value? hv
      exact ⟨w.consult name, ⟨rfl, rfl⟩, by rw [lookupAlong_root hf hb ho he, force_remembered hm hentry]⟩
    · rw [lookupAlong_up hf hb ho]
      exact lookupAlong_of_resolve? hup ev

/-- What was looked up is found, and no scope was touched. -/
theorem resolve?_of_lookupAlong (hc : Closed K memo) : ∀ {os : List Origin},
    lookupAlong K (meaning K) (force K (remember K n)) name os (w, memo) = (.ok v, (w', memo')) →
      w.Same w' ∧ resolve? K w' memo' name os = some v
  | [], h => by cases h
  | o :: os, h => by
    cases hf : frame? K (meaning K) w o with
    | none =>
      rw [lookupAlong, bind_apply, frame, hf] at h
      cases h
    | some f =>
      have hframe : w'.frames = w.frames → frame? K (meaning K) w' o = some f :=
        fun hw => (frame?_congr hw o).trans hf
      cases hb : f.bound.lookup name with
      | some b =>
        rw [lookupAlong_bound hf hb] at h
        cases h
        exact ⟨⟨rfl, rfl⟩, resolve?_bound hf hb⟩
      | none =>
        by_cases ho : o = .root ∧ (K.definitions.lookup name).isSome
        · obtain ⟨ho, hdef⟩ := ho
          obtain ⟨e, he⟩ := Option.isSome_iff_exists.1 hdef
          rw [lookupAlong_root hf hb ho he] at h
          by_cases hm : name ∈ memo
          · obtain ⟨entry, hentry, -⟩ := hc name hm
            rw [force_remembered hm hentry] at h
            cases h
            exact ⟨⟨rfl, rfl⟩, by rw [resolve?_root (hframe rfl) hb ho he, if_pos hm, value?_eq hentry]⟩
          · rw [force_new hm he] at h
            rcases hrun : remember K n e (.own 0) (.scratch, memo) with ⟨r, w₁, memo₁⟩
            rw [hrun] at h
            cases r with
            | error halt => cases h
            | ok a =>
              cases h
              have hmeans := (meaning_of_remember hc he hrun).1
              exact ⟨⟨rfl, rfl⟩,
                by rw [resolve?_root (hframe rfl) hb ho he, if_pos List.mem_cons_self, value?_eq hmeans]⟩
        · rw [lookupAlong_up hf hb ho] at h
          obtain ⟨hw, hres⟩ := resolve?_of_lookupAlong hc h
          exact ⟨hw, (resolve?_up (hframe hw.1) hb ho).trans hres⟩

/-! ## Look-ups in a store -/

/-- **An evaluator that a memoryless one simulates**: from a mirror, evaluations in scopes of the evaluation in progress
match. -/
def Simulates (K : Book) (L : Fragment) (room : Nat) (ev : Evaluator)
    (memoryless : Expr → Origin → Run (List String) Value) : Prop :=
  ∀ (base : Nat) (A : Atlas) (st : Store) (w : World) (memo : List String) (s : ScopeId) (k : Nat) (e : Expr),
    Mirrors K L room base A st w memo → s ∈ A.scopes.ids → A.scopes.origin s = .own k → L.Mem e →
      Matches K L room base A st (w, memo) (ev e s) (memoryless e (.own k)) (Named L)

/-- A value that was found on the way up is memoized, unless values were dropped meanwhile. -/
theorem memoized_matches (h : Mirrors K L room base A st w memo) (hs : s ∈ A.scopes.ids)
    (hf : frame? K (meaning K) w (A.scopes.origin s) = some f) (hb : f.bound.lookup name = none)
    (ho : ¬ (A.scopes.origin s = .root ∧ (K.definitions.lookup name).isSome)) {x : Eval Value}
    (hx : Matches K L room base A st (w, memo) x
      (lookupAlong K (meaning K) (force K (remember K n)) name f.ancestors) (Named L)) (generation : Nat) :
    Matches K L room base A st (w, memo) (do let v ← x; memoize s name generation v; return v)
      (lookupAlong K (meaning K) (force K (remember K n)) name f.ancestors) (Named L) := by
  have hfound : ∀ v w' memo', lookupAlong K (meaning K) (force K (remember K n)) name f.ancestors (w, memo) =
      (.ok v, (w', memo')) → w.Same w' ∧ resolve? K w' memo' name f.ancestors = some v :=
    fun _ _ _ => resolve?_of_lookupAlong h.closed
  rw [Matches] at hx ⊢
  rw [bind_apply]
  generalize x st = p at hx ⊢
  generalize lookupAlong K (meaning K) (force K (remember K n)) name f.ancestors (w, memo) = q at hx hfound ⊢
  cases hx with
  | failed he hr => exact .failed he hr
  | spent limit hr => exact .spent limit hr
  | @ok A' st' w' memo' v a ha hm hp =>
    obtain ⟨hw, hres⟩ := hfound a w' memo' rfl
    have hrun : (do memoize s name generation v; return v : Eval Value) st' =
        (.ok v, if (st'.scope s).generation = generation then st'.put s name v .derived else st') := rfl
    have horigin := ha.le.scopes.origin hs
    have hf' : frame? K (meaning K) w' (A'.scopes.origin s) = some f := by rw [horigin, frame?_congr hw.1, hf]
    have hres' := (resolve?_up hf' hb (by rwa [horigin])).trans hres
    dsimp only
    rw [hrun]
    split
    · exact .ok (ha.trans (.memoize (ha.le.scopes.mem hs) name v) h.base_le)
        (hm.memoize (ha.le.scopes.mem hs) hf' hb hp hres') hp
    · exact .ok ha hm hp

/-- A new scope below the root mirrors the one in which an evaluation starts. -/
theorem Mirrors.scratch (h : Mirrors K L room base A st w memo) (hK : K.Plain) :
    let A₀ : Atlas := ⟨A.before.scopes.add st.scopes.size (.own 0), A.before.lambdas⟩
    Mirrors K L room st.scopes.size A₀ (st.addChild 1 []).2 .scratch memo ∧
      Advances st.scopes.size A.before st A₀ (st.addChild 1 []).2 ∧ A₀.scopes.origin st.scopes.size = .own 0 := by
  have hbefore := h.before hK
  have hroot : A.before.scopes.origin 1 = .root := h.root
  have hframe : frame? K (meaning K) .empty (A.before.scopes.origin 1) =
      some ⟨[.builtins], K.given⟩ := by rw [hroot]; rfl
  have hchild := hbefore.child hbefore.root_mem hframe (List.forall_mem_nil fun x : String × Value =>
    A.before.Names L x.2 (x.2.rename A.before.codes))
  rw [hroot] at hchild
  exact ⟨hchild, hbefore.advances_child hbefore.root_mem [] (.own 0), Naming.origin_add_self ..⟩

theorem Mirrors.record (h : Mirrors K L room base A st w memo) (event : Event) :
    Mirrors K L room base A (st.record event) w memo := h.congr rfl (fun _ => rfl) rfl h.trees h.room_le rfl rfl

/-- **A definition is forced and memoized at the root.** -/
theorem force_matches (hK : K.Plain) (hev : Simulates K L room ev (remember K n))
    (h : Mirrors K L room base A st w memo)
    (hslot : (st.scope 1).slots.get? name = none) (hdef : K.definitions.lookup name = some e) (he : L.Mem e) :
    Matches K L room base A st (w, memo)
      (do let v ← LazyFormula.force ev 1 name e; memoize 1 name (st.scope 1).generation v; return v)
      (force K (remember K n) name) (Named L) := by
  have hnew : name ∉ memo := fun hm => by
    obtain ⟨v, hv⟩ := h.remembered hm
    rw [hslot] at hv
    cases hv
  have hgiven : K.given.lookup name = none := by
    obtain ⟨c, f, hc, hf, hr⟩ := h.scope h.root_mem
    rw [h.root] at hf hr
    cases hf
    rw [Store.scope_of_scope? hc] at hslot
    rw [hr.bound name, Scope.bound?_eq_none hslot, Option.map_none]
  obtain ⟨hstart, hchild, hscratch⟩ := (h.record (.forcing 1 name e)).scratch hK
  rw [Store.size_record] at hstart hchild hscratch
  have hrecord : Advances st.scopes.size A.before st A.before (st.record (.forcing 1 name e)) :=
    .of_scope? rfl (fun _ => rfl) rfl
  have hadvances := hrecord.trans hchild (Nat.le_refl _)
  have hinner := hev _ _ _ _ _ st.scopes.size 0 e hstart (.inl rfl) hscratch he
  have hmeans : ∀ v w₁ memo₁, remember K n e (.own 0) (.scratch, memo) = (.ok v, (w₁, memo₁)) →
      meaning K name = some (.ok (conclude name v w₁)) ∧ Recalls K memo w₁.consulted memo₁ :=
    fun _ _ _ => meaning_of_remember h.closed hdef
  have hstill : ∀ v w₁ memo₁, remember K n e (.own 0) (.scratch, memo) = (.ok v, (w₁, memo₁)) →
      name ∉ memo₁ :=
    fun _ _ _ hrun => not_mem_of_remember h.closed hdef hrun hnew
  rw [Matches] at hinner ⊢
  rw [bind_apply, force_apply, force_new hnew hdef]
  generalize ev e st.scopes.size ((st.record (.forcing 1 name e)).addChild 1 []).2 = p at hinner ⊢
  generalize remember K n e (.own 0) (.scratch, memo) = q at hinner hmeans hstill ⊢
  cases hinner with
  | failed he hr => exact .failed he hr
  | spent limit hr => exact .spent limit hr
  | @ok A₁ st₁ w₁ memo₁ v a ha h₁ hv =>
    obtain ⟨hm, hrecalls⟩ := hmeans a w₁ memo₁ rfl
    have ha' := hadvances.trans ha (Nat.le_refl _)
    have hown : A₁.scopes.origin st.scopes.size = .own 0 := (ha.le.scopes.origin (.inl rfl)).trans hscratch
    have hnames : (A.join A₁ name).Names L _ _ := names_conclude h h₁ ha' (ha.le.scopes.mem (.inl rfl)) hown hv
    dsimp only
    generalize (if (st₁.scope st.scopes.size).holdsOnlyDerived then v.recapture st.scopes.size 1 else v) = v'
      at hnames ⊢
    have hrun : (do memoize 1 name (st.scope 1).generation v'; return v' : Eval Value) st₁ =
        (.ok v', if (st₁.scope 1).generation = (st.scope 1).generation then st₁.put 1 name v' .derived
          else st₁) := rfl
    rw [hrun, if_pos ha'.steady]
    exact .ok (advances_conclude h ha' h.base_le name v')
      (h.conclude h₁ ha' hK hm hrecalls (hstill a w₁ memo₁ rfl) hdef hgiven hnames) hnames

/-- What a scope holds is what the look-up finds there. -/
theorem slot_matches (h : Mirrors K L room base A st w memo) {c : Scope} (hc : st.scope? s = some c)
    (hf : frame? K (meaning K) w (A.scopes.origin s) = some f) (hr : Reflects K w memo A (A.scopes.origin s) c f)
    {slot : Slot} (hslot : c.slots.get? name = some slot) (n : Nat) :
    Matches K L room base A st (w, memo) (do Eval.record (.cacheHit s name); return slot.value.attach (← get).alive)
      (lookupAlong K (meaning K) (force K (remember K n)) name (A.scopes.origin s :: f.ancestors)) (Named L) := by
  obtain ⟨v, kind⟩ := slot
  have hfound : resolve? K w memo name (A.scopes.origin s :: f.ancestors) = some (v.rename A.codes) := by
    cases kind with
    | bound => exact resolve?_bound hf (by rw [hr.bound, Scope.bound?_eq_some.2 hslot]; rfl)
    | derived => exact hr.derived hslot
  obtain ⟨w', hw, hrun⟩ := lookupAlong_of_resolve? hfound (remember K n)
  have hread : (do Eval.record (.cacheHit s name); return v.attach (← get).alive : Eval Value) st =
      (.ok (v.attach st.alive), st.record (.cacheHit s name)) := rfl
  have hkept : ∀ p ∈ (v.attach st.alive).procedures, L.Mem p.lambda.body ∧ p.hold = .strong := fun p hp =>
    ⟨((h.formed.slots hc hslot).attach p hp).1, ((h.formed.slots hc hslot).attach p hp).2.2⟩
  rw [Matches, hrun, hread]
  exact .ok (.of_scope? rfl (fun _ => rfl) rfl) (h.congr rfl (fun _ => rfl) rfl h.trees h.room_le hw.1 hw.2)
    ⟨Atlas.has_attach (hr.has hslot), hkept, Atlas.rename_attach ..⟩

/-- One scope on the way of a look-up. -/
theorem lookupAlong_step (hK : K.Plain) (hev : Simulates K L room ev (remember K n))
    (h : Mirrors K L room base A st w memo)
    (hs : s ∈ A.scopes.ids) {c : Scope} (hc : st.scope? s = some c)
    (hf : frame? K (meaning K) w (A.scopes.origin s) = some f)
    (hr : Reflects K w memo A (A.scopes.origin s) c f) {up : List ScopeId}
    (hup : Matches K L room base A st (w, memo) (LazyFormula.lookupAlong ev name up)
      (lookupAlong K (meaning K) (force K (remember K n)) name f.ancestors) (Named L)) :
    Matches K L room base A st (w, memo) (LazyFormula.lookupAlong ev name (s :: up))
      (lookupAlong K (meaning K) (force K (remember K n)) name (A.scopes.origin s :: f.ancestors)) (Named L) := by
  have hscope := Store.scope_of_scope? hc
  rw [LazyFormula.lookupAlong]
  refine .get ?_
  rw [hscope]
  cases hslot : c.slots.get? name with
  | some slot =>
    simp only [hslot]
    exact slot_matches h hc hf hr hslot n
  | none =>
    have hb : f.bound.lookup name = none := by
      rw [hr.bound, Scope.bound?_eq_none hslot, Option.map_none]
    have hdef := hr.definitions name
    simp only [hslot]
    cases he : c.definitions.get? name with
    | some e =>
      rw [he] at hdef
      split at hdef
      · rename_i ho
        cases h.scopes s 1 hs h.root_mem (ho.trans h.root.symm)
        have hmatch := force_matches hK hev h (hscope.symm ▸ hslot) hdef.symm (h.formed.definitions hc he)
        rw [hscope] at hmatch
        rw [Matches, lookupAlong_root hf hb ho hdef.symm]
        exact hmatch
      · cases hdef
    | none =>
      rw [he] at hdef
      have ho : ¬ (A.scopes.origin s = .root ∧ (K.definitions.lookup name).isSome) := by
        rintro ⟨ho, hsome⟩
        rw [if_pos ho] at hdef
        rw [← hdef] at hsome
        cases hsome
      rw [Matches, lookupAlong_up hf hb ho]
      exact memoized_matches h hs hf hb ho hup c.generation

/-- **A look-up in a store matches the one in the world that it mirrors.** -/
theorem lookupAlong_matches (hK : K.Plain) (hev : Simulates K L room ev (remember K n))
    (h : Mirrors K L room base A st w memo) (name : String) :
    ∀ (up : List ScopeId) {s : ScopeId} {c : Scope} {f : Frame},
      s ∈ A.scopes.ids → st.scope? s = some c → c.ancestors = up →
        frame? K (meaning K) w (A.scopes.origin s) = some f →
      Matches K L room base A st (w, memo) (LazyFormula.lookupAlong ev name (s :: up))
        (lookupAlong K (meaning K) (force K (remember K n)) name (A.scopes.origin s :: f.ancestors)) (Named L)
  | up, s, c, f, hs, hc, hup, hf => by
    obtain ⟨c', f', hc', hf', hr⟩ := h.scope hs
    cases hc.symm.trans hc'
    cases hf.symm.trans hf'
    refine lookupAlong_step hK hev h hs hc hf hr ?_
    rw [hr.ancestors, hup]
    cases up with
    | nil => exact .fail h hK (.refl _)
    | cons p up =>
      -- the rest of the chain is the chain of the parent
      have hp := hr.above p (hup ▸ List.mem_cons_self)
      obtain ⟨d, g, hd, hg, hrp⟩ := h.scope hp
      have hrest := (h.formed.parented hc hup).2.2
      rw [Store.scope_of_scope? hd] at hrest
      have ih := lookupAlong_matches hK hev h name up hp hd hrest.symm hg
      rwa [hrp.ancestors, ← hrest] at ih

theorem lookup_matches (hK : K.Plain) (hev : Simulates K L room ev (remember K n))
    (h : Mirrors K L room base A st w memo)
    (hs : s ∈ A.scopes.ids) (name : String) : Matches K L room base A st (w, memo) (LazyFormula.lookup ev s name)
      (lookup K (meaning K) (force K (remember K n)) (A.scopes.origin s) name) (Named L) := by
  obtain ⟨c, f, hc, hf, -⟩ := h.scope hs
  refine .get ?_
  rw [Store.chain_of_scope? hc, Matches, lookup, bind_apply, frame_apply hf]
  exact lookupAlong_matches hK hev h name c.ancestors hs hc rfl hf

end Memoryless
end LazyFormula
