import LazyFormula.Proofs.Owners
/-!
# How long a value stays

A written value stays in its scope until the name is written there again or a definition there or above drops it. An
assignment that overwrites a memoized value leaves a memoized value, which stays only until the next write there or
above. Nothing else takes a value away, wherever a history goes: a look-up that began before the value was there finds
that the scope dropped values since, and one that began afterwards finds the value (`History.Held`,
`Host.Reachable.writes_persist`).
-/
namespace LazyFormula

/-- **What takes a value of a name from a scope**, given the scopes that the scope looks names up in. A written value is
taken by a write of the name in the scope and by a definition there or above, a memoized one by every write there or
above. -/
def Event.Takes (chain : List ScopeId) (s : ScopeId) (name : String) : SlotKind → Event → Prop
  | .bound, .invalidation t reach written => t = s ∧ name ∈ written ∨ t ∈ chain ∧ reach = .everything
  | .derived, .invalidation t _ _ => t ∈ chain
  | _, _ => False

namespace Store

variable {L : Fragment} {st : Store} {v : Value}

/-- The procedures of a value outside of scopes hold their scopes. -/
theorem Supports.held_eq (hv : st.Supports L v) : v.mapProcedures Procedure.held = v := by
  refine Value.mapProcedures_eq_self fun p hp => ?_
  rcases p with ⟨l, t, hold⟩
  cases (hv _ hp).2.2
  rfl

end Store

/-- A write that takes no value from a scope leaves it there. -/
theorem Write.Effect.keeps {w : Write} {t s : ScopeId} {st st' : Store} (he : w.Effect t st st') {name : String}
    {slot : Slot} (hs : st'.alive s = true) (hslot : (st.scope s).slots.get? name = some slot)
    (hw : ¬ (Event.invalidation t w.reach w.names).Takes (st.chain s) s name slot.kind) :
    (st'.scope s).slots.get? name = some slot := by
  by_cases hm : t ∈ st.chain s
  · cases hk : slot.kind with
    | derived =>
      rw [hk] at hw
      exact absurd hm hw
    | bound =>
      rw [hk] at hw
      obtain ⟨hname, hreach⟩ := not_or.1 hw
      have hremains : w.remains (some slot) = some slot := by
        cases w with
        | define => exact absurd ⟨hm, rfl⟩ hreach
        | update | assign => simp [remains, hk]
      by_cases hst : s = t
      · subst hst
        have hnone : w.slot? s name = none := by
          have hnot : name ∉ w.names := fun hn => hname ⟨rfl, hn⟩
          cases w with
          | define => rfl
          | update values =>
            rw [slot?, List.lookup_eq_none_iff.2, Option.map_none]
            intro x hx
            rw [bne_iff_ne]
            rintro rfl
            exact hnot (List.mem_map.2 ⟨x, List.mem_reverse.1 hx, rfl⟩)
          | assign n v kind => exact if_neg fun hn => hnot (List.mem_singleton.2 hn)
        rw [(he.here hs name).1, hnone, hslot, hremains]
        rfl
      · rw [(he.below hs hm hst).1, hslot, hremains]
  · rw [(he.elsewhere hs hm).1, hslot]

namespace History

variable {g g₁ g' : History} {events : List Event} {st : Store} {s : ScopeId} {name : String} {slot : Slot}

/-- **A value that is held**: the scope has it, and if it is memoized, then the scope dropped values since any look-up
began that found none there. -/
structure Held (g : History) (s : ScopeId) (name : String) (slot : Slot) : Prop where
  here : (g.now.scope s).slots.get? name = some slot
  since {began : Store} : slot.kind = .derived → began ∈ g.stores → began.alive s = true →
    (began.scope s).slots.get? name = none → (began.scope s).generation < (g.now.scope s).generation

theorem Change.keeps (hc : Change g events st) (hg : g.Sound) (hh : g.Held s name slot) (hlt : s < g.now.scopes.size)
    (hs : st.alive s = true) (hw : ∀ e ∈ events, ¬ e.Takes (g.now.chain s) s name slot.kind) :
    (st.scope s).slots.get? name = some slot := by
  have hslot := hh.here
  have hquiet : g.now.Quiet st → (st.scope s).slots.get? name = some slot := fun hq => by rwa [hq.slots hlt hs]
  cases hc with
  | aside _ hsize hs => exact hquiet (Store.quiet_of_scope? hsize hs)
  | orphan maxDepth => exact hquiet (Store.quiet_addOrphan _ maxDepth)
  | child hp hv => exact hquiet (Store.quiet_addChild hp _)
  | fade hf => exact hquiet hf.quiet
  | @memoize began t n v hbegan hbs hnone hfound halive hgen hv =>
    rw [Store.slot_put _ ((Store.alive_put ..).symm.trans hs), if_neg, hslot]
    -- a look-up that found no value of the name began too early
    rintro ⟨rfl, rfl⟩
    cases hk : slot.kind with
    | bound =>
      have hb := hg.bound?_of_began hbegan hbs hnone halive hgen
      rw [Scope.bound?_of_slot hslot hk] at hb
      cases hb
    | derived => exact Nat.ne_of_gt (hh.since hk hbegan hbs hnone) hgen
  | @write t w ht hv => exact (Write.effect_run hg.now ht w).keeps hs hslot (hw _ (w.invalidation_mem_events t))

theorem Change.held (hc : Change g events st) (hg : g.Sound) (hh : g.Held s name slot) (hs : g.now.alive s = true)
    (hs' : st.alive s = true) (hw : ∀ e ∈ events, ¬ e.Takes (g.now.chain s) s name slot.kind) :
    (g.next st).Held s name slot := by
  have hslot := hc.keeps hg hh (Store.lt_size_of_alive hs) hs' hw
  refine ⟨hslot, fun {began} hk hbegan hbs hnone => ?_⟩
  rcases List.mem_cons.1 hbegan with rfl | hbegan
  · rw [hslot] at hnone
    cases hnone
  · exact Nat.lt_of_lt_of_le (hh.since hk hbegan hbs hnone) ((hc.formed hg).2.generation hs hs')

/-- **A value that is held stays**, as long as the scope lives and nothing takes the value away. -/
theorem Path.held (hp : Path g events g') (hg : g.Sound) (hh : g.Held s name slot) (hs : g.now.alive s = true)
    (hs' : g'.now.alive s = true) (hw : ∀ e ∈ events, ¬ e.Takes (g.now.chain s) s name slot.kind) :
    g'.Held s name slot := by
  induction hp with
  | refl => exact hh
  | @step events new g₁ st hp hc ih =>
    have hg₁ := hp.sound hg
    have hpre := hg₁.precedes (hp.stores_subset List.mem_cons_self)
    have hs₁ : g₁.now.alive s = true :=
      (hc.formed hg₁).2.alive (Nat.lt_of_lt_of_le (Store.lt_size_of_alive hs) hpre.size) hs'
    have hh₁ := ih hs₁ fun e he => hw e (List.mem_append_right _ he)
    refine hc.held hg₁ hh₁ hs₁ hs' fun e he => ?_
    rw [hpre.chain hs hs₁]
    exact hw e (List.mem_append_left _ he)

/-- **A scope keeps answering with a value** wherever a history goes from here, until something takes it away. -/
def Answers (g : History) (s : ScopeId) (name : String) (v : Value) (kind : SlotKind) : Prop :=
  ∀ events g', Path g events g' → (∀ e ∈ events, ¬ e.Takes (g.now.chain s) s name kind) →
    g'.now.alive s = true →
    (Eval.lookup s name g'.now).1 = .ok v

theorem Held.answering (hh : g.Held s name slot) (hg : g.Sound) (hs : g.now.alive s = true) :
    g.Answers s name (slot.value.mapProcedures Procedure.held) slot.kind := by
  intro events g' hp hw hs'
  have hslot := (hp.held hg hh hs hs' hw).here
  have hkeeps := (hp.sound hg).now.slots (Store.scope?_eq_of_alive hs') hslot
  rw [Store.lookup_of_slot hslot, hkeeps.attach_eq]

/-- What a write stores is held from then on. -/
theorem Sound.held_write (hg : g.Sound) {w : Write} (hs : g.now.alive s = true)
    (hv : ∀ v ∈ w.values, g.now.Supports .full v) (hslot : w.slot? s name = some slot) :
    (g.next (w.run s g.now)).Held s name slot := by
  have hc : Change g (w.events s) (w.run s g.now) := .write w hs hv
  obtain ⟨c', hc', -, hgen, -⟩ := Write.scope?_run hg.now hs w (Store.scope?_eq_of_alive hs)
  have hs' := Store.alive_of_scope? hc'
  have hnow : ((w.run s g.now).scope s).slots.get? name = some slot := by
    rw [((Write.effect_run hg.now hs w).here hs' name).1, hslot]
    rfl
  refine ⟨hnow, fun {began} _ hbegan hbs hnone => ?_⟩
  rcases List.mem_cons.1 hbegan with rfl | hbegan
  · cases hnow.symm.trans hnone
  · have hlt := hgen List.mem_cons_self
    rw [← Store.scope_of_scope? hc'] at hlt
    exact Nat.lt_of_le_of_lt ((hg.precedes hbegan).generation hbs hs) hlt

theorem Sound.answers_write (hg : g.Sound) {w : Write} {v : Value} {kind : SlotKind} (hs : g.now.alive s = true)
    (hv : ∀ v ∈ w.values, g.now.Supports .full v) (hvm : v ∈ w.values)
    (hslot : w.slot? s name = some ⟨v.detach s, kind⟩) :
    (g.next (w.run s g.now)).Answers s name v kind := by
  have ha := (hg.held_write hs hv hslot).answering (hg.next (.write w hs hv)) (Write.alive_run hg.now hs w hs)
  rwa [(v.agrees_detach s).trans (hv v hvm).held_eq] at ha

theorem Sound.answers_update (hg : g.Sound) (hs : g.now.alive s = true) {values : List (String × Value)} {v : Value}
    (hv : ∀ x ∈ values, g.now.Supports .full x.2) (hlookup : values.reverse.lookup name = some v) :
    (g.next (g.now.update s values)).Answers s name v .bound := by
  have hmem : (name, v) ∈ values := mem_of_lookup_reverse hlookup
  have hvalues : ∀ w ∈ (Write.update values).values, g.now.Supports .full w := List.forall_mem_map.2 hv
  refine hg.answers_write (w := .update values) hs hvalues (List.mem_map.2 ⟨_, hmem, rfl⟩) ?_
  rw [Write.slot?, hlookup]
  rfl

/-- An assignment stores the value at its target, in the slot that is there. -/
theorem Sound.answers_assign (hg : g.Sound) (hs : g.now.alive s = true) {v : Value} (hv : g.now.Supports .full v)
    (ha : g.now.assign? s name v = some st) :
    ∃ t slot, g.now.target? s name = some t ∧ (g.now.scope t).slots.get? name = some slot ∧
      (g.next st).Answers t name v slot.kind := by
  obtain ⟨t, htarget⟩ : ∃ t, g.now.target? s name = some t := by
    refine Option.ne_none_iff_exists'.1 fun hnone => ?_
    rw [Store.assign?_eq_none_iff.2 hnone] at ha
    cases ha
  have hassignable := List.find?_some (p := fun t => (g.now.scope t).assignable name) htarget
  obtain ⟨⟨slot, hslot⟩, -⟩ := Scope.assignable_iff.1 hassignable
  cases (Store.assign?_of_target htarget hslot).symm.trans ha
  have ht := (hg.now.alive_of_mem_chain hs (List.mem_of_find?_eq_some htarget)).1
  refine ⟨t, slot, htarget, hslot, ?_⟩
  refine hg.answers_write (w := .assign name v slot.kind) ht (List.forall_mem_singleton.2 hv) List.mem_cons_self ?_
  exact if_pos rfl

/-- A new scope answers with what it was made with. -/
theorem Sound.answers_addChild (hg : g.Sound) {p : ScopeId} (hp : g.now.alive p = true)
    {values : List (String × Value)} {v : Value} (hv : ∀ x ∈ values, g.now.Supports .full x.2)
    (hlookup : values.reverse.lookup name = some v) :
    (g.next (g.now.addChild p values).2).Answers g.now.scopes.size name v .bound := by
  have hheld : (g.next (g.now.addChild p values).2).Held g.now.scopes.size name ⟨v, .bound⟩ := by
    refine ⟨?_, nofun⟩
    show ((g.now.addChild p values).2.scope _).slots.get? name = _
    rw [Store.scope, Store.scope?_addChild hp, if_pos rfl, Option.getD_some, Store.get?_newborn, hlookup]
    rfl
  have ha := hheld.answering (hg.next (.child hp hv)) (Store.alive_addChild_size hp values)
  rwa [(hv _ (mem_of_lookup_reverse hlookup)).held_eq] at ha

end History

/-! ## A program that assigns -/

/-- The program that reads a name, assigns it, binds another one and reads the first again. -/
def Expr.rebinding (name other : String) (x y : Number) : Expr :=
  .list [.symbol "begin", .symbol name, .assignment name (.number x),
    .list [.symbol "define", .symbol other, .number y], .symbol name]

example : (Expr.rebinding "a" "b" (.int 5) (.int 0)).text = "(begin a (set! a 5) (define b 0) a)" := by
  decide +kernel

/-- **A computation ends** with a value and a store of which a condition holds. -/
def Eval.Ends {α : Type} (x : Eval α) (st : Store) (P : α → Store → Prop) : Prop :=
  ∃ a st', x st = (.ok a, st') ∧ P a st'

namespace Eval.Ends

variable {α β : Type} {x : Eval α} {f : α → Eval β} {st : Store} {P : α → Store → Prop}
  {Q : β → Store → Prop}

theorem pure {a : α} (h : P a st) : Ends (pure a) st P := ⟨a, st, rfl, h⟩

theorem bind (hx : x.Ends st P) (hf : ∀ a st', P a st' → (f a).Ends st' Q) : (x >>= f).Ends st Q := by
  obtain ⟨a, st₁, hx, ha⟩ := hx
  obtain ⟨b, st', hf, hb⟩ := hf a st₁ ha
  exact ⟨b, st', bind_eq_ok.2 ⟨a, st₁, hx, hf⟩, hb⟩

/-- What reads the store goes on with the store. -/
theorem get {f : Store → Eval β} (h : (f st).Ends st Q) : (MonadState.get >>= f).Ends st Q := h

/-- What is computed last for the items of a list. -/
theorem mapM_singleton {a : β} {f : β → Eval Value} {r : Value} {R : Store → Prop}
    (ha : (f a).Ends st fun b st' => b = r ∧ R st') :
    ([a].mapM f).Ends st fun bs st' => bs.getLast? = some r ∧ R st' := by
  rw [List.mapM_cons]
  refine ha.bind ?_
  rintro _ st₁ ⟨rfl, hR⟩
  exact ⟨_, _, rfl, rfl, hR⟩

theorem mapM_cons {a : β} {l : List β} {f : β → Eval Value} {P : Value → Store → Prop} {r : Value}
    {R : Store → Prop}
    (ha : (f a).Ends st P)
    (hl : ∀ b st', P b st' → (l.mapM f).Ends st' fun bs st'' => bs.getLast? = some r ∧ R st'') :
    ((a :: l).mapM f).Ends st fun bs st' => bs.getLast? = some r ∧ R st' := by
  rw [List.mapM_cons]
  refine ha.bind fun b st₁ hb => (hl b st₁ hb).bind ?_
  rintro bs st₂ ⟨hlast, hR⟩
  refine .pure ⟨?_, hR⟩
  rw [List.getLast?_cons, hlast]
  rfl

theorem imp {P' : α → Store → Prop} (hx : x.Ends st P) (h : ∀ a st', P a st' → P' a st') : x.Ends st P' := by
  obtain ⟨a, st', hx, ha⟩ := hx
  exact ⟨a, st', hx, h a st' ha⟩

end Eval.Ends

namespace Store

variable {st st' : Store} {s t : ScopeId} {name n : String} {v w : Value}

/-- **A scope that has a written value of a name** and does not define it, in a formed store. -/
structure Has (st : Store) (s : ScopeId) (name : String) (v : Value) : Prop where
  formed : st.Formed .full
  alive : st.alive s = true
  slot : (st.scope s).slots.get? name = some ⟨v, .bound⟩
  undefined : (st.scope s).definitions.get? name = none

theorem Has.congr (h : st.Has s name v) (hsize : st'.scopes.size = st.scopes.size)
    (hs : ∀ t, st'.scope? t = st.scope? t) : st'.Has s name v := by
  have hscope : st'.scope s = st.scope s := by rw [scope, hs, scope]
  refine ⟨h.formed.congr hsize hs, ?_, hscope ▸ h.slot, hscope ▸ h.undefined⟩
  rw [Store.alive, hs]
  exact h.alive

theorem Has.withTrees (h : st.Has s name v) (T : Array Tree) : (st.withTrees T).Has s name v := h.congr rfl fun _ => rfl

/-- What other names get does not matter. -/
theorem Has.put (h : st.Has s name v) (hw : w.procedures = []) (hne : name ≠ n) (t : ScopeId) (kind : SlotKind) :
    (st.put t n w kind).Has s name v := by
  have hformed := h.formed.put (supports_of_procedures_eq_nil hw) t n kind
  have halive : (st.put t n w kind).alive s = true := (alive_put ..).trans h.alive
  refine ⟨hformed, halive, ?_, ?_⟩
  · rw [slot_put _ h.alive, if_neg fun he => hne he.2, h.slot]
  · rw [definitions_put, h.undefined]

theorem Has.run (h : st.Has s name v) {write : Write} (hv : ∀ v ∈ write.values, st.Supports .full v)
    (hslot : (write.slot? s name).or (write.remains (some ⟨v, .bound⟩)) = some ⟨w, .bound⟩)
    (hdef : write.definition? name = none) : (write.run s st).Has s name w := by
  have he := Write.effect_run h.formed h.alive write
  have ha := Write.alive_run h.formed h.alive write h.alive
  obtain ⟨hhere, hdefs⟩ := he.here ha name
  refine ⟨Write.formed_run h.formed hv, ha, ?_, ?_⟩
  · rw [hhere, h.slot, hslot]
  · rw [hdefs, hdef, h.undefined]
    rfl

/-- What is memoized under other names does not matter. -/
theorem Has.memoize (h : st.Has s name v) (hw : w.procedures = []) (hne : name ≠ n) (t : ScopeId) (generation : Nat) :
    (LazyFormula.memoize t n generation w).Ends st fun _ st' => st'.Has s name v := by
  refine ⟨(), _, rfl, ?_⟩
  dsimp only
  split
  · exact h.put hw hne t .derived
  · exact h

/-- A look-up of another name that ends at a value without procedures. -/
theorem Has.lookupAlong (h : st.Has s name v) (hne : name ≠ n) {slot : Slot} {above : List ScopeId}
    (hslot : (st.scope t).slots.get? n = some slot) (hw : slot.value.procedures = []) (ev : Evaluator) :
    ∀ {way : List ScopeId},
      (∀ u ∈ way, (st.scope u).slots.get? n = none ∧ (st.scope u).definitions.get? n = none) →
      (LazyFormula.lookupAlong ev n (way ++ t :: above)).Ends st fun w st' => w = slot.value ∧ st'.Has s name v
  | [], _ => by
    have hattach : slot.value.attach st.alive = slot.value := Value.mapProcedures_eq_self fun q hq => by
      rw [hw] at hq
      cases hq
    rw [List.nil_append, LazyFormula.lookupAlong]
    refine .get ?_
    simp only [hslot]
    exact ⟨_, _, rfl, hattach, h.congr rfl fun _ => rfl⟩
  | u :: way, hway => by
    obtain ⟨hnone, hdef⟩ := hway u List.mem_cons_self
    rw [List.cons_append, LazyFormula.lookupAlong]
    refine .get ?_
    simp only [hnone, hdef]
    refine (Has.lookupAlong h hne hslot hw ev fun x hx => hway x (List.mem_cons_of_mem _ hx)).bind ?_
    rintro _ st₁ ⟨rfl, h₁⟩
    exact (h₁.memoize hw hne u _).bind fun _ _ h₂ => .pure ⟨rfl, h₂⟩

theorem evaluateBody_list {ev : Evaluator} {items : List Expr} {form : Form} (hform : Form.ofItems items = .ok form) :
    evaluateBody ev (.list items) s = evaluateForm ev s form := by
  rw [evaluateBody, hform]
  rfl

/-- How many more evaluations a scope admits. -/
def roomOf (st : Store) (s : ScopeId) : Nat := roomAt st.trees (st.scope s).tree

/-- An evaluation for which there is room does what its body does. It leaves the room that there was. -/
theorem Has.evaluate (h : st.Has s name v) (hroom : 0 < st.roomOf s) {depth : Nat} {e : Expr} {P : Value → Prop}
    (hbody : (evaluateBody (evaluateWithin depth) e s).Ends (st.withTrees (entered st.trees (st.scope s).tree))
      fun r st' => P r ∧ st'.Has s name w) :
    (evaluateWithin (depth + 1) e s).Ends st fun r st' => P r ∧ st'.Has s name w ∧ st'.roomOf s = st.roomOf s := by
  obtain ⟨r, st₁, hx, hr, hhas⟩ := hbody
  have heq : evaluateWithin (depth + 1) e s st = (.ok r, st₁.setDepth (st.scope s).tree (· - 1)) := by
    have hstep : evaluateWithin (depth + 1) e s = Eval.nested s (evaluateBody (evaluateWithin depth) e s) := rfl
    have hentered : evaluateBody (evaluateWithin depth) e s (st.setDepth (st.scope s).tree (· + 1)) =
        (.ok r, st₁) := hx
    rw [hstep]
    unfold Eval.nested
    dsimp only
    rw [if_pos (roomAt_pos.1 hroom), hentered]
  refine ⟨r, _, heq, hr, hhas.withTrees _, ?_⟩
  have ht := trees_evaluateWithin (depth + 1) e s st
  have hready : st.Ready .full fun _ => True := ⟨h.formed, fun _ => trivial⟩
  have hm : Moves .full (fun _ => True) st (evaluateWithin (depth + 1) e s st).2 :=
    (evaluateWithin_sound (depth + 1) hready trivial h.alive trivial).1
  obtain ⟨events, he⟩ := hm.evolves
  obtain ⟨c', hc', hev⟩ := he.scope (scope?_eq_of_alive h.alive)
  rw [heq] at ht hc'
  rw [roomOf, roomOf, ht, scope_of_scope? hc', hev.tree]

/-- There is one less room for what an evaluation evaluates. -/
theorem roomOf_entered (st : Store) (s : ScopeId) :
    (st.withTrees (entered st.trees (st.scope s).tree)).roomOf s = st.roomOf s - 1 :=
  (roomAt_entered ..).trans (if_pos rfl)

theorem Has.evaluate_number (h : st.Has s name v) (hroom : 0 < st.roomOf s) (depth : Nat) (x : Number) :
    (evaluateWithin (depth + 1) (.number x) s).Ends st fun r st' =>
      r = .number x ∧ st'.Has s name v ∧ st'.roomOf s = st.roomOf s :=
  h.evaluate hroom (.pure ⟨rfl, h.withTrees _⟩)

/-- The name is read. -/
theorem Has.evaluate_name (h : st.Has s name v) (hroom : 0 < st.roomOf s) (depth : Nat) :
    (evaluateWithin (depth + 1) (.symbol name) s).Ends st fun r st' =>
      r = v.attach st.alive ∧ st'.Has s name v ∧ st'.roomOf s = st.roomOf s := by
  refine h.evaluate hroom (.get ?_)
  rw [chain, LazyFormula.lookupAlong]
  have hslot : (Store.scope (st.withTrees (entered st.trees (st.scope s).tree)) s).slots.get? name =
      some ⟨v, .bound⟩ :=
    h.slot
  refine .get ?_
  simp only [hslot]
  exact ⟨_, _, rfl, rfl, h.congr rfl fun _ => rfl⟩

/-- The name is assigned a number. -/
theorem Has.evaluate_assign (h : st.Has s name v) (hroom : 1 < st.roomOf s) (depth : Nat) (x : Number) :
    (evaluateWithin (depth + 2) (.assignment name (.number x)) s).Ends st fun r st' =>
      r = .unspecified ∧ st'.Has s name (.number x) ∧ st'.roomOf s = st.roomOf s := by
  refine h.evaluate (Nat.lt_of_succ_lt hroom) ?_
  rw [Expr.assignment, evaluateBody_list rfl]
  have hentered := h.withTrees (entered st.trees (st.scope s).tree)
  refine (hentered.evaluate_number ?_ depth x).bind ?_
  · rw [roomOf_entered]
    exact Nat.sub_pos_of_lt hroom
  rintro _ st₁ ⟨rfl, h₁, -⟩
  have htarget : st₁.target? s name = some s := by
    refine List.find?_cons_of_pos (Scope.assignable_iff.2 ⟨⟨_, h₁.slot⟩, h₁.undefined⟩)
  have hsome : st₁.assign? s name (.number x) = some ((Write.assign name (.number x) .bound).run s st₁) :=
    assign?_of_target htarget h₁.slot
  refine .get ?_
  rw [hsome]
  refine ⟨_, _, rfl, rfl, h₁.run (List.forall_mem_singleton.2 nofun) ?_ rfl⟩
  rw [Write.slot?, if_pos rfl]
  rfl

/-- Another name is bound to a number. -/
theorem Has.evaluate_define (h : st.Has s name v) (hne : name ≠ n) (hroom : 1 < st.roomOf s) (depth : Nat)
    (x : Number) :
    (evaluateWithin (depth + 2) (.list [.symbol "define", .symbol n, .number x]) s).Ends st fun r st' =>
      r = .unspecified ∧ st'.Has s name v ∧ st'.roomOf s = st.roomOf s := by
  refine h.evaluate (Nat.lt_of_succ_lt hroom) ?_
  rw [evaluateBody_list rfl]
  have hentered := h.withTrees (entered st.trees (st.scope s).tree)
  refine (hentered.evaluate_number ?_ depth x).bind ?_
  · rw [roomOf_entered]
    exact Nat.sub_pos_of_lt hroom
  rintro _ st₁ ⟨rfl, h₁, -⟩
  have hrun : ((Write.update [(n, .number x)]).run s st₁).Has s name v := by
    refine h₁.run (List.forall_mem_singleton.2 nofun) ?_ rfl
    have hnone : ([(n, Value.number x)] : List (String × Value)).reverse.lookup name = none := by
      simp [List.lookup_cons, beq_false_of_ne hne]
    rw [Write.slot?, hnone]
    rfl
  exact ⟨_, _, rfl, rfl, hrun⟩

/-- **The nearest that a scope knows of a name is a value.** -/
def Nearest (st : Store) (s : ScopeId) (name : String) (v : Value) : Prop :=
  ∃ way t above kind, st.chain s = way ++ t :: above ∧ (st.scope t).slots.get? name = some ⟨v, kind⟩ ∧
    ∀ u ∈ way, (st.scope u).slots.get? name = none ∧ (st.scope u).definitions.get? name = none

/-- Another name is read that is near. -/
theorem Has.evaluate_near (h : st.Has s name v) (hne : name ≠ n) (hn : st.Nearest s n w) (hw : w.procedures = [])
    (hroom : 0 < st.roomOf s) (depth : Nat) :
    (evaluateWithin (depth + 1) (.symbol n) s).Ends st fun r st' =>
      r = w ∧ st'.Has s name v ∧ st'.roomOf s = st.roomOf s := by
  obtain ⟨way, t, above, kind, hchain, hslot, hway⟩ := hn
  refine h.evaluate hroom (.get ?_)
  have hchain' : (st.withTrees (entered st.trees (st.scope s).tree)).chain s = way ++ t :: above := hchain
  rw [hchain']
  exact (h.withTrees (entered st.trees (st.scope s).tree)).lookupAlong hne hslot hw _ hway

/-- What is called to begin answers with the last argument. -/
theorem callValue_begin {b : Builtin} {args : List Value} {ev : Evaluator} (hb : b.action = .primitive .begin)
    (hlast : args.getLast? = some v) : callValue ev (.builtin b) args = pure v := by
  have hrun : Primitive.begin.run args = .ok v := by
    rw [Primitive.run, hlast]
    rfl
  show callBuiltin _ b args = _
  unfold callBuiltin
  rw [hb]
  show Eval.ofExcept (Primitive.begin.run args) = _
  rw [hrun]
  rfl

/-- **The program ends with what it assigned**, where the name has a written value in the scope that evaluates it. -/
theorem Has.evaluate_rebinding {other : String} {b : Builtin} (h : st.Has s name v) (hne : name ≠ other)
    (hname : name ≠ "begin") (hb : b.action = .primitive .begin) (hn : st.Nearest s "begin" (.builtin b))
    (hroom : 2 < st.roomOf s) (depth : Nat) (x y : Number) :
    (evaluateWithin (depth + 3) (.rebinding name other x y) s).Ends st fun r st' =>
      r = .number x ∧ st'.Has s name (.number x) ∧ st'.roomOf s = st.roomOf s := by
  refine h.evaluate (Nat.zero_lt_of_lt hroom) ?_
  rw [Expr.rebinding, evaluateBody_list rfl]
  have hentered := h.withTrees (entered st.trees (st.scope s).tree)
  have hroom' : 1 < (st.withTrees (entered st.trees (st.scope s).tree)).roomOf s := by
    rw [roomOf_entered]
    omega
  refine (hentered.evaluate_near hname hn rfl (Nat.zero_lt_of_lt hroom') _).bind ?_
  rintro _ st₁ ⟨rfl, h₁, hr₁⟩
  rw [← hr₁] at hroom'
  refine Eval.Ends.bind (P := fun args st' => args.getLast? = some (.number x) ∧ st'.Has s name (.number x)) ?_ ?_
  · refine .mapM_cons (h₁.evaluate_name (Nat.zero_lt_of_lt hroom') _) ?_
    rintro _ st₂ ⟨-, h₂, hr₂⟩
    refine .mapM_cons (h₂.evaluate_assign (hr₂ ▸ hroom') _ x) ?_
    rintro _ st₃ ⟨-, h₃, hr₃⟩
    refine .mapM_cons (h₃.evaluate_define hne (hr₃ ▸ hr₂ ▸ hroom') _ y) ?_
    rintro _ st₄ ⟨-, h₄, hr₄⟩
    refine .mapM_singleton ((h₄.evaluate_name (hr₄ ▸ hr₃ ▸ hr₂ ▸ Nat.zero_lt_of_lt hroom') _).imp ?_)
    rintro r st₅ ⟨rfl, h₅, -⟩
    exact ⟨rfl, h₅⟩
  · rintro args st₂ ⟨hlast, h₂⟩
    rw [callValue_begin hb hlast]
    exact .pure ⟨rfl, h₂⟩

end Store

namespace Host

variable {h : Host}

open History in
/-- **Writes keep what other writes stored.** At every point that is reached after whatever a host did, also within an
evaluation: what hosts and evaluations do from there are paths through changes that they log. A scope keeps answering
with what an update or a call bound in it until the name is written there again or something is defined there or above;
it keeps answering with what an assignment stored in it as long if the name had a written value there, and until the
next write there or above if it had a memoized one. So a program that reads a name, assigns it, binds another name and
reads the first again ends with what it assigned where the name has a written value in the scope that evaluates it. -/
theorem Reachable.writes_persist (hr : Reachable .full h) {before : List Event} {g : History}
    (hg : Path ⟨[], h.store⟩ before g) :
    -- what happens later
    (∀ (h₁ : Host) events h', h₁.store = g.now → h₁.Formed .full → Run .full h₁ events h' →
      ∃ events' past', Path g events' ⟨past', h'.store⟩ ∧ events' ⊆ events) ∧
    (∀ e E, g.now.alive E = true → ∃ events past', Path g events ⟨past', (Eval.evaluateIn e E g.now).2⟩ ∧
      (Eval.evaluateIn e E g.now).2.log = events ++ g.now.log) ∧
    -- what is bound
    (∀ S values name v, g.now.alive S = true → (∀ x ∈ values, g.now.Supports .full x.2) →
      values.reverse.lookup name = some v → (g.next (g.now.update S values)).Answers S name v .bound) ∧
    (∀ p values name v, g.now.alive p = true → (∀ x ∈ values, g.now.Supports .full x.2) →
      values.reverse.lookup name = some v →
      (g.next (g.now.addChild p values).2).Answers (g.now.addChild p values).1 name v .bound) ∧
    -- what is assigned
    (∀ E name v st', g.now.alive E = true → g.now.Supports .full v → g.now.assign? E name v = some st' →
      ∃ S slot, g.now.target? E name = some S ∧ (g.now.scope S).slots.get? name = some slot ∧
        (g.next st').Answers S name v slot.kind) ∧
    -- the program
    ∀ S name other v b x y, g.now.alive S = true → (g.now.scope S).bound? name = some v →
      (g.now.scope S).definitions.get? name = none → name ≠ other → name ≠ "begin" →
      b.action = .primitive .begin → g.now.Nearest S "begin" (.builtin b) → 3 ≤ g.now.roomOf S →
      (Eval.evaluateIn (.rebinding name other x y) S g.now).1 = .ok (.number x) := by
  have hsound := hg.sound (sound_of_formed hr.formed.store)
  have hf := hsound.now
  have hready : g.now.Ready .full fun _ => True := ⟨hf, fun _ => trivial⟩
  refine ⟨?_, fun e E hE => ?_, ?_, ?_, ?_, ?_⟩
  · intro h₁ events h' hstore hformed hrun
    obtain ⟨events', past', hp, hsub⟩ := hrun.path hformed g.past
    rw [hstore] at hp
    exact ⟨events', past', hp, hsub⟩
  · have hrec : Store.Recorded (fun _ => True) g.now (Eval.evaluateIn e E g.now).2 :=
      (Eval.evaluateIn_yields hready trivial hE trivial).1
    exact hrec.path g.past
  · exact fun S values name v hS hv hlookup => hsound.answers_update hS hv hlookup
  · exact fun p values name v hp hv hlookup => hsound.answers_addChild hp hv hlookup
  · exact fun E name v st' hE hv ha => hsound.answers_assign hE hv ha
  · intro S name other v b x y hS hbound hdef hne hname hb hnear hroom
    have hhas : g.now.Has S name v := ⟨hf, hS, Scope.bound?_eq_some.1 hbound, hdef⟩
    obtain ⟨depth, hdepth⟩ := Nat.exists_eq_add_of_le' (Nat.le_trans hroom (roomAt_le_depthLeft g.now _))
    obtain ⟨r, st', hr, rfl, -⟩ := hhas.evaluate_rebinding hne hname hb hnear hroom depth x y
    rw [Eval.evaluateIn, Eval.withEvaluator_apply, hdepth, hr]

/-- A host of a root that has a value and can begin, with a scope below it. -/
def rebinding : Host :=
  let root := (Store.empty.addOrphan 10).2.update 0 [("a", .int 1), ("begin", .builtin ⟨0, .primitive .begin⟩)]
  ⟨(root.addChild 0 []).2, [1, 0], []⟩

theorem reachable_rebinding : Reachable .full rebinding := by
  have hroot : Reachable .full ⟨(Store.empty.addOrphan 10).2, [0], []⟩ := .step .init (.root 10 true)
  have hbound : Reachable .full ⟨(Store.empty.addOrphan 10).2.update 0
      [("a", .int 1), ("begin", .builtin ⟨0, .primitive .begin⟩)], [0], []⟩ :=
    .step hroot (.update (List.mem_singleton_self 0) (by simp [Knows, Value.int, Value.procedures]))
  exact .step hbound (.child (List.mem_singleton_self 0) (List.forall_mem_nil _))

/-- In the root the program ends with what it assigned, and what was bound there outlives another update. -/
theorem writes_persist_of_rebinding :
    (Eval.evaluateIn (.rebinding "a" "b" (.int 5) (.int 0)) 0 rebinding.store).1 = .ok (.int 5) ∧
      (Eval.lookup 0 "a" ((rebinding.store.update 0 [("a", .int 7)]).update 0 [("b", .int 8)])).1 = .ok (.int 7) := by
  obtain ⟨-, -, hupdate, -, -, hprogram⟩ := reachable_rebinding.writes_persist .refl
  refine ⟨hprogram 0 "a" "b" (.int 1) ⟨0, .primitive .begin⟩ _ _ rfl rfl rfl (by decide)
    (by decide) rfl ?_ ?_, ?_⟩
  · exact ⟨[], 0, [], .bound, rfl, rfl, nofun⟩
  · decide
  · have hanswers := hupdate 0 [("a", .int 7)] "a" (.int 7) rfl
      (fun x hx => by rw [List.mem_singleton.1 hx]; exact nofun) rfl
    have halive : (rebinding.store.update 0 [("a", .int 7)]).alive 0 = true := Store.alive_update ..
    generalize rebinding.store.update 0 [("a", .int 7)] = st at hanswers halive
    have hwrite := History.Change.write (g := ⟨[rebinding.store], st⟩) (.update [("b", .int 8)]) halive
      fun v hv => by rw [List.mem_singleton.1 hv]; exact nofun
    have hanswer := hanswers _ _ hwrite.path
    refine hanswer (fun e he => ?_) ((Store.alive_update ..).trans halive)
    rw [List.mem_singleton.1 he]
    rintro (⟨-, hm⟩ | ⟨-, hr⟩)
    · exact absurd hm (by decide)
    · cases hr

/-- **An assigned copy does not outlive the next write.** In a scope below the root the program reads the name of the
root first, so it assigns the copy, and binding another name drops that: the program ends with what the root has. A
host that assigns the copy and binds another name there loses what it assigned, too. -/
theorem assigned_copy_dropped :
    Reachable .full rebinding ∧ (rebinding.store.scope 0).bound? "a" = some (.int 1) ∧
      (Eval.evaluate (.rebinding "a" "b" (.int 5) (.int 0)) 0 rebinding.store).1 = .ok (.int 1) ∧
      ∃ st, (Eval.lookup 1 "a" rebinding.store).2.assign? 1 "a" (.int 5) = some st ∧
        (Eval.lookup 1 "a" st).1 = .ok (.int 5) ∧ (Eval.lookup 1 "a" (st.add 1 "b" (.int 0))).1 = .ok (.int 1) ∧
        Value.int 1 ≠ .int 5 := by
  refine ⟨reachable_rebinding, rfl, ?_, _, rfl, rfl, rfl, by simp [Value.int]⟩
  rw [Eval.evaluate, Eval.child_apply, Eval.evaluateIn, Eval.withEvaluator_apply]
  rfl

end Host
end LazyFormula
