import LazyFormula.Proofs.Lifetimes
import LazyFormula.Proofs.Roots
import LazyFormula.Proofs.Yields
import LazyFormula.Session
/-!
# Hosts

A host holds scopes and values, and works with the store through them: it makes scopes, writes, defines, evaluates,
calls and lets go, in any order. It puts values together as it likes, but a procedure comes only from a value that it
was given. Whatever it does, the store is formed and all that it holds lives (`Reachable.formed`).
-/
namespace LazyFormula

variable {L : Fragment}

/-- **A host**: the store with the scopes and the values that it holds. -/
structure Host where
  store : Store
  scopes : List ScopeId
  values : List Value

namespace Host

/-- A value that a host can put together: it was given the procedures in it. -/
def Knows (h : Host) (v : Value) : Prop := ∀ p ∈ v.procedures, ∃ w ∈ h.values, p ∈ w.procedures

/-- The scopes that a host keeps alive. -/
def held (h : Host) : List ScopeId := h.scopes ++ h.values.flatMap Value.held

/-- A host after a computation: it holds what was returned. -/
def after (h : Host) (r : Except EvalError Value × Store) : Host where
  store := r.2
  scopes := h.scopes
  values := match r.1 with
    | .ok v => v :: h.values
    | .error _ => h.values

/-- **One step of a host** that writes expressions of a fragment. -/
inductive Step (L : Fragment) (h : Host) : Host → Prop
  | root (maxDepth : Nat) (bare : Bool) : Step L h ⟨(Session.addRoot h.store maxDepth bare).2,
      (Session.addRoot h.store maxDepth bare).1 :: h.scopes, h.values⟩
  | child {s : ScopeId} {values : List (String × Value)} (hs : s ∈ h.scopes) (hv : ∀ x ∈ values, h.Knows x.2) :
      Step L h ⟨(h.store.addChild s values).2, (h.store.addChild s values).1 :: h.scopes, h.values⟩
  | parent {s p : ScopeId} (hs : s ∈ h.scopes) (hp : (h.store.scope s).parent? = some p) :
      Step L h { h with scopes := p :: h.scopes }
  /-- The number of a new builtin. -/
  | fresh : Step L h { h with store := h.store.takeFresh.2 }
  | define {s : ScopeId} {e : Expr} (name : String) (hs : s ∈ h.scopes) (he : L.Mem e) :
      Step L h { h with store := h.store.define s name e }
  | update {s : ScopeId} {values : List (String × Value)} (hs : s ∈ h.scopes) (hv : ∀ x ∈ values, h.Knows x.2) :
      Step L h { h with store := h.store.update s values }
  | assign {s : ScopeId} {name : String} {v : Value} {st : Store} (hs : s ∈ h.scopes) (hL : L.assigns)
      (hv : h.Knows v) (ha : h.store.assign? s name v = some st) : Step L h { h with store := st }
  | evaluate {s : ScopeId} {e : Expr} (hs : s ∈ h.scopes) (he : L.Mem e) :
      Step L h (h.after (Eval.evaluate e s h.store))
  | evaluateIn {s : ScopeId} {e : Expr} (hs : s ∈ h.scopes) (he : L.Mem e) :
      Step L h (h.after (Eval.evaluateIn e s h.store))
  | lookup {s : ScopeId} (name : String) (hs : s ∈ h.scopes) : Step L h (h.after (Eval.lookup s name h.store))
  | call {f : Value} {args : List Value} (hf : h.Knows f) (ha : ∀ v ∈ args, h.Knows v) :
      Step L h (h.after (Eval.call f args h.store))
  /-- Scopes and values are let go. -/
  | drop {scopes : List ScopeId} {values : List Value} (hs : scopes ⊆ h.scopes) (hv : values ⊆ h.values) :
      Step L h ⟨h.store, scopes, values⟩
  /-- The scopes that nothing keeps alive die. -/
  | sweep : Step L h { h with store := h.store.sweep h.held }
  /-- The log is taken away or written to. -/
  | log (events : List Event) : Step L h { h with store := { h.store with log := events } }

/-- **What a host can get to** from nothing. -/
inductive Reachable (L : Fragment) : Host → Prop
  | init : Reachable L ⟨.empty, [], []⟩
  | step {h h' : Host} (hr : Reachable L h) (hs : Step L h h') : Reachable L h'

/-- **A host is formed**: so is its store, and what it holds lives. -/
structure Formed (L : Fragment) (h : Host) : Prop where
  store : h.store.Formed L
  scopes {s : ScopeId} : s ∈ h.scopes → h.store.alive s = true
  values {v : Value} : v ∈ h.values → h.store.Supports L v

variable {h h' : Host}

theorem Formed.knows (hf : h.Formed L) {v : Value} (hv : h.Knows v) : h.store.Supports L v := by
  intro p hp
  obtain ⟨w, hw, hpw⟩ := hv p hp
  exact hf.values hw p hpw

/-- All scopes may be written by the host. -/
theorem Formed.ready (hf : h.Formed L) : h.store.Ready L fun _ => True := ⟨hf.store, fun _ => trivial⟩

/-- A host whose store changed and lost no scope. -/
theorem Formed.change (hf : h.Formed L) {st : Store} (hst : st.Formed L)
    (ha : ∀ t, h.store.alive t = true → st.alive t = true) : Formed L { h with store := st } :=
  ⟨hst, fun hs => ha _ (hf.scopes hs), fun hv => (hf.values hv).mono ha⟩

theorem Formed.hold (hf : h.Formed L) {s : ScopeId} (hs : h.store.alive s = true) :
    Formed L { h with scopes := s :: h.scopes } where
  store := hf.store
  scopes ht := by
    rcases List.mem_cons.1 ht with rfl | ht
    · exact hs
    · exact hf.scopes ht
  values := hf.values

theorem Formed.after {own : ScopeId → Prop} (hf : h.Formed L) {x : Eval Value}
    (hx : Eval.Yields (Store.Moves L own) h.store x fun v st => st.Supports L v) : (h.after (x h.store)).Formed L := by
  obtain ⟨hm, hpost⟩ := hx
  have hst : Formed L { h with store := (x h.store).2 } := hf.change (hm.formed hf.store) fun _ => hm.alive
  refine ⟨hst.store, hst.scopes, fun {v} hv => ?_⟩
  unfold Host.after at hv
  dsimp only at hv
  cases hr : (x h.store).1 with
  | error e =>
    rw [hr] at hv
    exact hst.values hv
  | ok w =>
    rw [hr] at hv hpost
    rcases List.mem_cons.1 hv with rfl | hv
    · exact hpost
    · exact hst.values hv

theorem Formed.addRoot (hf : h.Formed L) (maxDepth : Nat) (bare : Bool) :
    Formed L ⟨(Session.addRoot h.store maxDepth bare).2, (Session.addRoot h.store maxDepth bare).1 :: h.scopes,
      h.values⟩ := by
  cases bare with
  | true =>
    refine (hf.change (hf.store.addOrphan maxDepth) fun _ => Store.alive_addOrphan_of_alive maxDepth).hold ?_
    exact Store.alive_addOrphan_size h.store maxDepth
  | false =>
    refine (hf.change (hf.store.addRoot maxDepth) fun _ => Store.alive_addRoot_of_alive maxDepth).hold ?_
    exact Store.alive_addRoot_fst h.store maxDepth

theorem Formed.sweep (hf : h.Formed L) : Formed L { h with store := h.store.sweep h.held } where
  store := hf.store.sweep _
  scopes hs := Store.alive_sweep (List.mem_append_left _ hs) (hf.scopes hs)
  values {v} hv p hp := by
    obtain ⟨hb, ha, hh⟩ := hf.values hv p hp
    refine ⟨hb, Store.alive_sweep (List.mem_append_right _ (List.mem_flatMap.2 ⟨v, hv, ?_⟩)) ha, hh⟩
    exact List.mem_map.2 ⟨p, List.mem_filter.2 ⟨hp, by simp [hh]⟩, rfl⟩

theorem Step.formed (hs : Step L h h') (hf : h.Formed L) : h'.Formed L := by
  cases hs with
  | root maxDepth bare => exact hf.addRoot maxDepth bare
  | child hs hv =>
    have ha := hf.scopes hs
    refine (hf.change (hf.store.addChild ha fun x hx => hf.knows (hv x hx)) fun _ =>
      Store.alive_addChild_of_alive ha _).hold ?_
    exact Store.alive_addChild_size ha _
  | parent hs hp =>
    obtain ⟨c, hc⟩ := Store.alive_iff.1 (hf.scopes hs)
    rw [Store.scope_of_scope? hc, Scope.parent?, List.head?_eq_some_iff] at hp
    obtain ⟨up, hp⟩ := hp
    exact hf.hold (hf.store.parented hc hp).2.1
  | fresh => exact hf.change (hf.store.congr rfl fun _ => rfl) fun _ => id
  | define name hs he => exact hf.change (hf.store.define he _ name) fun t ht => (Store.alive_define ..).trans ht
  | update hs hv =>
    exact hf.change (hf.store.update (fun x hx => hf.knows (hv x hx)) _) fun t ht => (Store.alive_update ..).trans ht
  | assign hs hL hv ha =>
    exact hf.change (hf.store.assign? (hf.knows hv) ha) fun t ht => (Store.alive_assign? ha t).trans ht
  | evaluate hs he => exact hf.after (Eval.evaluate_yields hf.ready he (hf.scopes hs))
  | evaluateIn hs he => exact hf.after (Eval.evaluateIn_yields hf.ready he (hf.scopes hs) trivial)
  | lookup name hs => exact hf.after (Eval.lookup_yields hf.ready (hf.scopes hs) name)
  | call hc ha => exact hf.after (Eval.call_yields hf.ready (hf.knows hc) fun v hv => hf.knows (ha v hv))
  | drop hs hv => exact ⟨hf.store, fun ht => hf.scopes (hs ht), fun hw => hf.values (hv hw)⟩
  | sweep => exact hf.sweep
  | log events => exact hf.change (hf.store.congr rfl fun _ => rfl) fun _ => id

/-- **Whatever a host does, the store is formed and what it holds lives.** -/
theorem Reachable.formed (hr : Reachable L h) : h.Formed L := by
  induction hr with
  | init => exact ⟨Store.formed_empty, nofun, nofun⟩
  | step _ hs ih => exact hs.formed ih

end Host
end LazyFormula
