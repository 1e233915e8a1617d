import LazyFormula.Proofs.Apart
import LazyFormula.Proofs.Rounds
/-!
# Procedures that were recaptured

A look-up takes the procedure that its definition yields out of the scope in which it was evaluated, if nothing but
memoized values is left there; an evaluation of the definition leaves it where it is. Both compute the same, as such a
scope is passed over on the way up (`Host.Reachable.recaptured_call`). They are told apart where a procedure that
stays in a scope of its own reads what the name stands for: after the look-up, as long as nothing is bound, it is this
procedure.
-/
namespace LazyFormula

open Scene (Aligned SlotTwins)
open Store

variable {W W' : Twinning} {st st' su su' past F : Store} {s t a : ScopeId} {name : String} {e : Expr} {v w : Value}
  {depth floor : Nat} {veiled : ScopeId → Prop} {gap : Option Gap} {p q o : Procedure} {args : List Value}
  {values : List (String × Value)}

/-! ## What a look-up memoizes -/

/-- **The procedure `p` of a look-up and the procedure `q` of an evaluation**, which would be recaptured as `o`. -/
structure Recalled (st : Store) (s : ScopeId) (name : String) (e : Expr) (p : Procedure) (F : Store) (W : Twinning)
    (q : Procedure) (su : Store) (o : Procedure) : Prop where
  run : evaluateWithin st.depthLeft e st.scopes.size (st.addChild s []).2 = (.ok (.procedure q), su)
  twinned : Twinned (Scene.veiling st.scopes.size) W F su
  le : st.whole.Le W
  keeping : st.Keeping su
  parent : (su.scope st.scopes.size).parent? = some s
  tree : (su.scope st.scopes.size).tree = (su.scope s).tree
  unset : (su.scope s).slots.get? name = none
  holds : Fragment.unassigning.Mem q.lambda.body ∧ q.hold = .strong
  moved : (if (su.scope st.scopes.size).holdsOnlyDerived then (Value.procedure q).recapture st.scopes.size s
    else .procedure q) = .procedure o
  twins : W.Twins (.procedure p) (.procedure o)

namespace Recalled

variable (h : Recalled st s name e p F W q su o)
include h

theorem hold : o.hold = .strong := (h.twins.holds o (List.mem_singleton_self o)).2

theorem knows : W.Knows o := h.twins.knows o (List.mem_singleton_self o)

theorem eq : p = W.twin.procedure o := Value.procedure.inj h.twins.eq

theorem twin_eq : W.twin.scope o.scope = p.scope ∧ W.twin.lambda o.lambda.id = p.lambda.id ∧ p.hold = .strong := by
  rw [h.eq]
  exact ⟨rfl, rfl, rfl⟩

/-- A scope that was there before is its own twin. -/
theorem scope_eq (hp : st.alive p.scope = true) : o.scope = p.scope :=
  h.twinned.scopes h.knows.1 (h.le.scope hp).1 (h.twin_eq.1.trans (h.le.scope hp).2.symm)

/-- In such a scope the two procedures differ in the number of their lambda. -/
theorem renumber_eq (hp : st.alive p.scope = true) : o.renumber p.lambda.id = p := by
  obtain ⟨hscope, hlambda, -⟩ := h.twin_eq
  conv_rhs => rw [h.eq]
  show (⟨⟨p.lambda.id, o.lambda.params, o.lambda.body⟩, o.scope, o.hold⟩ : Procedure) =
    ⟨⟨W.twin.lambda o.lambda.id, o.lambda.params, o.lambda.body⟩, W.twin.scope o.scope, .strong⟩
  rw [hlambda, hscope, h.scope_eq hp, h.hold]

/-- What is recaptured is the same procedure, or it leaves the new scope. -/
theorem scope_or : o = q ∨ o = { q with scope := s, hold := .strong } ∧ q.scope = st.scopes.size ∧
    (su.scope st.scopes.size).holdsOnlyDerived = true := by
  have hm := h.moved
  split at hm
  · rename_i hbare
    have ho : (if q.scope = st.scopes.size then { q with scope := s, hold := .strong } else q) = o :=
      Value.procedure.inj hm
    split at ho
    · exact .inr ⟨ho.symm, ‹_›, hbare⟩
    · exact .inl ho.symm
  · exact .inl (Value.procedure.inj hm).symm

theorem lambda_eq : o.lambda = q.lambda := by
  rcases h.scope_or with rfl | ⟨rfl, -⟩ <;> rfl

theorem size_lt : st.scopes.size < su.scopes.size := lt_size_of_alive (h.twinned.veiled rfl).alive

theorem lambda_lt : p.lambda.id < F.fresh ∧ o.lambda.id < su.fresh :=
  h.twin_eq.2.1 ▸ h.twinned.lambda_lt h.knows.2

/-- The evaluation left the definition. -/
theorem definition (hs : st.alive s = true) (hdef : (st.scope s).definitions.get? name = some e) :
    (su.scope s).definitions.get? name = some e := by
  rw [(h.keeping.scope hs).2.definitions, hdef]

/-! ### The stores beside each other -/

theorem region : Region W.scopes W.lambdas su := h.twinned.region_second id fun _ hh => hh.1

theorem region_legacy : Region (st.legacy su W.twin).scopes (st.legacy su W.twin).lambdas su :=
  h.region.legacy (fun _ hu => (h.le.scope hu).1) fun _ hl => (h.le.lambda hl).1

theorem of_legacy : (∀ t, (st.legacy su W.twin).scopes t → W.scopes t) ∧
    ∀ l, (st.legacy su W.twin).lambdas l → W.lambdas l :=
  ⟨fun _ ht => ht h.region (fun _ hu => (h.le.scope hu).1) fun _ hl => (h.le.lambda hl).1,
    fun _ hl => hl h.region (fun _ hu => (h.le.scope hu).1) fun _ hl => (h.le.lambda hl).1⟩

/-- **Where the new scope is bare, the legacy of the old store has twins that pass it over.** -/
theorem apart_legacy (hf : st.Formed .unassigning) (hn : st.Numbered) (hs : st.alive s = true)
    (he : Fragment.unassigning.Mem e)
    (hpast : past.Keeping su) (hfloor : past.scopes.size ≤ floor ∧ floor ≤ su.scopes.size) :
    Twinned (Scene.apart past floor (fun b => b = st.scopes.size ∧ (su.scope b).holdsOnlyDerived = true) none)
      (st.legacy su W.twin) F su := by
  refine h.twinned.restrict h.region_legacy h.of_legacy.1 h.of_legacy.2 hpast hfloor ?_
  rintro _ ⟨rfl, hbare⟩
  have hv := h.twinned.veiled rfl
  obtain ⟨u, hu, -, hslots⟩ := hv.slots
  cases Option.some.inj (hu.symm.trans h.parent)
  exact ⟨hv.alive, hv.definitions, ⟨s, h.parent, legacy_of_alive hs, hslots⟩, fun _ =>
    ⟨not_legacy_scratch hf hn hs he h.run h.twinned.second, (Scope.holdsOnlyDerived_iff.1 hbare).2⟩⟩

end Recalled

/-! ## Calls -/

/-- **Outcomes that a host cannot tell apart**, unless an evaluation was nested too deep. -/
def SameUnlessDeep (r r' : Except EvalError Value) : Prop :=
  (∃ limit, r = .error (.depthLimit limit)) ∨ (∃ limit, r' = .error (.depthLimit limit)) ∨ SameOutcome r r'

theorem Twinning.twins_of_plain (hargs : ∀ v ∈ args, v.procedures = []) : W.Twins (.list args) (.list args) := by
  refine twins_of_procedures_eq_nil (List.eq_nil_iff_forall_not_mem.2 fun p hp => ?_)
  obtain ⟨v, hv, hp⟩ := Value.mem_procedures_list.1 hp
  rw [hargs v hv] at hp
  cases hp

/-- **Procedures with one body are called alike** in stores that went apart, below ways up that go side by side. -/
theorem call_apart
    (hbridges : ∀ g, gap = some g → ¬ g.unread →
      ∀ depth, Bridges (Scene.apart past floor veiled gap) (evaluateWithin depth))
    (hunread : ∀ g, gap = some g → g.unread → ¬ g.Read st (Eval.call (.procedure p) args st).2)
    (h : Twinned (Scene.apart past floor veiled gap) W st su) (hlambda : p.lambda.params = q.lambda.params ∧
      p.lambda.body = q.lambda.body) (hq : Fragment.unassigning.Mem q.lambda.body ∧ q.hold = .strong)
      (hp : p.hold = .strong)
    (ha : st.alive p.scope = true) (hb : su.alive q.scope = true)
    (halign : Aligned (Scene.apart past floor veiled gap).Hidden W (st.chain p.scope) (su.chain q.scope))
    (htree : (st.scope p.scope).tree = (su.scope q.scope).tree) (hargs : ∀ v ∈ args, v.procedures = []) :
    SameUnlessDeep (Eval.call (.procedure p) args st).1 (Eval.call (.procedure q) args su).1 := by
  have hadmits : (Scene.apart past floor veiled gap).Admits st.depthLeft su.depthLeft :=
    ⟨False.elim, nofun, fun _ => id, fun hg => hbridges _ hg⟩
  have hrun :=
    callProcedure_aligned (parallel_evaluateWithin (fun d _ => unselfish_evaluateWithin d) hadmits) h (.nowhere ..)
    hlambda.1 hlambda.2 hq.1 hp hq.2 ha hb halign htree (Twinning.twins_of_plain hargs) False.elim
  have hcall : ∀ (r : Procedure) (s : Store), Eval.call (.procedure r) args s =
      callProcedure (evaluateWithin s.depthLeft) r args s := fun r s => by
    rw [Eval.call, Eval.withEvaluator_apply, callValue, callBelow.eq_def]
  rw [hcall] at hunread
  rw [hcall, hcall]
  generalize callProcedure (evaluateWithin st.depthLeft) p args st = x at hrun hunread
  generalize callProcedure (evaluateWithin su.depthLeft) q args su = y at hrun
  cases hrun with
  | @ok _ _ _ v w _ _ hvw =>
    refine .inr (.inr (.ok ?_ ?_))
    · rw [hvw.eq, Value.kind_rename]
    · rw [hvw.eq, Value.text_rename]
  | failed _ _ he => exact .inr (.inr (.error he))
  | limitFirst => exact .inl ⟨_, rfl⟩
  | limitSecond => exact .inr (.inl ⟨_, rfl⟩)
  | behind hf => exact hf.elim
  | astray _ ha => exact absurd rfl ha.site_ne_none
  | caught hx => cases hx
  | read hg hu hread => exact absurd hread (hunread _ hg hu)

/-- **The procedure of the look-up is called like that of the evaluation**, where the stores have gone apart. -/
theorem Recalled.call (h : Recalled st s name e p F W q su o)
    (hbridges : ∀ g, gap = some g → ¬ g.unread →
      ∀ depth, Bridges (Scene.apart past floor veiled gap) (evaluateWithin depth))
    (hunread : ∀ g, gap = some g → g.unread → ¬ g.Read st' (Eval.call (.procedure p) args st').2)
    (ht : Twinned (Scene.apart past floor veiled gap) W' st' su') (hW : W'.twin = W.twin) (hsu : su.Reslots su')
    (hs : W'.scopes s) (ho : W'.scopes o.scope)
    (hveiled : (su.scope st.scopes.size).holdsOnlyDerived = true → o = q ∨ veiled st.scopes.size)
    (hargs : ∀ v ∈ args, v.procedures = []) :
    SameUnlessDeep (Eval.call (.procedure p) args st').1 (Eval.call (.procedure q) args su').1 := by
  have hlambda : p.lambda.params = q.lambda.params ∧ p.lambda.body = q.lambda.body := by
    rw [h.eq, ← h.lambda_eq]
    exact ⟨rfl, rfl⟩
  obtain ⟨hscope, -, hp⟩ := h.twin_eq
  obtain ⟨ha, hb⟩ := ht.alive ho
  have hchain := ht.aligned ho
  have htree := ht.tree ho
  rw [hW, hscope] at ha hchain htree
  rcases h.scope_or with rfl | ⟨rfl, hq, hbare⟩
  · exact call_apart hbridges hunread ht hlambda h.holds hp ha hb hchain htree hargs
  rcases hveiled hbare with heq | hv
  · rw [← heq]
    exact call_apart hbridges hunread ht (heq ▸ hlambda) (heq ▸ h.holds) hp ha hb hchain htree hargs
  -- the new scope is passed over
  have hnew : su.alive st.scopes.size = true := (h.twinned.veiled rfl).alive
  have hnew' : su'.alive st.scopes.size = true := (hsu.alive _).trans hnew
  obtain ⟨hnewTree, hnewUp, -⟩ := hsu.frame hnew
  obtain ⟨hsTree, -, -⟩ := hsu.frame (t := s) ((hsu.alive s).symm.trans (ht.alive hs).2)
  obtain ⟨up, hup⟩ := List.head?_eq_some_iff.1 h.parent
  have hchain' : su'.chain st.scopes.size = st.scopes.size :: su'.chain s :=
    ht.second.chain_eq (scope?_eq_of_alive hnew') (hnewUp.trans hup)
  refine call_apart hbridges hunread ht hlambda h.holds hp ha (hq ▸ hnew') ?_ ?_ hargs
  · rw [hq, hchain']
    exact .hidden ⟨trivial, hv⟩ hchain
  · rw [hq, hnewTree, h.tree, ← hsTree]
    exact htree

/-! ## Values that are bound later -/

section
variable (hf : st.Formed .unassigning) (hn : st.Numbered) (hs : st.alive s = true)
  (h : Recalled st s name e p F W q su o)
include hf hn hs h

/-- **After the look-up** the stores went apart in the value of the name alone. -/
theorem Recalled.leave (hdef : (st.scope s).definitions.get? name = some e) (hp : st.alive p.scope = true) :
    Twinned (Scene.apart su su.scopes.size (fun b => b = st.scopes.size ∧ (su.scope b).holdsOnlyDerived = true)
      (some (.left st su s name e o p.lambda.id))) (st.legacy su W.twin) (F.put s name (.procedure p) .derived) su := by
  have he := hf.definitions (scope?_eq_of_alive hs) hdef
  obtain ⟨hscope, hlambda, -⟩ := h.twin_eq
  have hother : ∀ l, (st.legacy su W.twin).lambdas l → W.twin.lambda l = p.lambda.id ∨ l = o.lambda.id →
      l = o.lambda.id :=
    fun l hl hm => hm.elim (fun hm => h.twinned.lambdas (h.of_legacy.2 l hl) h.knows.2 (hm.trans hlambda.symm)) id
  have hsupports : F.Supports .unassigning (.procedure (o.renumber p.lambda.id)) := by
    rw [h.renumber_eq hp]
    exact h.twinned.supports_first h.twins
  have hapart := h.apart_legacy hf hn hs he (.refl su) ⟨Nat.le_refl _, Nat.le_refl _⟩
  have hleave := hapart.leave (g := .left st su s name e o p.lambda.id) ⟨legacy_of_alive hs, (h.le.scope hs).2⟩
    (Nat.lt_trans (lt_size_of_alive hs) h.size_lt) h.unset (h.definition hs hdef)
    ⟨o.scope, legacy_of_alive (h.scope_eq hp ▸ hp), hscope.trans (h.scope_eq hp).symm, fun _ => rfl⟩ h.lambda_lt
    (fun l hl hm => by
      obtain rfl := hother l hl hm
      exact ⟨rfl, hlambda, hl⟩) hsupports
  have hput : F.put s name (.procedure (o.renumber p.lambda.id)) .derived = F.put s name (.procedure p) .derived := by
    rw [h.renumber_eq hp]
  exact hput ▸ hleave

end

namespace Host

variable {h : Host}

/-- A host of a root that has a value and of a scope below it, with a definition that reads the value. -/
def reading : Host :=
  let root := (Store.empty.addOrphan 10).2.update 0 [("x", .int 1)]
  ⟨(root.addChild 0 []).2.define 1 "n" (.list [.symbol "lambda", .list [], .symbol "x"]), [1, 0], []⟩

end Host
end LazyFormula
