import LazyFormula.Field
import LazyFormula.Proofs.Resting
import LazyFormula.Proofs.Staleness
/-!
# Rounds

A host evaluates its fields in rounds, and writes to the root between them. What a round reports of a field is what the
field gives alone, in a new root with the same definitions in any order and the same values written
(`Field.evaluateAll_alone`), unless it would nest too deep there: neither what was evaluated before nor the other fields
nor their order matter. This holds as long as nothing is assigned and no procedures are written.
-/
namespace LazyFormula

/-! ## Expressions that assign nothing -/

/-- **An expression whose evaluation assigns nothing**, whatever it quotes. -/
inductive Expr.AssignsNothing : Expr → Prop
  | number (n : Number) : AssignsNothing (.number n)
  | symbol (name : String) : AssignsNothing (.symbol name)
  | malformed {items : List Expr} {error : EvalError} (h : Form.ofItems items = .error error) :
      AssignsNothing (.list items)
  | form {items : List Expr} {form : Form} (h : Form.ofItems items = .ok form)
      (hne : ∀ name e, form ≠ .assign name e) (hparts : ∀ e ∈ form.parts, AssignsNothing e) :
      AssignsNothing (.list items)

/-- An expression without the form that assigns assigns nothing. -/
theorem Expr.assignsNothing_of_unassigning : ∀ {e : Expr}, e.unassigning = true → e.AssignsNothing
  | .number n, _ => .number n
  | .symbol name, _ => .symbol name
  | .list items, h => by
    cases hf : Form.ofItems items with
    | error error => exact .malformed hf
    | ok form =>
      refine .form hf (fun name e he => ?_) fun e he => ?_
      · subst he
        exact Fragment.unassigning.assigning h hf
      · have hmem := Form.parts_subset hf e he
        exact assignsNothing_of_unassigning (Fragment.unassigning.parts h hf e he)
termination_by e => sizeOf e
decreasing_by
  have := List.sizeOf_lt_of_mem hmem
  simp only [list.sizeOf_spec]
  omega

/-- The language of what assigns nothing. -/
def Fragment.assignless : Fragment where
  Mem := Expr.AssignsNothing
  assigns := False
  parts he hform := by
    cases he with
    | malformed h => cases h.symm.trans hform
    | form h _ hparts =>
      cases h.symm.trans hform
      exact hparts
  assigning he hform := by
    cases he with
    | malformed h => cases h.symm.trans hform
    | form h hne _ =>
      cases h.symm.trans hform
      exact hne _ _ rfl

/-! ## One evaluation beside another -/

/-- **Two outcomes that a host cannot tell apart.** -/
inductive SameOutcome : Except EvalError Value → Except EvalError Value → Prop
  | ok {v v' : Value} (hk : v.kind = v'.kind) (ht : v.text = v'.text) : SameOutcome (.ok v) (.ok v')
  | error {e e' : EvalError} (h : e.Alike e') : SameOutcome (.error e) (.error e')

namespace Memoryless

variable {K : Book} {L : Fragment} {room base : Nat} {A A' : Atlas} {st st' : Store}
  {memo memo' : List String} {e : Expr}

theorem sameOutcome_of_names {v v' a : Value} (h : A.Names L v a) (h' : A'.Names L v' a) :
    SameOutcome (.ok v) (.ok v') := by
  have hshown : ∀ {A : Atlas} {v : Value}, A.Names L v a → v.kind = a.kind ∧ v.text = a.text := fun h => by
    rw [← h.eq, Value.kind_rename, Value.text_rename]
    exact ⟨rfl, rfl⟩
  exact .ok ((hshown h).1.trans (hshown h').1.symm) ((hshown h).2.trans (hshown h').2.symm)

theorem Rests.closed (h : Rests K L room st memo) : Closed K memo := by
  obtain ⟨base, A, h⟩ := h
  exact h.closed

/-- **An evaluation below a root matches the memoryless one.** -/
theorem evaluate_matches (hK : K.Plain) (hL : ¬ L.assigns) (h : Rests K L defaultMaxDepth st memo) (he : L.Mem e) :
    ∃ base A st₀, Outcome K L defaultMaxDepth base A st₀ (Named L) (Eval.evaluate e 1 st)
      (remember K defaultMaxDepth e (.own 0) (.scratch, memo)) := by
  obtain ⟨base, A, h⟩ := h
  obtain ⟨hstart, -, ho⟩ := h.scratch hK
  have hleft : (st.addChild 1 []).2.depthLeft = defaultMaxDepth := by
    rw [Store.depthLeft, Store.trees_addChild, h.trees]
    rfl
  have hrun : Eval.evaluate e 1 st = evaluateWithin (st.addChild 1 []).2.depthLeft e st.scopes.size
      (st.addChild 1 []).2 := rfl
  rw [hrun, hleft]
  exact ⟨_, _, _, remember_simulates hK hL defaultMaxDepth _ _ _ _ _ _ 0 e hstart (.inl rfl) ho he⟩

theorem evaluate_rests (hK : K.Plain) (hL : ¬ L.assigns) (h : Rests K L defaultMaxDepth st memo) (he : L.Mem e) :
    ∃ memo', Rests K L defaultMaxDepth (Eval.evaluate e 1 st).2 memo' := by
  obtain ⟨base, A, st₀, hmatch⟩ := evaluate_matches hK hL h he
  generalize Eval.evaluate e 1 st = q at hmatch ⊢
  generalize remember K defaultMaxDepth e (.own 0) (.scratch, memo) = p at hmatch
  cases hmatch with
  | ok _ hm _ => exact ⟨_, hm.rests hK⟩
  | failed _ hr | spent _ hr => exact ⟨_, hr⟩

/-- **A root where much was evaluated answers like one where nothing was**, unless the latter reaches the bound on its
depth. -/
theorem evaluate_alone (hK : K.Plain) (hL : ¬ L.assigns) (h : Rests K L defaultMaxDepth st memo)
    (h' : Rests K L defaultMaxDepth st' []) (he : L.Mem e) :
    (∃ limit, (Eval.evaluate e 1 st').1 = .error (.depthLimit limit)) ∨
      SameOutcome (Eval.evaluate e 1 st').1 (Eval.evaluate e 1 st).1 := by
  obtain ⟨base, A, st₀, hwarm⟩ := evaluate_matches hK hL h he
  obtain ⟨base', A', st₀', hcold⟩ := evaluate_matches hK hL h' he
  have hlock := remember_more (K := K) (Nat.le_refl defaultMaxDepth) e (.own 0) .scratch [] memo
    ⟨closed_nil, h.closed, nofun, nofun⟩
  generalize remember K defaultMaxDepth e (.own 0) (.scratch, []) = p' at hcold hlock
  generalize remember K defaultMaxDepth e (.own 0) (.scratch, memo) = p at hwarm hlock
  generalize Eval.evaluate e 1 st' = q' at hcold ⊢
  generalize Eval.evaluate e 1 st = q at hwarm ⊢
  cases hlock with
  | spent =>
    cases hcold with
    | spent limit => exact .inl ⟨limit, rfl⟩
  | failed =>
    cases hcold with
    | failed he' =>
      cases hwarm with
      | failed he => exact .inr (.error (he'.trans he.symm))
  | same =>
    cases hcold with
    | ok _ _ hp' =>
      cases hwarm with
      | ok _ _ hp => exact .inr (sameOutcome_of_names hp' hp)

/-! ## Books of roots -/

/-- The formula that a definition reads as. -/
def formulaOf (text : String) : Expr :=
  match readFormula text with
  | .ok e => e
  | .error _ => .list []

/-- What is known of a root with definitions. -/
def bookOf (definitions : List (String × String)) : Book :=
  { blank with definitions := (definitions.map fun d => (d.1, formulaOf d.2)).reverse }

theorem plain_bookOf (definitions : List (String × String)) : (bookOf definitions).Plain :=
  ⟨plain_blank.given, plain_blank.standard⟩

theorem lookup_of_perm {α : Type} {l l' : List (String × α)} (h : l.Perm l') (hd : (l.map Prod.fst).Nodup)
    (name : String) :
    l.lookup name = l'.lookup name := by
  have hd' : (l'.map Prod.fst).Nodup := (h.map Prod.fst).nodup_iff.1 hd
  ext a
  exact (Bindings.get?_eq_some (b := ⟨l, hd⟩)).trans
    (h.mem_iff.trans (Bindings.get?_eq_some (b := ⟨l', hd'⟩)).symm)

/-- Definitions of different names can be put in any order. -/
theorem lookup_bookOf {definitions definitions' : List (String × String)} (h : definitions'.Perm definitions)
    (hd : (definitions.map Prod.fst).Nodup) (name : String) :
    (bookOf definitions).definitions.lookup name = (bookOf definitions').definitions.lookup name := by
  refine lookup_of_perm ?_ ?_ name
  · exact (List.reverse_perm _).trans ((h.symm.map _).trans (List.reverse_perm _).symm)
  · rw [bookOf, List.map_reverse, List.nodup_reverse, List.map_map]
    exact hd

end Memoryless

/-! ## Rounds and what lies between them -/

namespace Field

/-- **One turn of a host with a root.** -/
inductive Turn where
  | update (values : List (String × Value))
  | round (fields : List Field)
  /-- Scopes die that neither the host holds, besides the root, nor a scope that is left. -/
  | sweep (held : List ScopeId)

namespace Turn

def isUpdate : Turn → Bool
  | .update _ => true
  | .round _ | .sweep _ => false

/-- A turn without procedures from outside and without assignments. -/
def Plain : Turn → Prop
  | .update values => ∀ x ∈ values, x.2.procedures = []
  | .round fields => ∀ f ∈ fields, f.formula.AssignsNothing
  | .sweep _ => True

/-- The store after a turn. -/
def take (root : ScopeId) : Turn → Store → Store
  | .update values, st => st.update root values
  | .round fields, st => (evaluateAll fields root st).2
  | .sweep held, st => st.sweep (root :: held)

end Turn

/-- The store after some turns. -/
def takeAll (root : ScopeId) (turns : List Turn) (st : Store) : Store := turns.foldl (fun st t => t.take root st) st

/-- An outcome for want of depth. -/
def EndsInDepthLimit (r : Except FieldError Value) : Prop :=
  ∃ location limit, r = .error (.failed location (.depthLimit limit))

/-- **Two outcomes of a field that a host cannot tell apart**: values of one kind and text, or failures for the same
reason. -/
inductive Alike : Except FieldError Value → Except FieldError Value → Prop
  | ok {v v' : Value} (hk : v.kind = v'.kind) (ht : v.text = v'.text) : Alike (.ok v) (.ok v')
  | failed (location : FieldLocation) {e e' : EvalError} (h : e.Alike e') :
      Alike (.error (.failed location e)) (.error (.failed location e'))

/-- **A report that repeats what each field gives alone**, in order, up to the first field that fails. Fields that need
more depth alone are left out of account. -/
inductive Repeats (alone : Field → Except FieldError Value) :
    List Field → Except FieldError (List (FieldLocation × Value)) → Prop
  | nil : Repeats alone [] (.ok [])
  | failed {f : Field} {fields : List Field} {e : EvalError}
      (h : ¬ EndsInDepthLimit (alone f) → Alike (alone f) (.error (.failed f.location e))) :
      Repeats alone (f :: fields) (.error (.failed f.location e))
  | later {f : Field} {fields : List Field} {v : Value} {error : FieldError}
      (rest : Repeats alone fields (.error error))
      (h : ¬ EndsInDepthLimit (alone f) → Alike (alone f) (.ok v)) : Repeats alone (f :: fields) (.error error)
  | cons {f : Field} {fields : List Field} {v : Value} {answers : List (FieldLocation × Value)}
      (h : ¬ EndsInDepthLimit (alone f) → Alike (alone f) (.ok v)) (rest : Repeats alone fields (.ok answers)) :
      Repeats alone (f :: fields) (.ok ((f.location, v) :: answers))

/-! ## Computations on fields -/

section
variable {α β : Type}

theorem evaluate_apply (f : Field) (root : ScopeId) (st : Store) :
    f.evaluate root st =
      ((Eval.evaluate f.formula root st).1.mapError (.failed f.location), (Eval.evaluate f.formula root st).2) :=
  rfl

/-- A round starts with its first field. -/
theorem evaluateAll_cons (f : Field) (fields : List Field) (root : ScopeId) (st : Store) :
    evaluateAll (f :: fields) root st =
      match Eval.evaluate f.formula root st with
      | (.error e, st₁) => (.error (.failed f.location e), st₁)
      | (.ok v, st₁) =>
        ((evaluateAll fields root st₁).1.map ((f.location, v) :: ·), (evaluateAll fields root st₁).2) := by
  have hcons : evaluateAll (f :: fields) root = f.evaluate root >>= fun v => evaluateAll fields root >>= fun answers =>
      pure ((f.location, v) :: answers) := by
    rw [evaluateAll, List.mapM_cons]
    simp only [bind_assoc, pure_bind]
    rfl
  rw [hcons, bind_apply, evaluate_apply]
  rcases Eval.evaluate f.formula root st with ⟨r, st₁⟩
  cases r with
  | error e => rfl
  | ok v =>
    show (evaluateAll fields root >>= fun answers => pure ((f.location, v) :: answers)) st₁ = _
    rw [bind_apply]
    dsimp only
    rcases evaluateAll fields root st₁ with ⟨rs, st₂⟩
    cases rs <;> rfl

end

open Memoryless

variable {K : Book} {L : Fragment} {st st' : Store} {memo : List String}

theorem evaluateAll_rests (hK : K.Plain) (hL : ¬ L.assigns) :
    ∀ {fields : List Field} {st : Store} {memo : List String},
    Rests K L defaultMaxDepth st memo → (∀ f ∈ fields, L.Mem f.formula) →
      ∃ memo', Rests K L defaultMaxDepth (evaluateAll fields 1 st).2 memo'
  | [], st, memo, h, _ => ⟨memo, h⟩
  | f :: fields, st, memo, h, hf => by
    obtain ⟨memo₁, h₁⟩ := evaluate_rests hK hL h (hf f List.mem_cons_self)
    rw [evaluateAll_cons]
    rcases hrun : Eval.evaluate f.formula 1 st with ⟨r, st₁⟩
    rw [hrun] at h₁
    cases r with
    | error e => exact ⟨memo₁, h₁⟩
    | ok v => exact evaluateAll_rests hK hL h₁ fun g hg => hf g (List.mem_cons_of_mem _ hg)

/-- **A round repeats what its fields give alone.** -/
theorem evaluateAll_repeats (hK : K.Plain) (hL : ¬ L.assigns) (h' : Rests K L defaultMaxDepth st' []) :
    ∀ {fields : List Field} {st : Store} {memo : List String}, Rests K L defaultMaxDepth st memo →
      (∀ f ∈ fields, L.Mem f.formula) →
      Repeats (fun f => (f.evaluate 1 st').1) fields (evaluateAll fields 1 st).1
  | [], _, _, _, _ => .nil
  | f :: fields, st, memo, h, hf => by
    have hmem := hf f List.mem_cons_self
    have hsame := evaluate_alone hK hL h h' hmem
    obtain ⟨memo₁, h₁⟩ := evaluate_rests hK hL h hmem
    have halone : ∀ limit, (Eval.evaluate f.formula 1 st').1 = .error (.depthLimit limit) →
        EndsInDepthLimit (f.evaluate 1 st').1 :=
          fun limit he => ⟨f.location, limit, by rw [evaluate_apply, he]; rfl⟩
    have hfirst : ¬ EndsInDepthLimit (f.evaluate 1 st').1 →
        SameOutcome (Eval.evaluate f.formula 1 st').1 (Eval.evaluate f.formula 1 st).1 := fun hdepth =>
      hsame.resolve_left fun ⟨limit, he⟩ => hdepth (halone limit he)
    rw [evaluateAll_cons]
    rcases hrun : Eval.evaluate f.formula 1 st with ⟨r, st₁⟩
    rw [hrun] at h₁ hfirst
    cases r with
    | error e =>
      refine .failed fun hdepth => ?_
      have hf := hfirst hdepth
      rw [evaluate_apply]
      generalize (Eval.evaluate f.formula 1 st').1 = r' at hf
      cases hf with
      | error he => exact .failed f.location he
    | ok v =>
      have hv : ¬ EndsInDepthLimit (f.evaluate 1 st').1 → Alike (f.evaluate 1 st').1 (.ok v) := fun hdepth => by
        have hf := hfirst hdepth
        rw [evaluate_apply]
        generalize (Eval.evaluate f.formula 1 st').1 = r' at hf
        cases hf with
        | ok hk ht => exact .ok hk ht
      have hrest := evaluateAll_repeats hK hL h' h₁ fun g hg => hf g (List.mem_cons_of_mem _ hg)
      dsimp only at hrest ⊢
      generalize (evaluateAll fields 1 st₁).1 = rs at hrest ⊢
      cases rs with
      | error e => exact .later hrest hv
      | ok answers => exact .cons hv hrest

/-! ## Histories -/

/-- What is known of a root after some turns. -/
def booked : List Turn → Book → Book
  | [], K => K
  | .update values :: turns, K => booked turns (K.give values)
  | .round _ :: turns, K | .sweep _ :: turns, K => booked turns K

/-- Only updates count. -/
theorem booked_filter : ∀ (turns : List Turn) (K : Book), booked (turns.filter Turn.isUpdate) K = booked turns K
  | [], _ => rfl
  | .update values :: turns, K => booked_filter turns (K.give values)
  | .round _ :: turns, K | .sweep _ :: turns, K => booked_filter turns K

theorem plain_booked (hK : K.Plain) :
    ∀ {turns : List Turn}, (∀ t ∈ turns, t.Plain) → (booked turns K).Plain := by
  intro turns
  induction turns generalizing K with
  | nil => exact fun _ => hK
  | cons t turns ih =>
    intro h
    have hrest := fun u hu => h u (List.mem_cons_of_mem t hu)
    cases t with
    | update values => exact ih (hK.give (h _ List.mem_cons_self)) hrest
    | round | sweep => exact ih hK hrest

/-- **One turn** leaves a root that answers as before, or with what was written. -/
theorem Turn.rests (hK : K.Plain) (h : Rests K .assignless defaultMaxDepth st memo) {t : Turn} (ht : t.Plain) :
    ∃ memo', Rests (booked [t] K) .assignless defaultMaxDepth (t.take 1 st) memo' := by
  cases t with
  | update values =>
    obtain ⟨base, A, h⟩ := h
    exact ⟨[], 0, home, (h.update hK ht).mirrors (hK.give ht)⟩
  | round fields => exact evaluateAll_rests hK id h ht
  | sweep held =>
    obtain ⟨base, A, h⟩ := h
    exact ⟨memo, base, _, h.fade (Store.fades_sweep (1 :: held) st) List.mem_cons_self (Store.trees_sweep ..)
      (fresh_sweep ..)⟩

/-- **Some turns** leave a root that answers for all that was written. -/
theorem takeAll_rests : ∀ {turns : List Turn} {K : Book} {st : Store} {memo : List String}, K.Plain →
    Rests K .assignless defaultMaxDepth st memo → (∀ t ∈ turns, t.Plain) →
      ∃ memo', Rests (booked turns K) .assignless defaultMaxDepth (takeAll 1 turns st) memo'
  | [], _, _, memo, _, h, _ => ⟨memo, h⟩
  | t :: turns, K, st, memo, hK, h, ht => by
    obtain ⟨memo₁, h₁⟩ := Turn.rests hK h (ht t List.mem_cons_self)
    have hK₁ : (booked [t] K).Plain :=
      plain_booked hK fun u hu => ht u (List.mem_cons.2 (.inl (List.mem_singleton.1 hu)))
    obtain ⟨memo', h'⟩ := takeAll_rests hK₁ h₁ fun u hu => ht u (List.mem_cons_of_mem t hu)
    refine ⟨memo', ?_⟩
    cases t <;> exact h'

/-- Updates leave a root where nothing was evaluated. -/
theorem takeAll_fresh : ∀ {turns : List Turn} {K : Book} {st : Store}, K.Plain → Fresh K .assignless st →
    (∀ t ∈ turns, t.Plain ∧ t.isUpdate = true) → Fresh (booked turns K) .assignless (takeAll 1 turns st)
  | [], _, _, _, h, _ => h
  | .update values :: turns, K, st, hK, h, ht => by
    have hv : ∀ x ∈ values, x.2.procedures = [] := (ht _ List.mem_cons_self).1
    have hrest : ∀ u ∈ turns, u.Plain ∧ u.isUpdate = true := fun u hu => ht u (List.mem_cons_of_mem _ hu)
    have hall := takeAll_fresh (hK.give hv) ((h.mirrors hK).update hK hv) hrest
    exact hall
  | .round _ :: _, _, _, _, _, ht | .sweep _ :: _, _, _, _, _, ht => nomatch (ht _ List.mem_cons_self).2

/-- Definitions are put into a root one after the other. -/
theorem define_all : ∀ {definitions : List (String × String)} {K : Book} {st : Store},
    Fresh K L st → K.given = [] →
    (∀ d ∈ definitions, ∃ e, readFormula d.2 = .ok e ∧ L.Mem e) →
      ∃ st', definitions.forM (fun d => define 1 d.1 d.2) st = (.ok (), st') ∧
        Fresh { K with definitions := (definitions.map fun d => (d.1, formulaOf d.2)).reverse ++ K.definitions } L st'
  | [], K, st, h, _, _ => ⟨st, rfl, h⟩
  | d :: definitions, K, st, h, hg, hd => by
    obtain ⟨e, hread, he⟩ := hd d List.mem_cons_self
    obtain ⟨st', hrun, h'⟩ := define_all (h.define hg he d.1) hg fun d' hd' => hd d' (List.mem_cons_of_mem _ hd')
    have hformula : formulaOf d.2 = e := by rw [formulaOf, hread]
    refine ⟨st', ?_, ?_⟩
    · have hfirst : define 1 d.1 d.2 st = (.ok (), st.define 1 d.1 e) := by
        rw [define, hread]
        rfl
      show (define 1 d.1 d.2 >>= fun _ => definitions.forM fun d => define 1 d.1 d.2) st = _
      rw [bind_apply, hfirst]
      exact hrun
    · rw [List.map_cons, List.reverse_cons, List.append_assoc, hformula]
      exact h'

/-- **A root can be made of definitions that read.** -/
theorem fresh_rootOfDefinitions {definitions : List (String × String)}
    (hd : ∀ d ∈ definitions, ∃ e, readFormula d.2 = .ok e ∧ L.Mem e) :
    ∃ st, rootOfDefinitions definitions .empty = (.ok 1, st) ∧ Fresh (bookOf definitions) L st := by
  obtain ⟨st, hrun, h⟩ := define_all (fresh_addRoot L) rfl hd
  refine ⟨st, ?_, h.congr rfl rfl fun n => by rw [bookOf, blank, List.append_nil]⟩
  have hid : (Store.empty.addRoot defaultMaxDepth).1 = 1 := by
    rw [Store.addRoot_eq, Store.addChild_fst, Store.size_withBuiltins]
    rfl
  have hroot : ∀ g : Store → ScopeId × Store, (do
      let root ← modifyGet g
      definitions.forM fun d => define root d.1 d.2
      return root : Sheet ScopeId) .empty =
        (definitions.forM (fun d => define (g .empty).1 d.1 d.2) >>= fun _ => pure (g .empty).1) (g .empty).2 :=
          fun _ => rfl
  have hmade : rootOfDefinitions definitions .empty = _ := hroot fun s => s.addRoot defaultMaxDepth
  rw [hmade, hid, bind_apply, hrun]
  rfl

/-- **What a round reports of a field is what the field gives alone**, in a new root with the same definitions in any
order and the same values written: neither what was evaluated before nor the other fields nor their order matter. -/
theorem evaluateAll_alone {definitions definitions' : List (String × String)}
    (hdistinct : (definitions.map Prod.fst).Nodup)
    (hread : ∀ d ∈ definitions, ∃ e, readFormula d.2 = .ok e ∧ e.AssignsNothing)
    (horder : definitions'.Perm definitions)
    {turns : List Turn} (hturns : ∀ t ∈ turns, t.Plain) {fields : List Field}
    (hfields : ∀ f ∈ fields, f.formula.AssignsNothing) :
    ∃ root st root' st', rootOfDefinitions definitions .empty = (.ok root, st) ∧
      rootOfDefinitions definitions' .empty = (.ok root', st') ∧
      Repeats (fun f => (f.evaluate root' (takeAll root' (turns.filter Turn.isUpdate) st')).1) fields
        (evaluateAll fields root (takeAll root turns st)).1 := by
  obtain ⟨st, hrun, h⟩ := fresh_rootOfDefinitions (L := .assignless) hread
  obtain ⟨st', hrun', h'⟩ := fresh_rootOfDefinitions (L := .assignless) fun d hd => hread d (horder.mem_iff.1 hd)
  have hK := plain_bookOf definitions
  have h' : Fresh (bookOf definitions) .assignless st' := h'.congr rfl rfl (lookup_bookOf horder hdistinct)
  refine ⟨1, st, 1, st', hrun, hrun', ?_⟩
  obtain ⟨memo, hwarm⟩ := takeAll_rests hK ⟨0, home, h.mirrors hK⟩ hturns
  have hK' := plain_booked hK hturns
  have hcold := takeAll_fresh hK h' fun t ht =>
    ⟨hturns t (List.mem_filter.1 ht).1, (List.mem_filter.1 ht).2⟩
  rw [booked_filter] at hcold
  exact evaluateAll_repeats hK' id ⟨0, home, hcold.mirrors hK'⟩ hwarm hfields

/-- A definition that calls another one. -/
def doubling : List (String × String) := [("double", "(lambda (x) (+ x x))"), ("y", "(double k)")]

/-- A field that calls a definition with another one. -/
def quadruple : Field := ⟨⟨"t", 0, 0⟩, .list [.symbol "double", .symbol "y"]⟩

/-- A round between two updates. -/
def twoUpdates : List Turn := [.update [("k", .int 1)], .round [quadruple], .update [("k", .int 2)], .sweep []]

theorem doubling_reads : ∀ d ∈ doubling, ∃ e, readFormula d.2 = .ok e ∧ e.AssignsNothing := by
  intro d hd
  simp only [doubling, List.mem_cons, List.not_mem_nil, or_false] at hd
  rcases hd with rfl | rfl
  · exact ⟨.list [.symbol "lambda", .list [.symbol "x"], .list [.symbol "+", .symbol "x", .symbol "x"]], rfl,
      Expr.assignsNothing_of_unassigning (by decide)⟩
  · exact ⟨.list [.symbol "double", .symbol "k"], rfl, Expr.assignsNothing_of_unassigning (by decide)⟩

theorem plain_twoUpdates : ∀ t ∈ twoUpdates, t.Plain := by
  have hfield : quadruple.formula.AssignsNothing := Expr.assignsNothing_of_unassigning (by decide)
  simp [twoUpdates, Turn.Plain, hfield, Value.int, Value.procedures]

/-- A field that was evaluated before an update gives twice over what it gives alone after it. -/
theorem evaluateAll_alone_quadruple :
    (∃ root st root' st', rootOfDefinitions doubling .empty = (.ok root, st) ∧
      rootOfDefinitions doubling.reverse .empty = (.ok root', st') ∧
      Repeats (fun f => (f.evaluate root' (takeAll root' (twoUpdates.filter Turn.isUpdate) st')).1)
        [quadruple, quadruple] (evaluateAll [quadruple, quadruple] root (takeAll root twoUpdates st)).1) ∧
    (evaluateAll [quadruple, quadruple] 1 (takeAll 1 twoUpdates (rootOfDefinitions doubling .empty).2)).1.toOption.map
      (·.map fun a => a.2.text) = some ["8", "8"] := by
  refine ⟨evaluateAll_alone (by decide) doubling_reads (List.reverse_perm _) plain_twoUpdates fun f hf => ?_,
    by decide +kernel⟩
  simp only [List.mem_cons, List.not_mem_nil, or_false, or_self] at hf
  exact hf ▸ Expr.assignsNothing_of_unassigning (by decide)

end Field
end LazyFormula
