import LazyFormula.Proofs.Memoryless
import LazyFormula.Proofs.Renaming
/-!
# What definitions mean

A definition means what its evaluation gives when every definition it refers to is known. That is reached level by
level: a level knows what can be evaluated with what the level before it knows (`level`), and as a book has only so many
definitions, some level knows all there is to know (`meaning`).

An evaluation that remembers forces a definition the first time that it refers to it. Whatever it remembers when it
starts, it finds what the definitions mean (`remember_sound`), and what it remembers already saves it levels and changes
nothing else (`remember_more`).
-/
namespace LazyFormula

/-! ## What is left of an evaluation -/

/-- Where something comes from once the evaluation that made it is over. -/
def Origin.settle (name : String) : Origin → Origin
  | .own k => .settled name k
  | o => o

def Origin.settleCode (name : String) (n : Nat) : Nat := (((ofCode? n).map (settle name)).getD .builtins).code

@[simp] theorem Origin.settleCode_code (name : String) (o : Origin) :
    settleCode name o.code = (o.settle name).code := by
  rw [settleCode, ofCode?_code, Option.map_some, Option.getD_some]

namespace Memoryless

/-- The numbers of what an evaluation made, once it is over. -/
def settling (name : String) : Renaming := ⟨Origin.settleCode name, Origin.settleCode name⟩

def Frame.settle (name : String) (f : Frame) : Frame :=
  ⟨f.ancestors.map (·.settle name), f.bound.map fun x => (x.1, x.2.rename (settling name))⟩

/-- Whether nothing is bound in the scope where an evaluation started. -/
def World.bare (w : World) : Bool := w.frames.head?.all fun f => f.bound.isEmpty

/-- **What a definition leaves behind** when its evaluation is over. If nothing was bound in the scope where it was
evaluated, procedures run in the root instead. -/
def conclude (name : String) (v : Value) (w : World) : Entry where
  value := (if w.bare then v.recapture (Origin.own 0).code Origin.root.code else v).rename (settling name)
  frames := w.frames.map (.settle name)
  consulted := w.consulted

/-- What becomes of a definition, if its evaluation had enough. -/
def judge {σ : Type} (name : String) : Except Halt Value × (World × σ) → Option (Except EvalError Entry)
  | (.ok v, (w, _)) => some (.ok (conclude name v w))
  | (.error (.failed e), _) => some (.error e)
  | (.error .spent, _) => none

theorem judge_eq_ok {σ : Type} {name : String} {p : Except Halt Value × (World × σ)} {entry : Entry}
    (h : judge name p = some (.ok entry)) : ∃ v w q, p = (.ok v, (w, q)) ∧ entry = conclude name v w := by
  obtain ⟨r, w, q⟩ := p
  cases r with
  | ok v =>
    cases h
    exact ⟨v, w, q, rfl, rfl⟩
  | error halt => cases halt <;> cases h

/-! ## Levels -/

variable {K : Book} {T T' : Table} {name : String}

/-- What a table knows of a definition. -/
def reread (T : Table) (name : String) : Run Unit Value :=
  match T name with
  | none => throw .spent
  | some (.error e) => fail e
  | some (.ok entry) => onWorld fun w => (entry.value, w.consult name)

/-- Evaluation with a table. -/
def known (K : Book) (T : Table) : Nat → Expr → Origin → Run Unit Value := run K T fun _ => reread T

/-- **What can be known of the definitions** with so many levels between them. -/
def level (K : Book) : Nat → Table
  | 0 => fun _ => none
  | n + 1 => fun name =>
    (K.definitions.lookup name).bind fun e => judge name (known K (level K n) n e (.own 0) (.scratch, ()))

/-- A table that knows what another one knows. -/
def Table.Below (T T' : Table) : Prop := ∀ name r, T name = some r → T' name = some r

theorem Table.Below.frame? (h : T.Below T') (w : World) (o : Origin) {f : Frame} (hf : frame? K T w o = some f) :
    Memoryless.frame? K T' w o = some f := by
  cases o with
  | builtins | root | own k => exact hf
  | settled name k =>
    cases hr : T name with
    | none =>
      rw [Memoryless.frame?, hr] at hf
      cases hf
    | some r =>
      rw [Memoryless.frame?, hr] at hf
      rw [Memoryless.frame?, h _ _ hr]
      exact hf

/-- Everything that was consulted is known and has a value. -/
def Knows (T : Table) (names : List String) : Prop := ∀ name ∈ names, ∃ entry, T name = some (.ok entry)

/-- **With more known, an evaluation goes the same way**, and consults only what was known. -/
theorem known_lock (h : T.Below T') {m n : Nat} (hmn : m ≤ n) (e : Expr) (o : Origin) :
    Lock (fun c _ _ => Knows T c) (fun _ => True) (known K T m e o) (known K T' n e o) := by
  refine run_lock (Q := fun (_ : Unit) c _ _ => Knows T c) (fun _ _ _ _ _ => trivial)
    (fun w o f hf => h.frame? w o hf) (fun _ _ _ _ name => ?_) m n hmn () e o
  unfold reread
  cases hr : T name with
  | none => exact .spent (fun _ _ _ _ => trivial) _
  | some r =>
    rw [h _ _ hr]
    cases r with
    | error e => exact .fail (fun _ _ _ _ => trivial) e
    | ok entry =>
      intro w q r hw
      refine .same fun c hc => ?_
      rcases List.mem_cons.1 hc with rfl | hc
      · exact ⟨entry, hr⟩
      · exact hw c hc

/-- What was judged stays so when more is known. -/
theorem judge_known (h : T.Below T') {m n : Nat} (hmn : m ≤ n) {e : Expr} {r : Except EvalError Entry}
    (hr : judge name (known K T m e (.own 0) (.scratch, ())) = some r) :
    judge name (known K T' n e (.own 0) (.scratch, ())) = some r ∧ ∀ entry, r = .ok entry →
      Knows T entry.consulted := by
  have hlock := known_lock (K := K) h hmn e (.own 0) .scratch () () nofun
  generalize known K T m e (.own 0) (.scratch, ()) = p at hr hlock
  generalize known K T' n e (.own 0) (.scratch, ()) = p' at hlock ⊢
  cases hlock with
  | spent => cases hr
  | failed _ _ e =>
    cases hr
    exact ⟨rfl, nofun⟩
  | same hknows =>
    cases hr
    exact ⟨rfl, fun entry he => by cases he; exact hknows⟩

theorem level_below_succ : ∀ n, (level K n).Below (level K (n + 1))
  | 0, _, _, h => nomatch h
  | n + 1, name, r, h => by
    obtain ⟨e, he, hr⟩ := Option.bind_eq_some_iff.1 h
    exact Option.bind_eq_some_iff.2 ⟨e, he, (judge_known (level_below_succ n) (Nat.le_succ n) hr).1⟩

theorem level_below {m n : Nat} (h : m ≤ n) : (level K m).Below (level K n) := by
  induction h with
  | refl => exact fun _ _ => id
  | step _ ih => exact fun name r hr => level_below_succ _ name r (ih name r hr)

/-- What is known at a level refers to what is known one level below. -/
theorem knows_consulted {n : Nat} {entry : Entry} (h : level K (n + 1) name = some (.ok entry)) :
    Knows (level K n) entry.consulted := by
  obtain ⟨e, -, hr⟩ := Option.bind_eq_some_iff.1 h
  exact (judge_known (fun _ _ => id) (Nat.le_refl n) hr).2 entry rfl

theorem mem_names_of_level : ∀ {n : Nat} {r : Except EvalError Entry}, level K n name = some r →
    name ∈ K.definitions.map Prod.fst
  | 0, _, h => nomatch h
  | n + 1, r, h => by
    obtain ⟨e, he, -⟩ := Option.bind_eq_some_iff.1 h
    obtain ⟨front, back, hd, -⟩ := List.lookup_eq_some_iff.1 he
    rw [hd]
    exact List.mem_map.2 ⟨(name, e), by simp, rfl⟩

/-- **From some level on nothing more becomes known.** -/
theorem exists_last_level (K : Book) : ∃ last, ∀ n, (level K n).Below (level K last) := by
  have hnames : ∀ names : List String, ∃ last, ∀ name ∈ names, ∀ n r, level K n name = some r →
      level K last name = some r := by
    intro names
    induction names with
    | nil => exact ⟨0, nofun⟩
    | cons name names ih =>
      obtain ⟨last, hlast⟩ := ih
      by_cases hname : ∃ n r, level K n name = some r
      · obtain ⟨n₀, r₀, h₀⟩ := hname
        refine ⟨max n₀ last, fun other hother n r hr => ?_⟩
        rcases List.mem_cons.1 hother with rfl | hother
        · -- two levels that know the name agree on it
          have h₁ := level_below (Nat.le_max_left n₀ n) _ _ h₀
          have h₂ := level_below (Nat.le_max_right n₀ n) _ _ hr
          cases h₁.symm.trans h₂
          exact level_below (Nat.le_max_left n₀ last) _ _ h₀
        · exact level_below (Nat.le_max_right n₀ last) _ _ (hlast other hother n r hr)
      · refine ⟨last, fun other hother n r hr => ?_⟩
        rcases List.mem_cons.1 hother with rfl | hother
        · exact absurd ⟨n, r, hr⟩ hname
        · exact hlast other hother n r hr
  obtain ⟨last, hlast⟩ := hnames (K.definitions.map Prod.fst)
  exact ⟨last, fun n name r hr => hlast _ (mem_names_of_level hr) n r hr⟩

/-- **What the definitions mean.** -/
noncomputable def meaning (K : Book) : Table := level K (exists_last_level K).choose

theorem level_below_meaning (n : Nat) : (level K n).Below (meaning K) := (exists_last_level K).choose_spec n

/-- A definition means what its evaluation gives when the meanings are known. -/
theorem meaning_intro {e : Expr} (he : K.definitions.lookup name = some e) {n : Nat} {r : Except EvalError Entry}
    (hr : judge name (known K (meaning K) n e (.own 0) (.scratch, ())) = some r) : meaning K name = some r := by
  have hle := Nat.le_max_left (exists_last_level K).choose n
  have hknown := (judge_known (level_below hle) (Nat.le_max_right (exists_last_level K).choose n) hr).1
  exact level_below_meaning (max (exists_last_level K).choose n + 1) _ _ (Option.bind_eq_some_iff.2 ⟨e, he, hknown⟩)

/-- A meaning becomes known at some level. -/
theorem exists_first_level {r : Except EvalError Entry} (h : meaning K name = some r) :
    ∃ n, level K n name = none ∧ level K (n + 1) name = some r := by
  unfold meaning at h
  generalize (exists_last_level K).choose = last at h
  induction last with
  | zero => cases h
  | succ n ih =>
    cases hn : level K n name with
    | none => exact ⟨n, hn, h⟩
    | some r' =>
      have hr' := level_below_succ n _ _ hn
      rw [h] at hr'
      cases hr'
      exact ih hn

/-! ## Evaluation that remembers -/

/-- What an evaluation goes on with after it forced a definition. -/
def resume (name : String) (w : World) : Except Halt Value × (World × List String) →
    Except Halt Value × (World × List String)
  | (.ok v, (w', memo)) => (.ok (conclude name v w').value, (w.consult name, name :: memo))
  | (.error h, (_, memo)) => (.error h, (w, memo))

section
variable (K : Book)

/-- A definition is forced, in a world of its own, unless its value is remembered. -/
noncomputable def force (ev : Expr → Origin → Run (List String) Value) (name : String) :
    Run (List String) Value := fun s =>
  if name ∈ s.2 then
    match meaning K name with
    | some (.ok entry) => (.ok entry.value, (s.1.consult name, s.2))
    | _ => (.error .spent, s)
  else
    match K.definitions.lookup name with
    | some e => resume name s.1 (ev e (.own 0) (.scratch, s.2))
    | none => (.error .spent, s)

/-- **Evaluation that remembers the definitions it forced.** -/
noncomputable def remember : Nat → Expr → Origin → Run (List String) Value := run K (meaning K) (force K)

/-- **What can be remembered together**: definitions that have values, with all that these refer to. -/
def Closed (memo : List String) : Prop :=
  ∀ name ∈ memo, ∃ entry, meaning K name = some (.ok entry) ∧ ∀ c ∈ entry.consulted, c ∈ memo

end

theorem closed_nil : Closed K [] := nofun

section
variable {ev : Expr → Origin → Run (List String) Value} {w : World} {memo : List String}

theorem force_remembered (h : name ∈ memo) {entry : Entry} (he : meaning K name = some (.ok entry)) :
    force K ev name (w, memo) = (.ok entry.value, (w.consult name, memo)) := by
  rw [force, if_pos h, he]

theorem force_new (h : name ∉ memo) {e : Expr} (he : K.definitions.lookup name = some e) :
    force K ev name (w, memo) = resume name w (ev e (.own 0) (.scratch, memo)) := by
  rw [force, if_neg h, he]

theorem force_unknown (h : name ∉ memo) (he : K.definitions.lookup name = none) :
    force K ev name (w, memo) = (.error .spent, (w, memo)) := by
  rw [force, if_neg h, he]

end

/-- What an evaluation that started with some definitions remembered has consulted is remembered, and if it remembers
more than at first, it consulted something that it did not remember. -/
structure Recalls (K : Book) (start names memo : List String) : Prop where
  closed : Closed K memo
  grown : ∀ name ∈ start, name ∈ memo
  consulted : ∀ name ∈ names, name ∈ memo
  forced : memo = start ∨ ∃ name ∈ names, name ∉ start

theorem Recalls.start {memo : List String} (h : Closed K memo) : Recalls K memo [] memo :=
  ⟨h, fun _ => id, nofun, .inl rfl⟩

theorem Recalls.consult {start names memo : List String} (h : Recalls K start names memo) (hn : name ∈ memo) :
    Recalls K start (name :: names) memo where
  closed := h.closed
  grown := h.grown
  consulted c hc := by
    rcases List.mem_cons.1 hc with rfl | hc
    · exact hn
    · exact h.consulted c hc
  forced := h.forced.imp_right fun ⟨c, hc, hs⟩ => ⟨c, List.mem_cons_of_mem _ hc, hs⟩

/-- An evaluation that consults only what was remembered remembers no more. -/
theorem Recalls.eq_start {start names memo : List String} (h : Recalls K start names memo)
    (hn : ∀ name ∈ names, name ∈ start) : memo = start :=
  h.forced.resolve_right fun ⟨c, hc, hs⟩ => hs (hn c hc)

/-- A definition is remembered with what it refers to. -/
theorem Closed.cons {memo : List String} (h : Closed K memo) {entry : Entry} (he : meaning K name = some (.ok entry))
    (hc : ∀ c ∈ entry.consulted, c ∈ memo) : Closed K (name :: memo) := by
  intro n hn
  rcases List.mem_cons.1 hn with rfl | hn
  · exact ⟨entry, he, fun c h => List.mem_cons_of_mem _ (hc c h)⟩
  · obtain ⟨entry', he', hc'⟩ := h n hn
    exact ⟨entry', he', fun c h => List.mem_cons_of_mem _ (hc' c h)⟩

theorem Closed.append {memo memo' : List String} (h : Closed K memo) (h' : Closed K memo') :
    Closed K (memo ++ memo') := by
  intro n hn
  rcases List.mem_append.1 hn with hn | hn
  · obtain ⟨entry, he, hc⟩ := h n hn
    exact ⟨entry, he, fun c h => List.mem_append_left _ (hc c h)⟩
  · obtain ⟨entry, he, hc⟩ := h' n hn
    exact ⟨entry, he, fun c h => List.mem_append_right _ (hc c h)⟩

/-- A definition that was forced is remembered, with what was remembered when it was over. -/
theorem Recalls.force {start names memo names' memo' : List String} (h : Recalls K start names memo)
    (h' : Recalls K memo names' memo') (hname : name ∉ memo) {entry : Entry} (he : meaning K name = some (.ok entry))
    (hc : ∀ c ∈ entry.consulted, c ∈ memo') : Recalls K start (name :: names) (name :: memo') where
  closed := h'.closed.cons he hc
  grown c hc := List.mem_cons_of_mem _ (h'.grown c (h.grown c hc))
  consulted c hc := by
    rcases List.mem_cons.1 hc with rfl | hc
    · exact List.mem_cons_self
    · exact List.mem_cons_of_mem _ (h'.grown c (h.consulted c hc))
  forced := by
    right
    rcases h.forced with hstart | ⟨c, hc, hs⟩
    · exact ⟨name, List.mem_cons_self, hstart ▸ hname⟩
    · exact ⟨c, List.mem_cons_of_mem _ hc, hs⟩

/-- **An evaluation that remembers finds what the definitions mean.** -/
theorem remember_sound (n : Nat) (start : List String) (e : Expr) (o : Origin) :
    Lock (fun c memo _ => Recalls K start c memo) (Closed K) (remember K n e o) (known K (meaning K) n e o) := by
  refine run_lock (Q := fun start c memo (_ : Unit) => Recalls K start c memo) (fun _ _ _ _ h => h.closed)
    (fun _ _ _ hf => hf) (fun m n' ih start name w memo _ h => ?_) n n (Nat.le_refl n) start e o
  by_cases hname : name ∈ memo
  · obtain ⟨entry, he, -⟩ := h.closed name hname
    rw [force_remembered hname he, reread, he]
    exact .same (h.consult hname)
  cases hdef : K.definitions.lookup name with
  | none =>
    rw [force_unknown hname hdef]
    exact .spent h.closed _
  | some e =>
    rw [force_new hname hdef]
    have hlock := ih memo e (.own 0) .scratch memo () (.start h.closed)
    have hmeans : ∀ {r}, judge name (known K (meaning K) n' e (.own 0) (.scratch, ())) = some r →
        meaning K name = some r :=
      meaning_intro hdef
    rw [known] at hmeans
    generalize run K (meaning K) (force K) m e (.own 0) (.scratch, memo) = p at hlock
    generalize run K (meaning K) (fun _ => reread (meaning K)) n' e (.own 0) (.scratch, ()) = p' at hlock hmeans
    cases hlock with
    | spent hclosed => exact .spent hclosed _
    | failed hclosed _ e =>
      rw [reread, hmeans rfl]
      exact .failed hclosed _ e
    | @same v w' memo' _ h' =>
      rw [reread, hmeans rfl]
      exact .same (h.force h' hname (hmeans rfl) h'.consulted)

/-- **A definition that has a value means just that.** What it consulted is remembered afterwards, and if all of that
was remembered before, nothing else is. -/
theorem meaning_of_remember {n : Nat} {memo memo' : List String} (h : Closed K memo) {e : Expr}
    (he : K.definitions.lookup name = some e) {v : Value} {w : World}
    (hrun : remember K n e (.own 0) (.scratch, memo) = (.ok v, (w, memo'))) :
    meaning K name = some (.ok (conclude name v w)) ∧ Recalls K memo w.consulted memo' := by
  have hlock := remember_sound n memo e (.own 0) .scratch memo () (.start h)
  have hmeans : ∀ {r}, judge name (known K (meaning K) n e (.own 0) (.scratch, ())) = some r →
      meaning K name = some r :=
    meaning_intro he
  rw [hrun] at hlock
  generalize known K (meaning K) n e (.own 0) (.scratch, ()) = p' at hlock hmeans
  cases hlock with
  | same h' => exact ⟨hmeans rfl, h'⟩

/-- A definition that fails means nothing. -/
theorem meaning_of_failed {n : Nat} {memo : List String} (h : Closed K memo) {e : Expr}
    (he : K.definitions.lookup name = some e) {error : EvalError} {s : World × List String}
    (hrun : remember K n e (.own 0) (.scratch, memo) = (.error (.failed error), s)) :
    meaning K name = some (.error error) := by
  have hlock := remember_sound n memo e (.own 0) .scratch memo () (.start h)
  have hmeans : ∀ {r}, judge name (known K (meaning K) n e (.own 0) (.scratch, ())) = some r →
      meaning K name = some r :=
    meaning_intro he
  rw [hrun] at hlock
  generalize known K (meaning K) n e (.own 0) (.scratch, ()) = p' at hlock hmeans
  cases hlock with
  | failed => exact hmeans rfl

/-- What an evaluation remembers beside one that remembered more from the start. -/
structure Exceeds (K : Book) (names memo memo' : List String) : Prop where
  closed : Closed K memo
  closed' : Closed K memo'
  subset : ∀ name ∈ memo, name ∈ memo'
  consulted : ∀ name ∈ names, name ∈ memo'

theorem Exceeds.consult {names memo memo' memo₁ memo₁' : List String} (h : Exceeds K names memo memo')
    (h₁ : Closed K memo₁) (h₁' : Closed K memo₁') (hsub : ∀ c ∈ memo₁, c ∈ memo₁')
    (hname : name ∈ memo₁')
    (hgrown : ∀ c ∈ memo', c ∈ memo₁') : Exceeds K (name :: names) memo₁ memo₁' := by
  refine ⟨h₁, h₁', hsub, fun c hc => ?_⟩
  rcases List.mem_cons.1 hc with rfl | hc
  · exact hname
  · exact hgrown c (h.consulted c hc)

/-- **What is remembered already saves levels and changes nothing else.** -/
theorem remember_more {m n : Nat} (hmn : m ≤ n) (e : Expr) (o : Origin) :
    Lock (Exceeds K) (fun _ => True) (remember K m e o) (remember K n e o) := by
  refine run_lock (Q := fun (_ : Unit) => Exceeds K) (fun _ _ _ _ _ => trivial) (fun _ _ _ hf => hf)
    (fun m n ih _ name w memo memo' h => ?_) m n hmn () e o
  by_cases hname : name ∈ memo
  · obtain ⟨entry, he, -⟩ := h.closed name hname
    rw [force_remembered hname he, force_remembered (h.subset name hname) he]
    exact .same (h.consult h.closed h.closed' h.subset (h.subset name hname) fun _ => id)
  cases hdef : K.definitions.lookup name with
  | none =>
    rw [force_unknown hname hdef]
    exact .spent trivial _
  | some e =>
    rw [force_new hname hdef]
    have hlock := ih () e (.own 0) .scratch memo memo' ⟨h.closed, h.closed', h.subset, nofun⟩
    have hvalue : ∀ v w₁ memo₁, remember K m e (.own 0) (.scratch, memo) = (.ok v, (w₁, memo₁)) →
        meaning K name = some (.ok (conclude name v w₁)) ∧ Recalls K memo w₁.consulted memo₁ :=
      fun _ _ _ => meaning_of_remember h.closed hdef
    have hvalue' : ∀ v w₁ memo₁, remember K n e (.own 0) (.scratch, memo') = (.ok v, (w₁, memo₁)) →
        meaning K name = some (.ok (conclude name v w₁)) ∧ Recalls K memo' w₁.consulted memo₁ :=
      fun _ _ _ => meaning_of_remember h.closed' hdef
    have herror : ∀ error s, remember K m e (.own 0) (.scratch, memo) = (.error (.failed error), s) →
        meaning K name = some (.error error) := fun _ _ => meaning_of_failed h.closed hdef
    have hnew : name ∉ memo' → force K (run K (meaning K) (force K) n) name (w, memo') =
        resume name w (run K (meaning K) (force K) n e (.own 0) (.scratch, memo')) := fun h => force_new h hdef
    rw [remember] at hvalue hvalue' herror
    generalize run K (meaning K) (force K) m e (.own 0) (.scratch, memo) = p at hlock hvalue herror ⊢
    generalize run K (meaning K) (force K) n e (.own 0) (.scratch, memo') = p' at hlock hvalue' hnew
    cases hlock with
    | spent => exact .spent trivial _
    | @failed w₁ _ memo₁ _ _ error =>
      by_cases hname' : name ∈ memo'
      · -- what failed is not remembered
        obtain ⟨entry, he, -⟩ := h.closed' name hname'
        rw [herror error _ rfl] at he
        cases he
      · rw [hnew hname']
        exact .failed trivial _ error
    | @same v w₁ memo₁ memo₁' h₁ =>
      obtain ⟨hmeaning, hrecalls⟩ := hvalue v w₁ memo₁ rfl
      obtain ⟨-, hrecalls'⟩ := hvalue' v w₁ memo₁' rfl
      have hclosed := hrecalls.closed.cons hmeaning hrecalls.consulted
      by_cases hname' : name ∈ memo'
      · -- all that the definition refers to was remembered with it, so it was forced to no effect
        obtain ⟨entry, he, hconsulted⟩ := h.closed' name hname'
        rw [force_remembered hname' he]
        cases hmeaning.symm.trans he
        have hnothing : memo₁' = memo' := hrecalls'.eq_start hconsulted
        refine .same (h.consult hclosed h.closed' (fun c hc => ?_) hname' fun _ => id)
        rcases List.mem_cons.1 hc with rfl | hc
        · exact hname'
        · exact hnothing ▸ h₁.subset c hc
      · rw [hnew hname']
        refine .same (h.consult hclosed (hrecalls'.closed.cons hmeaning hrecalls'.consulted) (fun c hc => ?_)
          List.mem_cons_self fun c hc => List.mem_cons_of_mem _ (hrecalls'.grown c hc))
        rcases List.mem_cons.1 hc with rfl | hc
        · exact List.mem_cons_self
        · exact List.mem_cons_of_mem _ (h₁.subset c hc)

/-- The definitions whose values can be known with so many levels between them. -/
def knownWithin (K : Book) (k : Nat) : List String :=
  (K.definitions.map Prod.fst).filter fun c => (level K k c).any Except.isOk

theorem mem_knownWithin {k : Nat} {c : String} : c ∈ knownWithin K k ↔
    ∃ entry, level K k c = some (.ok entry) := by
  rw [knownWithin, List.mem_filter]
  constructor
  · rintro ⟨-, hc⟩
    rw [Option.any_eq_true] at hc
    obtain ⟨error | entry, hr, hok⟩ := hc
    · cases hok
    · exact ⟨entry, hr⟩
  · rintro ⟨entry, hc⟩
    exact ⟨mem_names_of_level hc, by rw [hc]; rfl⟩

theorem closed_knownWithin (k : Nat) : Closed K (knownWithin K k) := by
  intro c hc
  obtain ⟨entry, hk⟩ := mem_knownWithin.1 hc
  refine ⟨entry, level_below_meaning k _ _ hk, fun d hd => ?_⟩
  cases k with
  | zero => cases hk
  | succ k =>
    obtain ⟨entry', hd'⟩ := knows_consulted hk d hd
    exact mem_knownWithin.2 ⟨entry', level_below_succ k _ _ hd'⟩

/-- **A definition is not forced while it is forced**, if it has a value: it would refer to itself before it is
known. -/
theorem not_mem_of_remember {n : Nat} {memo memo' : List String} (h : Closed K memo) {e : Expr}
    (he : K.definitions.lookup name = some e) {v : Value} {w : World}
    (hrun : remember K n e (.own 0) (.scratch, memo) = (.ok v, (w, memo'))) (hname : name ∉ memo) :
    name ∉ memo' := by
  obtain ⟨hmeaning, -⟩ := meaning_of_remember h he hrun
  obtain ⟨k, hnone, hfirst⟩ := exists_first_level hmeaning
  -- beside this run, one that remembers all that is known before the definition is
  have hbefore : Closed K (memo ++ knownWithin K k) := h.append (closed_knownWithin k)
  have hlock := remember_more (K := K) (Nat.le_refl n) e (.own 0) .scratch memo (memo ++ knownWithin K k)
    ⟨h, hbefore, fun c hc => List.mem_append_left _ hc, nofun⟩
  have hvalue : ∀ v w₁ memo₁, remember K n e (.own 0) (.scratch, memo ++ knownWithin K k) =
      (.ok v, (w₁, memo₁)) →
      meaning K name = some (.ok (conclude name v w₁)) ∧
        Recalls K (memo ++ knownWithin K k) w₁.consulted memo₁ :=
    fun _ _ _ => meaning_of_remember hbefore he
  rw [hrun] at hlock
  generalize remember K n e (.own 0) (.scratch, memo ++ knownWithin K k) = p at hlock hvalue
  cases hlock with
  | @same _ _ _ memo₁ h₁ =>
    obtain ⟨-, hrecalls⟩ := hvalue v w memo₁ rfl
    have hnothing : memo₁ = memo ++ knownWithin K k := hrecalls.eq_start fun c hc =>
      List.mem_append_right _ (mem_knownWithin.2 (knows_consulted hfirst c hc))
    intro hmem
    rcases List.mem_append.1 (hnothing ▸ h₁.subset name hmem) with hmem | hmem
    · exact hname hmem
    · obtain ⟨entry, hlevel⟩ := mem_knownWithin.1 hmem
      rw [hnone] at hlevel
      cases hlevel

end Memoryless
end LazyFormula
