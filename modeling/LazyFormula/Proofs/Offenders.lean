import LazyFormula.Proofs.AlgebraGrammar
/-!
# What the errors of algebra point at

The tokens before a place can be continued to an expression exactly if the reader takes them all (`viable_iff`): what
it keeps pending can always be completed. So the token that it refuses first is the first one behind which nothing can
make an expression, and a character that starts no token is to blame only if no token before it is
(`Algebra.read_error`).
-/
namespace LazyFormula
namespace Algebra

/-! ## Places of a text -/

/-- What stands at the places of a text, one after the other: its tokens, and behind the last of them the end, unless
a character stands there that starts no token. -/
def Lexed.places (l : Lexed) : List (Option Token) := l.tokens.map some ++ if l.bad.isNone then [none] else []

/-- **Some expression with the end behind it starts with these places.** -/
def Viable (places : List (Option Token)) : Prop := ∃ ts e, Derives .sum ts e ∧ places <+: ts.map some ++ [none]

theorem Viable.earlier {places earlier : List (Option Token)} (h : Viable places) (he : earlier <+: places) :
    Viable earlier := by
  obtain ⟨ts, e, hts, hp⟩ := h
  exact ⟨ts, e, hts, he.trans hp⟩

/-- **What is pending can be completed**: an operand if one is due, and a closing parenthesis for every open one. -/
theorem State.exists_completion (s : State) :
    ∃ more e, (∀ t ∈ more, t.Proper) ∧ run more s >>= State.finish = .ok e := by
  have hread : ∀ (outer : List Pending) (operand : Expr) (here : Pending), ∃ more e, (∀ t ∈ more, t.Proper) ∧
      run more (.operandRead operand here outer) >>= State.finish = .ok e := by
    intro outer
    induction outer with
    | nil => exact fun operand here => ⟨[], here.total operand, List.forall_mem_nil _, rfl⟩
    | cons next outer ih =>
      intro operand here
      obtain ⟨more, e, hmore, hrun⟩ := ih (here.total operand) next
      exact ⟨.rightParen :: more, e, List.forall_mem_cons.2 ⟨trivial, hmore⟩, hrun⟩
  cases s with
  | operandRead operand here outer => exact hread outer operand here
  | operandDue here outer =>
    obtain ⟨more, e, hmore, hrun⟩ := hread outer (.list []) here
    exact ⟨.atom (.list []) :: more, e, List.forall_mem_cons.2 ⟨trivial, hmore⟩, hrun⟩

/-- **Tokens can be continued to an expression exactly if the reader takes them.** -/
theorem viable_iff {ts : List Token} (ht : ∀ t ∈ ts, t.Proper) : Viable (ts.map some) ↔
    ∃ s, run ts .start = .ok s := by
  constructor
  · rintro ⟨us, e, hus, hp⟩
    obtain ⟨vs, rfl⟩ : ts <+: us := by simpa using hp.filterMap id
    have hrun := hus.finish
    rw [run_append] at hrun
    cases hts : run ts .start with
    | ok s => exact ⟨s, rfl⟩
    | error error =>
      rw [hts] at hrun
      cases hrun
  · rintro ⟨s, hs⟩
    obtain ⟨more, e, hmore, hrun⟩ := s.exists_completion
    refine ⟨ts ++ more, e, derives_of_finish (List.forall_mem_append.2 ⟨ht, hmore⟩) ?_, ?_⟩
    · rw [run_append, hs]
      exact hrun
    · rw [List.map_append, List.append_assoc]
      exact List.prefix_append _ _

/-- They are an expression exactly if the reader is content at the end. -/
theorem viable_end_iff {ts : List Token} (ht : ∀ t ∈ ts, t.Proper) :
    Viable (ts.map some ++ [none]) ↔ ∃ e, run ts .start >>= State.finish = .ok e := by
  constructor
  · rintro ⟨us, e, hus, hp⟩
    have hwhole : ts.map some = us.map some := by
      rcases List.prefix_concat_iff.1 hp with h | h
      · exact (List.append_left_inj _).1 h
      · exact absurd (h.subset (List.mem_append_right _ (List.mem_singleton_self none))) (by simp)
    obtain rfl : ts = us := List.map_inj_right (fun _ _ => Option.some.inj) |>.1 hwhole
    exact ⟨e, hus.finish⟩
  · rintro ⟨e, he⟩
    exact ⟨ts, e, derives_of_finish ht he, List.prefix_rfl⟩

/-! ## What is due -/

/-- Whether a token opens, or closes, a parenthesis. -/
def Token.opens : Token → Bool
  | .leftParen => true
  | _ => false

def Token.closes : Token → Bool
  | .rightParen => true
  | _ => false

/-- **Whether an operand is due** behind some tokens: behind none, an operator or an opening parenthesis. -/
def lacksOperand (ts : List Token) : Bool :=
  match ts.getLast? with
  | none | some (.operator _) | some .leftParen => true
  | some (.atom _) | some .rightParen => false

/-- **What was due behind some tokens.** -/
def dueAfter (ts : List Token) : String :=
  if lacksOperand ts then "expected term"
  else if ts.countP Token.closes < ts.countP Token.opens then "expected ')'"
  else "expected end of input"

/-- What a state shows of the tokens that bring the reader to it. -/
def State.Shows (ts : List Token) : State → Prop
  | .operandDue _ outer => lacksOperand ts = true ∧ ts.countP Token.closes + outer.length = ts.countP Token.opens
  | .operandRead _ _ outer => lacksOperand ts = false ∧ ts.countP Token.closes + outer.length = ts.countP Token.opens

theorem State.Shows.step {s s' : State} {ts : List Token} {t : Token} (h : s.Shows ts) (hs : s.step t = .ok s') :
    s'.Shows (ts ++ [t]) := by
  have hlast : (ts ++ [t]).getLast? = some t := List.getLast?_concat
  cases s with
  | operandDue here outer =>
    obtain ⟨-, hcount⟩ := h
    cases t with
    | atom e =>
      cases hs
      exact ⟨by rw [lacksOperand, hlast], by simpa [Token.closes, Token.opens] using hcount⟩
    | leftParen =>
      cases hs
      refine ⟨by rw [lacksOperand, hlast], ?_⟩
      simp only [List.countP_append, List.countP_singleton, Token.closes, Token.opens, List.length_cons, if_true,
        if_false, Bool.false_eq_true]
      omega
    | operator op | rightParen => cases hs
  | operandRead e here outer =>
    obtain ⟨-, hcount⟩ := h
    cases t with
    | operator op =>
      cases hs
      exact ⟨by rw [lacksOperand, hlast], by simpa [Token.closes, Token.opens] using hcount⟩
    | rightParen =>
      cases outer with
      | nil => cases hs
      | cons next outer =>
        cases hs
        refine ⟨by rw [lacksOperand, hlast], ?_⟩
        simp only [List.countP_append, List.countP_singleton, Token.closes, Token.opens, if_true, if_false,
          Bool.false_eq_true]
        simp only [List.length_cons] at hcount
        omega
    | atom _ | leftParen => cases outer <;> cases hs

theorem State.Shows.run {us : List Token} : ∀ {s s' : State} {ts : List Token}, s.Shows ts →
    Algebra.run us s = .ok s' → s'.Shows (ts ++ us) := by
  induction us with
  | nil =>
    intro s s' ts h hs
    cases hs
    rwa [List.append_nil]
  | cons t us ih =>
    intro s s' ts h hs
    rw [run_cons] at hs
    cases ht : s.step t with
    | error e =>
      rw [ht] at hs
      cases hs
    | ok s₁ =>
      rw [ht] at hs
      have hall := ih (h.step ht) hs
      rwa [List.append_assoc] at hall

theorem State.shows_of_run {ts : List Token} {s : State} (h : Algebra.run ts .start = .ok s) : s.Shows ts := by
  have hstart : State.start.Shows [] := ⟨rfl, rfl⟩
  exact hstart.run h

/-- **The error of a place names what stands there and what was due.** -/
theorem State.Shows.refuse {s : State} {ts : List Token} (h : s.Shows ts) (found : Option Token) :
    (s.refuse found).found = shown found ∧ (s.refuse found).problem = dueAfter ts := by
  cases s with
  | operandDue here outer => exact ⟨rfl, by rw [dueAfter, h.1]; rfl⟩
  | operandRead e here outer =>
    obtain ⟨hdue, hcount⟩ := h
    cases outer with
    | nil =>
      refine ⟨rfl, ?_⟩
      rw [List.length_nil] at hcount
      rw [dueAfter, hdue, if_neg Bool.false_ne_true, if_neg (by omega)]
      rfl
    | cons next outer =>
      refine ⟨rfl, ?_⟩
      rw [List.length_cons] at hcount
      rw [dueAfter, hdue, if_neg Bool.false_ne_true, if_pos (by omega)]
      rfl

/-! ## What is refused -/

theorem State.error_of_step {s : State} {t : Token} {error : SyntaxError} (h : s.step t = .error error) :
    error = s.refuse (some t) := by
  cases s with
  | operandDue here outer => cases t <;> cases h <;> rfl
  | operandRead e here outer => cases outer <;> cases t <;> cases h <;> rfl

theorem State.error_of_finish {s : State} {error : SyntaxError} (h : s.finish = .error error) :
    error = s.refuse none := by
  cases s with
  | operandDue here outer =>
    cases h
    rfl
  | operandRead e here outer =>
    cases outer with
    | nil => cases h
    | cons frame outer =>
      cases h
      rfl

/-- The reader stops at the first token that it cannot take. -/
theorem run_eq_error {ts : List Token} {error : SyntaxError} : ∀ {s : State}, run ts s = .error error →
    ∃ before t after s', ts = before ++ t :: after ∧ run before s = .ok s' ∧ s'.step t = .error error := by
  induction ts with
  | nil => exact fun h => by cases h
  | cons t ts ih =>
    intro s h
    rw [run_cons] at h
    cases ht : s.step t with
    | error error' =>
      rw [ht] at h
      cases h
      exact ⟨[], t, ts, s, rfl, rfl, ht⟩
    | ok s₁ =>
      rw [ht] at h
      obtain ⟨before, u, after, s', rfl, hrun, hu⟩ := ih h
      refine ⟨t :: before, u, after, s', rfl, ?_, hu⟩
      rw [run_cons, ht]
      exact hrun

/-- **A syntax error points at the first place that cannot be right.** Either it names a token, or the end, that is the
first one behind which nothing can make an expression, and says what was due there: an operand, a closing parenthesis
or the end. Or all places can be right up to a character that starts no token, and it names this character. -/
theorem read_error {cs : List Char} {error : SyntaxError} (h : read cs = .error error) :
    (∃ before found after, (lex cs).places = before.map some ++ found :: after ∧
      (∀ earlier, earlier <+: before.map some → Viable earlier) ∧ ¬ Viable (before.map some ++ [found]) ∧
      error.found = shown found ∧ error.problem = dueAfter before) ∨
    ∃ c, (lex cs).bad = some c ∧ (∀ earlier, earlier <+: (lex cs).places → Viable earlier) ∧
      error.found = .singleton c ∧ error.problem = "unexpected character" := by
  have hproper := lex_proper cs
  unfold read at h
  generalize lex cs = l at h hproper ⊢
  rcases l with ⟨ts, bad⟩
  change (run ts .start >>= fun s => _) = _ at h
  cases hrun : run ts .start with
  | error refusal =>
    rw [hrun] at h
    cases h
    obtain ⟨before, t, after, s, rfl, hs, hstep⟩ := run_eq_error hrun
    obtain ⟨hbefore, hafter⟩ := List.forall_mem_append.1 hproper
    refine .inl ⟨before, some t, after.map some ++ if bad.isNone then [none] else [], ?_, ?_, ?_, ?_⟩
    · simp [Lexed.places]
    · exact fun earlier => ((viable_iff hbefore).2 ⟨s, hs⟩).earlier
    · rw [show before.map some ++ [some t] = (before ++ [t]).map some by simp, viable_iff]
      · rintro ⟨s', hs'⟩
        rw [run_append, hs] at hs'
        change run [t] s = _ at hs'
        rw [run_cons, hstep] at hs'
        cases hs'
      · exact List.forall_mem_append.2 ⟨hbefore, List.forall_mem_singleton.2 (hafter t List.mem_cons_self)⟩
    · rw [State.error_of_step hstep]
      exact (State.shows_of_run hs).refuse _
  | ok s =>
    rw [hrun] at h
    have hviable : ∀ earlier, earlier <+: ts.map some → Viable earlier := fun earlier =>
      ((viable_iff hproper).2 ⟨s, hrun⟩).earlier
    cases bad with
    | some c =>
      cases h
      refine .inr ⟨c, rfl, ?_, rfl, rfl⟩
      rwa [Lexed.places, Option.isNone_some, if_neg Bool.false_ne_true, List.append_nil]
    | none =>
      change s.finish = _ at h
      refine .inl ⟨ts, none, [], rfl, hviable, ?_, ?_⟩
      · rw [viable_end_iff hproper, hrun]
        rintro ⟨e, he⟩
        cases h.symm.trans he
      · rw [State.error_of_finish h]
        exact (State.shows_of_run hrun).refuse _

/-- The closing parenthesis is to blame, and not the character behind it. -/
theorem read_error_before_character :
    read "(1+)$".toList = .error (.expectedTerm (some .rightParen)) ∧
      ((∃ before found after, (lex "(1+)$".toList).places = before.map some ++ found :: after ∧
        (∀ earlier, earlier <+: before.map some → Viable earlier) ∧ ¬ Viable (before.map some ++ [found]) ∧
        ")" = shown found ∧ "expected term" = dueAfter before) ∨
      ∃ c, (lex "(1+)$".toList).bad = some c ∧
        (∀ earlier, earlier <+: (lex "(1+)$".toList).places → Viable earlier) ∧
        ")" = .singleton c ∧ "expected term" = "unexpected character") := by
  have hread : read "(1+)$".toList = .error (.expectedTerm (some .rightParen)) := by rfl
  exact ⟨hread, read_error hread⟩

end Algebra
end LazyFormula
