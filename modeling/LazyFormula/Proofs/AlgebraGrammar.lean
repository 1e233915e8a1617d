import LazyFormula.Algebra.Reader
/-!
# The grammar of algebra

What infix text means is said by a grammar: sums of products of powers of terms. The reader accepts exactly the token
lists that the grammar derives and answers with the tree that is derived, of which there is one
(`Algebra.read_grammar`). One direction follows a derivation and sees what the reader keeps pending at its end
(`Derives.reads`); the other follows the reader and sees what the tokens behind it derive (`State.After.step`).
-/
namespace LazyFormula
namespace Algebra

/-- How tight an expression binds, the loosest first. -/
inductive Level where
  | sum
  | product
  | power
  | term
deriving DecidableEq, Repr

/-- **The grammar of infix text.** Sums and products group to the left, powers to the right. -/
inductive Derives : Level → List Token → Expr → Prop
  | ofProduct {ts : List Token} {e : Expr} (h : Derives .product ts e) : Derives .sum ts e
  | add {ts us : List Token} {l r : Expr} {op : Char} (hop : op = '+' ∨ op = '-') (hl : Derives .sum ts l)
      (hr : Derives .product us r) : Derives .sum (ts ++ .operator op :: us) (.binary op l r)
  | ofPower {ts : List Token} {e : Expr} (h : Derives .power ts e) : Derives .product ts e
  | multiply {ts us : List Token} {l r : Expr} {op : Char} (hop : op = '*' ∨ op = '/') (hl : Derives .product ts l)
      (hr : Derives .power us r) : Derives .product (ts ++ .operator op :: us) (.binary op l r)
  | ofTerm {ts : List Token} {e : Expr} (h : Derives .term ts e) : Derives .power ts e
  | raise {ts us : List Token} {l r : Expr} (hl : Derives .term ts l) (hr : Derives .power us r) :
      Derives .power (ts ++ .operator '^' :: us) (.binary '^' l r)
  | atom (e : Expr) : Derives .term [.atom e] e
  | parens {ts : List Token} {e : Expr} (h : Derives .sum ts e) : Derives .term (.leftParen :: (ts ++ [.rightParen])) e

/-! ## What is derived is read -/

/-- The reader goes over some tokens. -/
def run (ts : List Token) (s : State) : Except SyntaxError State := ts.foldlM State.step s

theorem run_append (ts us : List Token) (s : State) : run (ts ++ us) s = run ts s >>= run us := List.foldlM_append

theorem run_cons (t : Token) (ts : List Token) (s : State) : run (t :: ts) s = s.step t >>= run ts := List.foldlM_cons

/-- **What the reader does with the tokens of an expression** of some level: in the end it has read an operand, which
makes up the expression together with what is pending there. -/
def Reads : Level → List Token → Expr → Prop
  | .sum, ts, e => ∀ outer, ∃ e' p, run ts (.operandDue .empty outer) = .ok (.operandRead e' p outer) ∧
      p.total e' = e
  | .product, ts, e => ∀ sum outer, ∃ e' p, run ts (.operandDue ⟨sum, none, []⟩ outer) =
      .ok (.operandRead e' p outer) ∧ p.sum = sum ∧ p.factor e' = e
  | .power, ts, e => ∀ here outer, ∃ e' p, run ts (.operandDue here outer) = .ok (.operandRead e' p outer) ∧
      p.sum = here.sum ∧ p.product = here.product ∧ p.power e' = here.power e
  | .term, ts, e => ∀ here outer, run ts (.operandDue here outer) = .ok (.operandRead e here outer)

theorem Pending.push_sum {op : Char} (hop : op = '+' ∨ op = '-') (p : Pending) (e : Expr) :
    p.push e op = ⟨some (p.total e, op), none, []⟩ := by
  rcases hop with rfl | rfl <;> rfl

theorem Pending.push_product {op : Char} (hop : op = '*' ∨ op = '/') (p : Pending) (e : Expr) :
    p.push e op = ⟨p.sum, some (p.factor e, op), []⟩ := by
  rcases hop with rfl | rfl <;> rfl

theorem Pending.push_power (p : Pending) (e : Expr) : p.push e '^' = ⟨p.sum, p.product, e :: p.bases⟩ := rfl

/-- After an operand and an operator an operand is due. -/
theorem run_operator {ts us : List Token} {s : State} {e : Expr} {p : Pending} {outer : List Pending} (op : Char)
    (h : run ts s = .ok (.operandRead e p outer)) :
    run (ts ++ .operator op :: us) s = run us (.operandDue (p.push e op) outer) := by
  rw [run_append, h]
  show run (.operator op :: us) (.operandRead e p outer) = _
  rw [run_cons]
  rfl

theorem Derives.reads {level : Level} {ts : List Token} {e : Expr} (h : Derives level ts e) : Reads level ts e := by
  induction h with
  | ofProduct _ ih =>
    intro outer
    obtain ⟨e', p, hrun, hsum, hfactor⟩ := ih none outer
    refine ⟨e', p, hrun, ?_⟩
    rw [Pending.total, hsum, hfactor]
    rfl
  | @add ts us l r op hop _ _ ihl ihr =>
    intro outer
    obtain ⟨l', p, hrun, rfl⟩ := ihl outer
    obtain ⟨r', q, hrun', hsum, hfactor⟩ := ihr (some (p.total l', op)) outer
    refine ⟨r', q, ?_, ?_⟩
    · rw [run_operator op hrun, Pending.push_sum hop, hrun']
    · rw [Pending.total, hsum, hfactor]
      rfl
  | ofPower _ ih =>
    intro sum outer
    obtain ⟨e', p, hrun, hsum, hproduct, hpower⟩ := ih ⟨sum, none, []⟩ outer
    refine ⟨e', p, hrun, hsum, ?_⟩
    rw [Pending.factor, hproduct, hpower]
    rfl
  | @multiply ts us l r op hop _ _ ihl ihr =>
    intro sum outer
    obtain ⟨l', p, hrun, hsum, rfl⟩ := ihl sum outer
    obtain ⟨r', q, hrun', hsum', hproduct, hpower⟩ := ihr ⟨p.sum, some (p.factor l', op), []⟩ outer
    refine ⟨r', q, ?_, hsum'.trans hsum, ?_⟩
    · rw [run_operator op hrun, Pending.push_product hop, hrun']
    · rw [Pending.factor, hproduct, hpower]
      rfl
  | ofTerm _ ih =>
    intro here outer
    exact ⟨_, here, ih here outer, rfl, rfl, rfl⟩
  | @raise ts us l r _ _ ihl ihr =>
    intro here outer
    -- the base waits behind the bases that are pending already, and the fold over them takes it first
    obtain ⟨r', q, hrun, hsum, hproduct, hpower⟩ := ihr ⟨here.sum, here.product, l :: here.bases⟩ outer
    refine ⟨r', q, ?_, hsum, hproduct, ?_⟩
    · rw [run_operator '^' (ihl here outer), Pending.push_power, hrun]
    · rw [hpower]
      rfl
  | atom e => exact fun _ _ => rfl
  | @parens ts e _ ih =>
    intro here outer
    obtain ⟨e', p, hrun, rfl⟩ := ih (here :: outer)
    rw [run_cons]
    show run (ts ++ [.rightParen]) (.operandDue .empty (here :: outer)) = _
    rw [run_append, hrun]
    rfl

theorem Derives.finish {ts : List Token} {e : Expr} (h : Derives .sum ts e) :
    run ts .start >>= State.finish = .ok e := by
  obtain ⟨e', p, hrun, rfl⟩ := h.reads []
  rw [State.start, hrun]
  rfl

/-- **A token list derives at most one tree.** -/
theorem Derives.unique {ts : List Token} {e e' : Expr} (h : Derives .sum ts e) (h' : Derives .sum ts e') : e = e' :=
  Except.ok.inj (h.finish.symm.trans h'.finish)

/-! ## What is read is derived -/

/-- The tokens behind a sum or a product that lacks its right operand. -/
def Lacking (level : Level) (ops : Char → Prop) : Option (Expr × Char) → List Token → Prop
  | none, ts => ts = []
  | some (l, op), ts => ops op ∧ ∃ us, ts = us ++ [.operator op] ∧ Derives level us l

/-- The tokens behind the bases of powers that lack their exponent. -/
inductive Bases : List Expr → List Token → Prop
  | nil : Bases [] []
  | cons {bases : List Expr} {ts us : List Token} {e : Expr} (h : Bases bases ts) (he : Derives .term us e) :
      Bases (e :: bases) (ts ++ us ++ [.operator '^'])

/-- **The tokens behind what is pending** inside one pair of parentheses. -/
def Pending.Behind (p : Pending) (ts : List Token) : Prop :=
  ∃ us vs ws, ts = us ++ vs ++ ws ∧ Lacking .sum (fun op => op = '+' ∨ op = '-') p.sum us ∧
    Lacking .product (fun op => op = '*' ∨ op = '/') p.product vs ∧ Bases p.bases ws

theorem Pending.behind_empty : Pending.empty.Behind [] := ⟨[], [], [], rfl, rfl, rfl, .nil⟩

/-- The tokens up to the place inside some open parentheses. -/
inductive Opened : List Pending → List Token → Prop
  | nil : Opened [] []
  | cons {outer : List Pending} {p : Pending} {ts us : List Token} (h : Opened outer ts) (hp : p.Behind us) :
      Opened (p :: outer) (ts ++ us ++ [.leftParen])

/-- **The tokens that bring the reader to a state.** -/
inductive State.After : State → List Token → Prop
  | operandDue {here : Pending} {outer : List Pending} {ts us : List Token} (ho : Opened outer ts)
      (hp : here.Behind us) : After (.operandDue here outer) (ts ++ us)
  | operandRead {here : Pending} {outer : List Pending} {ts us vs : List Token} {e : Expr} (ho : Opened outer ts)
      (hp : here.Behind us) (he : Derives .term vs e) : After (.operandRead e here outer) (ts ++ us ++ vs)

theorem Bases.derives {bases : List Expr} {ts : List Token} (h : Bases bases ts) :
    ∀ {us : List Token} {e : Expr}, Derives .power us e →
      Derives .power (ts ++ us) (bases.foldl (fun exponent base => .binary '^' base exponent) e) := by
  induction h with
  | nil => exact id
  | @cons bases ts vs base _ hb ih =>
    intro us e he
    rw [List.append_assoc, List.append_assoc, List.foldl_cons]
    exact ih (.raise hb he)

/-- An operand completes the power, the product and the sum that are pending to its left. -/
theorem Pending.Behind.derives {p : Pending} {ts vs : List Token} {e : Expr} (hp : p.Behind ts)
    (he : Derives .term vs e) :
    ∃ us ws, ts ++ vs = us ++ ws ∧ Lacking .sum (fun op => op = '+' ∨ op = '-') p.sum us ∧
      Derives .product ws (p.factor e) := by
  obtain ⟨us, ws, bs, rfl, hsum, hproduct, hbases⟩ := hp
  have hpower : Derives .power (bs ++ vs) (p.power e) := hbases.derives (.ofTerm he)
  refine ⟨us, ws ++ (bs ++ vs), by simp only [List.append_assoc], hsum, ?_⟩
  unfold Pending.factor
  cases hp : p.product with
  | none =>
    rw [hp] at hproduct
    cases hproduct
    exact .ofPower hpower
  | some left =>
    rw [hp] at hproduct
    obtain ⟨hop, xs, rfl, hl⟩ := hproduct
    rw [List.append_assoc]
    exact .multiply hop hl hpower

theorem Pending.Behind.total {p : Pending} {ts vs : List Token} {e : Expr} (hp : p.Behind ts)
    (he : Derives .term vs e) : Derives .sum (ts ++ vs) (p.total e) := by
  obtain ⟨us, ws, heq, hsum, hfactor⟩ := hp.derives he
  rw [heq]
  unfold Pending.total
  cases hp : p.sum with
  | none =>
    rw [hp] at hsum
    cases hsum
    exact .ofProduct hfactor
  | some left =>
    rw [hp] at hsum
    obtain ⟨hop, xs, rfl, hl⟩ := hsum
    rw [List.append_assoc]
    exact .add hop hl hfactor

/-- What is pending after an operand and an operator. -/
theorem Pending.Behind.push {p : Pending} {ts vs : List Token} {e : Expr} {op : Char} (hp : p.Behind ts)
    (he : Derives .term vs e) (hop : isOperator op = true) : (p.push e op).Behind (ts ++ vs ++ [.operator op]) := by
  have hcases : (op = '+' ∨ op = '-') ∨ (op = '*' ∨ op = '/') ∨ op = '^' := by
    simp only [isOperator, Bool.or_eq_true, beq_iff_eq] at hop
    rcases hop with (((h | h) | h) | h) | h <;> simp [h]
  rcases hcases with h | h | rfl
  · rw [Pending.push_sum h]
    exact ⟨ts ++ vs ++ [.operator op], [], [], by simp, ⟨h, _, rfl, hp.total he⟩, rfl, .nil⟩
  · obtain ⟨us, ws, heq, hsum, hfactor⟩ := hp.derives he
    rw [Pending.push_product h, heq]
    exact ⟨us, ws ++ [.operator op], [], by simp, hsum, ⟨h, _, rfl, hfactor⟩, .nil⟩
  · obtain ⟨us, ws, bs, rfl, hsum, hproduct, hbases⟩ := hp
    rw [Pending.push_power]
    exact ⟨us, ws, bs ++ vs ++ [.operator '^'], by simp only [List.append_assoc], hsum, hproduct, .cons hbases he⟩

/-- The tokens that texts have. -/
def Token.Proper : Token → Prop
  | .operator op => isOperator op = true
  | _ => True

/-- **A token that the reader takes comes after the tokens before it.** -/
theorem State.After.step {s s' : State} {ts : List Token} {t : Token} (h : s.After ts) (ht : t.Proper)
    (hs : s.step t = .ok s') : s'.After (ts ++ [t]) := by
  cases h with
  | operandDue ho hp =>
    cases t with
    | atom e =>
      cases hs
      exact .operandRead ho hp (.atom e)
    | leftParen =>
      cases hs
      have := State.After.operandDue (ho.cons hp) Pending.behind_empty
      rwa [List.append_nil] at this
    | operator op | rightParen => cases hs
  | @operandRead here outer os us vs e ho hp he =>
    cases t with
    | operator op =>
      cases hs
      rw [List.append_assoc os, List.append_assoc os]
      exact .operandDue ho (hp.push he ht)
    | rightParen =>
      cases ho with
      | nil => cases hs
      | @cons outer p os ws ho hq =>
        cases hs
        have hterm : Derives .term (.leftParen :: ((us ++ vs) ++ [.rightParen])) (here.total e) := .parens (hp.total he)
        have hafter := State.After.operandRead ho hq hterm
        simpa only [List.append_assoc, List.cons_append, List.nil_append] using hafter
    | atom _ | leftParen => cases outer <;> cases hs

theorem State.After.run {us : List Token} (hu : ∀ t ∈ us, t.Proper) : ∀ {s s' : State} {ts : List Token},
    s.After ts → Algebra.run us s = .ok s' → s'.After (ts ++ us) := by
  induction us with
  | nil =>
    intro s s' ts h hs
    cases hs
    rwa [List.append_nil]
  | cons t us ih =>
    intro s s' ts h hs
    rw [run_cons] at hs
    cases ht : s.step t with
    | error e =>
      rw [ht] at hs
      cases hs
    | ok s₁ =>
      rw [ht] at hs
      have h₁ := h.step (hu t List.mem_cons_self) ht
      have := ih (fun u hm => hu u (List.mem_cons_of_mem _ hm)) h₁ hs
      rwa [List.append_assoc] at this

/-- What the whole text derives if the reader is content at its end. -/
theorem State.After.finish {s : State} {ts : List Token} {e : Expr} (h : s.After ts) (hs : s.finish = .ok e) :
    Derives .sum ts e := by
  cases h with
  | operandDue => cases hs
  | @operandRead here outer os us vs e' ho hp he =>
    cases ho with
    | nil =>
      cases hs
      exact hp.total he
    | cons => cases hs

theorem derives_of_finish {ts : List Token} {e : Expr} (ht : ∀ t ∈ ts, t.Proper)
    (h : run ts .start >>= State.finish = .ok e) : Derives .sum ts e := by
  have hstart : State.start.After [] := .operandDue .nil Pending.behind_empty
  cases hs : run ts .start with
  | error err =>
    rw [hs] at h
    cases h
  | ok s =>
    rw [hs] at h
    exact (hstart.run ht hs).finish h

/-! ## Texts -/

theorem mem_consWord {t : Token} {word : List Char} {l : Lexed} (h : t ∈ (Lexed.consWord word l).tokens) :
    t ∈ l.tokens ∨ word ≠ [] ∧ t = .atom (.atom word.reverse) := by
  unfold Lexed.consWord at h
  split at h
  · exact .inl h
  · rename_i hne
    exact (List.mem_cons.1 h).symm.imp_right fun h => ⟨fun hnil => hne (List.isEmpty_iff.2 hnil), h⟩

theorem punctuation_proper {c : Char} {t : Token} (h : punctuation? c = some t) : t.Proper := by
  unfold punctuation? at h
  split at h
  · rename_i hc
    cases h
    exact hc
  · split at h
    · cases h
      trivial
    · split at h
      · cases h
        trivial
      · cases h

/-- **A token of a text is punctuation or a word.** -/
theorem mem_lexAfter (word cs : List Char) (hword : ∀ c ∈ word, Text.isWord c = true) :
    ∀ t ∈ (lexAfter word cs).tokens, (∃ c, punctuation? c = some t) ∨
      ∃ w, w ≠ [] ∧ (∀ c ∈ w, Text.isWord c = true) ∧ t = .atom (.atom w) := by
  have hbehind : ∀ {word : List Char}, (∀ c ∈ word, Text.isWord c = true) → ∀ {l : Lexed} {t : Token},
      t ∈ (Lexed.consWord word l).tokens →
        t ∈ l.tokens ∨ ∃ w, w ≠ [] ∧ (∀ c ∈ w, Text.isWord c = true) ∧ t = .atom (.atom w) := by
    intro word hword l t ht
    refine (mem_consWord ht).imp_right fun ⟨hne, heq⟩ => ⟨word.reverse, List.reverse_ne_nil_iff.2 hne, ?_, heq⟩
    exact fun c hc => hword c (List.mem_reverse.1 hc)
  intro t ht
  fun_induction lexAfter word cs with
  | case1 word => exact (hbehind hword ht).elim (fun h => by cases h) .inr
  | case2 word c cs hc ih => exact ih (List.forall_mem_cons.2 ⟨hc, hword⟩) ht
  | case3 word c cs hc ih =>
    rcases hbehind hword ht with ht | hw
    · split at ht
      · exact ih (List.forall_mem_nil _) ht
      · split at ht
        · rename_i u hu
          rcases List.mem_cons.1 ht with rfl | ht
          · exact .inl ⟨c, hu⟩
          · exact ih (List.forall_mem_nil _) ht
        · cases ht
    · exact .inr hw

/-- The operators among the tokens of a text are the five. -/
theorem lex_proper (cs : List Char) : ∀ t ∈ (lex cs).tokens, t.Proper := by
  intro t ht
  rcases mem_lexAfter [] cs (List.forall_mem_nil _) t ht with ⟨c, hc⟩ | ⟨w, -, -, rfl⟩
  · exact punctuation_proper hc
  · trivial

/-- A text is read if it has no bad character and the reader is content with its tokens. -/
theorem read_eq_ok_iff {cs : List Char} {e : Expr} :
    read cs = .ok e ↔ ∃ ts, tokenize cs = .ok ts ∧ run ts .start >>= State.finish = .ok e := by
  unfold read tokenize
  rcases lex cs with ⟨ts, bad⟩
  cases bad with
  | none =>
    show run ts .start >>= State.finish = .ok e ↔ _
    constructor
    · exact fun h => ⟨ts, rfl, h⟩
    · rintro ⟨us, hu, h⟩
      cases hu
      exact h
  | some c =>
    show (run ts .start >>= fun _ => .error (.unexpectedCharacter c)) = .ok e ↔ _
    constructor
    · intro h
      cases hs : run ts .start with
      | error err =>
        rw [hs] at h
        cases h
      | ok s =>
        rw [hs] at h
        cases h
    · rintro ⟨us, hu, -⟩
      cases hu

theorem tokenize_eq_ok {cs : List Char} {ts : List Token} (h : tokenize cs = .ok ts) : ts = (lex cs).tokens := by
  unfold tokenize at h
  split at h
  · rename_i us hu
    cases h
    rw [hu]
  · cases h

theorem tokenize_proper {cs : List Char} {ts : List Token} (h : tokenize cs = .ok ts) : ∀ t ∈ ts, t.Proper := by
  rw [tokenize_eq_ok h]
  exact lex_proper cs

/-- **The reader accepts exactly its grammar.** It answers a tree exactly if the text has tokens and these derive the
tree; no token list derives two trees; and every text that has none is refused with a syntax error. -/
theorem read_grammar (cs : List Char) :
    (∀ e, read cs = .ok e ↔ ∃ ts, tokenize cs = .ok ts ∧ Derives .sum ts e) ∧
      (∀ ts e e', Derives .sum ts e → Derives .sum ts e' → e = e') ∧
      ((¬ ∃ ts e, tokenize cs = .ok ts ∧ Derives .sum ts e) →
        ∃ error : SyntaxError, read cs = .error error) := by
  have hread : ∀ e, read cs = .ok e ↔ ∃ ts, tokenize cs = .ok ts ∧ Derives .sum ts e := by
    intro e
    rw [read_eq_ok_iff]
    constructor
    · rintro ⟨ts, ht, h⟩
      exact ⟨ts, ht, derives_of_finish (tokenize_proper ht) h⟩
    · rintro ⟨ts, ht, h⟩
      exact ⟨ts, ht, h.finish⟩
  refine ⟨hread, fun _ _ _ => Derives.unique, fun hnone => ?_⟩
  cases hr : read cs with
  | error error => exact ⟨error, rfl⟩
  | ok e =>
    obtain ⟨ts, ht, h⟩ := (hread e).1 hr
    exact absurd ⟨ts, e, ht, h⟩ hnone

end Algebra
end LazyFormula
