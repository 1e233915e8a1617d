import LazyFormula.Proofs.ListNotation
/-!
# The grammar of lists

List notation has one production for words and one for lists, and a text is read as what its first tokens derive
(`SExpr.read_first`). From a derivation to the reader goes what an expression takes (`Derives.takes`); the other way the
lists that are open are followed (`Opened`). What is refused is told from the tokens alone, by counting parentheses.
-/
namespace LazyFormula
namespace SExpr

mutual
/-- **The grammar of list notation**: a token that is no parenthesis is a leaf, and a list is its items between
parentheses. -/
inductive Derives : List (List Char) → Expr → Prop
  | atom {w : List Char} (hopen : w ≠ ['(']) (hclose : w ≠ [')']) : Derives [w] (.atom w)
  | list {ts : List (List Char)} {es : List Expr} (h : DerivesItems ts es) :
      Derives (['('] :: (ts ++ [[')']])) (.list es)

/-- Items are expressions one after the other. -/
inductive DerivesItems : List (List Char) → List Expr → Prop
  | nil : DerivesItems [] []
  | cons {ts us : List (List Char)} {e : Expr} {es : List Expr} (h : Derives ts e) (hs : DerivesItems us es) :
      DerivesItems (ts ++ us) (e :: es)
end

theorem Derives.ne_nil {ts : List (List Char)} {e : Expr} (h : Derives ts e) : ts ≠ [] := by
  cases h with
  | atom | list => exact List.cons_ne_nil _ _

/-- No expression starts with a closing parenthesis. -/
theorem Derives.head_ne {ts rest more : List (List Char)} {e : Expr} (h : Derives ts e) :
    ts ++ rest ≠ [')'] :: more := by
  cases h with
  | atom _ hclose => exact fun heq => hclose (List.cons.inj heq).1
  | list => exact fun heq => absurd (List.cons.inj heq).1 (by decide)

theorem DerivesItems.concat : ∀ {ts us : List (List Char)} {es : List Expr} {e : Expr}, DerivesItems ts es →
    Derives us e → DerivesItems (ts ++ us) (es ++ [e])
  | _, us, _, _, .nil, he => by
    have h := DerivesItems.cons he .nil
    rwa [List.append_nil] at h
  | _, _, _, _, .cons h hs, he => by
    rw [List.append_assoc]
    exact .cons h (hs.concat he)

/-! ## What is derived is read -/

mutual
theorem Derives.takes : ∀ {ts : List (List Char)} {e : Expr}, Derives ts e → Takes e ts
  | _, _, .atom hopen hclose => takes_atom hopen hclose
  | _, _, .list h => takes_list fun enclosing more => by rw [h.takes [] enclosing more, List.append_nil]

/-- Items are gathered in the innermost list that is open, the last one first. -/
theorem DerivesItems.takes : ∀ {ts : List (List Char)} {es : List Expr}, DerivesItems ts es →
    ∀ items enclosing more, readInside (items :: enclosing) (ts ++ more) =
      readInside ((es.reverse ++ items) :: enclosing) more
  | _, _, .nil, _, _, _ => rfl
  | _, _, .cons h hs, items, enclosing, more => by
    rw [List.append_assoc, h.takes.inside, hs.takes, List.reverse_cons, List.append_assoc]
    rfl
end

/-! ## What is read is derived -/

/-- The tokens up to the place inside some open lists. -/
inductive Opened : List (List Expr) → List (List Char) → Prop
  | nil : Opened [] []
  | cons {enclosing : List (List Expr)} {items : List Expr} {ts us : List (List Char)} (h : Opened enclosing ts)
      (hitems : DerivesItems us items.reverse) : Opened (items :: enclosing) (ts ++ ['('] :: us)

/-- One more item in the innermost list. -/
theorem Opened.item {enclosing : List (List Expr)} {items : List Expr} {ts us : List (List Char)} {e : Expr}
    (h : Opened (items :: enclosing) ts) (he : Derives us e) : Opened ((e :: items) :: enclosing) (ts ++ us) := by
  cases h with
  | cons h hitems =>
    rw [List.append_assoc, List.cons_append]
    refine .cons h ?_
    rw [List.reverse_cons]
    exact hitems.concat he

/-- The innermost list is closed: its tokens come last. -/
theorem Opened.close {enclosing : List (List Expr)} {items : List Expr} {ts : List (List Char)}
    (h : Opened (items :: enclosing) ts) :
    ∃ us vs, ts ++ [[')']] = us ++ vs ∧ Opened enclosing us ∧ Derives vs (.list items.reverse) := by
  cases h with
  | @cons _ _ us vs h hitems =>
    exact ⟨us, ['('] :: (vs ++ [[')']]), by rw [List.append_assoc]; rfl, h, .list hitems⟩

/-- **An expression that is read is derived by the tokens up to its end**, those inside the open lists included. -/
theorem derives_of_readInside (enclosing : List (List Expr)) (more : List (List Char)) {before : List (List Char)}
    {e : Expr} (ho : Opened enclosing before) (h : readInside enclosing more = .ok e) :
    ∃ ts rest, before ++ more = ts ++ rest ∧ Derives ts e := by
  fun_induction readInside enclosing more generalizing before with
  | case1 | case2 | case4 => cases h
  | case3 enclosing more ih =>
    have hopen : Opened ([] :: enclosing) (before ++ [['(']]) := ho.cons .nil
    obtain ⟨ts, rest, heq, hts⟩ := ih hopen h
    refine ⟨ts, rest, ?_, hts⟩
    rw [← heq, List.append_assoc]
    rfl
  | case5 items more =>
    cases h
    obtain ⟨us, vs, heq, hus, hvs⟩ := ho.close
    cases hus
    refine ⟨vs, more, ?_, hvs⟩
    rw [← List.nil_append vs, ← heq, List.append_assoc]
    rfl
  | case6 items outer enclosing more ih =>
    obtain ⟨us, vs, heq, hus, hvs⟩ := ho.close
    obtain ⟨ts, rest, hts, he⟩ := ih (hus.item hvs) h
    refine ⟨ts, rest, ?_, he⟩
    rw [← hts, ← heq, List.append_assoc]
    rfl
  | case7 w more hopen hclose =>
    cases h
    cases ho
    exact ⟨[w], more, rfl, .atom hopen hclose⟩
  | case8 items enclosing w more hopen hlast hinner ih =>
    have hclose : w ≠ [')'] := by
      cases enclosing with
      | nil => exact hlast rfl
      | cons outer enclosing => exact hinner outer enclosing rfl
    obtain ⟨ts, rest, heq, hts⟩ := ih (ho.item (.atom hopen hclose)) h
    refine ⟨ts, rest, ?_, hts⟩
    rw [← heq, List.append_assoc]
    rfl

/-! ## One expression -/

mutual
/-- **Of the tokens of a text only one prefix derives an expression**, and it derives one. -/
theorem Derives.unique : ∀ {ts us rest more : List (List Char)} {e d : Expr}, Derives ts e → Derives us d →
    ts ++ rest = us ++ more → ts = us ∧ e = d
  | _, _, _, _, _, _, .atom _ _, .atom _ _, heq => by
    obtain ⟨rfl, -⟩ := List.cons.inj heq
    exact ⟨rfl, rfl⟩
  | _, _, _, _, _, _, .atom hopen _, .list _, heq => absurd (List.cons.inj heq).1 hopen
  | _, _, _, _, _, _, .list _, .atom hopen _, heq => absurd (List.cons.inj heq).1.symm hopen
  | _, _, _, _, _, _, .list h, .list h', heq => by
    rw [List.cons_append, List.cons_append, List.append_assoc, List.append_assoc] at heq
    obtain ⟨rfl, rfl⟩ := h.unique h' (List.cons.inj heq).2
    exact ⟨rfl, rfl⟩

theorem DerivesItems.unique : ∀ {ts us rest more : List (List Char)} {es ds : List Expr}, DerivesItems ts es →
    DerivesItems us ds → ts ++ [')'] :: rest = us ++ [')'] :: more → ts = us ∧ es = ds
  | _, _, _, _, _, _, .nil, .nil, _ => ⟨rfl, rfl⟩
  | _, _, _, _, _, _, .nil, .cons h _, heq => by
    rw [List.append_assoc] at heq
    exact absurd heq.symm h.head_ne
  | _, _, _, _, _, _, .cons h _, .nil, heq => by
    rw [List.append_assoc] at heq
    exact absurd heq h.head_ne
  | _, _, _, _, _, _, .cons h hs, .cons h' hs', heq => by
    rw [List.append_assoc, List.append_assoc] at heq
    obtain ⟨rfl, rfl⟩ := h.unique h' heq
    obtain ⟨rfl, rfl⟩ := hs.unique hs' (List.append_cancel_left heq)
    exact ⟨rfl, rfl⟩
end

/-! ## What is refused -/

/-- Of the lists that are open, some tokens close `n` at most. -/
def ClosesAtMost (n : Nat) (ts : List (List Char)) : Prop :=
  ∀ before, before <+: ts → before.count [')'] ≤ before.count ['('] + n

/-- **The first token opens a list that is never closed.** -/
def Unclosed (ts : List (List Char)) : Prop := ∃ more, ts = ['('] :: more ∧ ClosesAtMost 0 more

theorem closesAtMost_nil (n : Nat) : ClosesAtMost n [] := by
  intro before h
  rw [List.prefix_nil.1 h]
  exact Nat.zero_le _

theorem closesAtMost_cons {n : Nat} {t : List Char} {ts : List (List Char)} : ClosesAtMost n (t :: ts) ↔
    ∀ before, before <+: ts → (t :: before).count [')'] ≤ (t :: before).count ['('] + n := by
  constructor
  · exact fun h before hb => h (t :: before) ((List.prefix_cons_inj t).2 hb)
  · intro h before hb
    rcases List.prefix_cons_iff.1 hb with rfl | ⟨rest, rfl, hrest⟩
    · exact Nat.zero_le _
    · exact h rest hrest

theorem closesAtMost_open {n : Nat} {ts : List (List Char)} :
    ClosesAtMost n (['('] :: ts) ↔ ClosesAtMost (n + 1) ts := by
  rw [closesAtMost_cons]
  refine forall₂_congr fun before _ => ?_
  rw [List.count_cons_self, List.count_cons_of_ne (by decide), Nat.add_right_comm, Nat.add_assoc]

theorem closesAtMost_close {n : Nat} {ts : List (List Char)} :
    ClosesAtMost (n + 1) ([')'] :: ts) ↔ ClosesAtMost n ts := by
  rw [closesAtMost_cons]
  refine forall₂_congr fun before _ => ?_
  rw [List.count_cons_self, List.count_cons_of_ne (by decide), ← Nat.add_assoc, Nat.add_le_add_iff_right]

theorem not_closesAtMost_zero (ts : List (List Char)) : ¬ ClosesAtMost 0 ([')'] :: ts) := by
  intro h
  have hfirst := closesAtMost_cons.1 h [] List.nil_prefix
  exact absurd hfirst (by decide)

theorem closesAtMost_word {n : Nat} {w : List Char} (hopen : w ≠ ['(']) (hclose : w ≠ [')'])
    {ts : List (List Char)} :
    ClosesAtMost n (w :: ts) ↔ ClosesAtMost n ts := by
  rw [closesAtMost_cons]
  refine forall₂_congr fun before _ => ?_
  rw [List.count_cons_of_ne hopen, List.count_cons_of_ne hclose]

/-- **Inside a list the reader fails exactly if the list is not closed.** -/
theorem readInside_eq_error_iff (ts : List (List Char)) : ∀ (items : List Expr) (enclosing : List (List Expr))
    (error : SyntaxError), readInside (items :: enclosing) ts = .error error ↔
      ClosesAtMost enclosing.length ts ∧ error = .unclosedList := by
  induction ts with
  | nil =>
    intro items enclosing error
    simp only [readInside, closesAtMost_nil, true_and, Except.error.injEq, eq_comm]
  | cons t ts ih =>
    intro items enclosing error
    by_cases hopen : t = ['(']
    · rw [hopen, readInside_open, ih, List.length_cons, closesAtMost_open]
    by_cases hclose : t = [')']
    · rw [hclose]
      cases enclosing with
      | nil => simp only [readInside, List.length_nil, not_closesAtMost_zero, false_and, reduceCtorEq]
      | cons outer enclosing => rw [readInside, ih, List.length_cons, closesAtMost_close]
    · rw [show t :: ts = [t] ++ ts from rfl, (takes_atom hopen hclose).inside, ih, List.singleton_append,
        closesAtMost_word hopen hclose]

/-- Why a text is refused: it has no token, or the first one closes a list, or opens one that is never closed. -/
theorem read_eq_error_iff (cs : List Char) (error : SyntaxError) : read cs = .error error ↔
    tokenize cs = [] ∧ error = .nothingToRead ∨ (tokenize cs).head? = some [')'] ∧ error = .unexpectedClosing ∨
      Unclosed (tokenize cs) ∧ error = .unclosedList := by
  rw [read]
  rcases tokenize cs with - | ⟨t, ts⟩
  · simp [readInside, Unclosed, eq_comm]
  by_cases hopen : t = ['(']
  · rw [hopen, readInside_open, readInside_eq_error_iff]
    simp [Unclosed]
  by_cases hclose : t = [')']
  · rw [hclose]
    simp [readInside, Unclosed, eq_comm]
  · rw [show t :: ts = [t] ++ ts from rfl, (takes_atom hopen hclose).outside]
    simp [Unclosed, hopen, hclose]

theorem read_eq_ok_iff (cs : List Char) (e : Expr) :
    read cs = .ok e ↔ ∃ ts rest, tokenize cs = ts ++ rest ∧ ts ≠ [] ∧ Derives ts e := by
  constructor
  · intro h
    obtain ⟨ts, rest, heq, he⟩ := derives_of_readInside [] _ .nil h
    exact ⟨ts, rest, heq, he.ne_nil, he⟩
  · rintro ⟨ts, rest, heq, -, he⟩
    rw [read, heq]
    exact he.takes.outside rest

/-- **Exactly the first expression of a text is read.** It is what a prefix of the tokens derives; no two prefixes of
one text derive anything, and no prefix derives two expressions; two texts with the same such prefix are read alike.
A text without such a prefix has no token, or its first one closes a list, or its first one opens a list that is not
closed; each is refused in its own way. -/
theorem read_first (cs : List Char) :
    (∀ e, read cs = .ok e ↔ ∃ ts rest, tokenize cs = ts ++ rest ∧ ts ≠ [] ∧ Derives ts e) ∧
      (∀ ts rest us more e d, ts ++ rest = us ++ more → Derives ts e → Derives us d → ts = us ∧ e = d) ∧
      (∀ ts rest more e other, Derives ts e → tokenize cs = ts ++ rest → tokenize other = ts ++ more →
        read cs = read other) ∧
      ((¬ ∃ ts rest e, tokenize cs = ts ++ rest ∧ Derives ts e) →
        tokenize cs = [] ∨ (tokenize cs).head? = some [')'] ∨ Unclosed (tokenize cs)) ∧
      ((tokenize cs).head? = some [')'] → ∃ error, read cs = .error error ∧ error.found = ")") ∧
      (tokenize cs = [] ∨ Unclosed (tokenize cs) → ∃ error, read cs = .error error ∧ error.found = "") := by
  refine ⟨read_eq_ok_iff cs, fun ts rest us more e d heq he hd => he.unique hd heq, ?_, ?_, ?_, ?_⟩
  · intro ts rest more e other he hcs hother
    have hread := (read_eq_ok_iff cs e).2 ⟨ts, rest, hcs, he.ne_nil, he⟩
    rw [hread, (read_eq_ok_iff other e).2 ⟨ts, more, hother, he.ne_nil, he⟩]
  · intro hnone
    cases hread : read cs with
    | ok e =>
      obtain ⟨ts, rest, hts, -, he⟩ := (read_eq_ok_iff cs e).1 hread
      exact absurd ⟨ts, rest, e, hts, he⟩ hnone
    | error error =>
      rcases (read_eq_error_iff cs error).1 hread with h | h | h
      · exact .inl h.1
      · exact .inr (.inl h.1)
      · exact .inr (.inr h.1)
  · exact fun h => ⟨.unexpectedClosing, (read_eq_error_iff cs _).2 (.inr (.inl ⟨h, rfl⟩)), rfl⟩
  · rintro (h | h)
    · exact ⟨.nothingToRead, (read_eq_error_iff cs _).2 (.inl ⟨h, rfl⟩), rfl⟩
    · exact ⟨.unclosedList, (read_eq_error_iff cs _).2 (.inr (.inr ⟨h, rfl⟩)), rfl⟩

end SExpr
end LazyFormula
