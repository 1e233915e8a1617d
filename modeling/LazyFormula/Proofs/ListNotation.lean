import LazyFormula.Proofs.Words
import LazyFormula.SExpr.Reader
/-!
# List notation

Where the text of an expression has leaves that are words of their own, the tokens of the text are the leaves and the
parentheses, and reading them gives the expression back (`Expr.Legible.read_text`).
-/
namespace LazyFormula
namespace SExpr

open Text (isBlank words)

/-! ## Tokens -/

/-- A character that ends a word: white space or a parenthesis. -/
def Cuts (c : Char) : Prop := isBlank c = true ∨ c = '(' ∨ c = ')'

instance (c : Char) : Decidable (Cuts c) := inferInstanceAs (Decidable (_ ∨ _ ∨ _))

/-- What is part of a word of infix text is part of a word of list notation. -/
theorem not_cuts_of_isWord {c : Char} (h : Text.isWord c = true) : ¬ Cuts c := by
  rintro (hblank | rfl | rfl)
  · rw [Text.isBlank_of_isWord h] at hblank
    cases hblank
  · cases h
  · cases h

/-- **A word of list notation.** -/
structure Word (w : List Char) : Prop where
  ne_nil : w ≠ []
  whole : ∀ c ∈ w, ¬ Cuts c

/-- A word of infix text is a word of list notation. -/
theorem word_of_isWord {w : List Char} (hne : w ≠ []) (hw : ∀ c ∈ w, Text.isWord c = true) : Word w :=
  ⟨hne, fun c hc => not_cuts_of_isWord (hw c hc)⟩

theorem Word.cons {c : Char} {w : List Char} (hc : ¬ Cuts c) (hw : Word w) : Word (c :: w) :=
  ⟨List.cons_ne_nil _ _, List.forall_mem_cons.2 ⟨hc, hw.whole⟩⟩

/-- What may stand behind a word. -/
def Ends (rest : List Char) : Prop := ∀ c ∈ rest.head?, Cuts c

theorem ends_cons {c : Char} (hc : Cuts c) (cs : List Char) : Ends (c :: cs) := by
  intro d hd
  cases hd
  exact hc

/-- A text with its parentheses set apart. -/
def spaced (cs : List Char) : List Char := cs.flatMap fun c => if c = '(' || c = ')' then [' ', c, ' '] else [c]

theorem tokenize_eq (cs : List Char) : tokenize cs = words (spaced cs) := rfl

theorem spaced_paren {c : Char} (hc : c = '(' ∨ c = ')') (cs : List Char) :
    spaced (c :: cs) = ' ' :: c :: ' ' :: spaced cs := by
  rcases hc with rfl | rfl <;> rfl

theorem spaced_other {c : Char} (hc : ¬ (c = '(' ∨ c = ')')) (cs : List Char) :
    spaced (c :: cs) = c :: spaced cs := by
  rw [spaced, List.flatMap_cons, if_neg (by simpa using hc)]
  rfl

theorem spaced_blank {c : Char} (hc : isBlank c = true) (cs : List Char) : spaced (c :: cs) = c :: spaced cs := by
  refine spaced_other ?_ cs
  rintro (rfl | rfl) <;> cases hc

theorem spaced_word {w : List Char} (hw : ∀ c ∈ w, ¬ Cuts c) (rest : List Char) :
    spaced (w ++ rest) = w ++ spaced rest := by
  induction w with
  | nil => rfl
  | cons c w ih =>
    rw [List.cons_append, spaced_other fun h => hw c List.mem_cons_self (.inr h),
      ih fun d hd => hw d (List.mem_cons_of_mem _ hd)]
    rfl

theorem Word.words_eq {w : List Char} (hw : Word w) : words w = [w] :=
  Text.words_solid hw.ne_nil fun c hc => by
    rw [Bool.eq_false_iff]
    exact fun h => hw.whole c hc (.inl h)

theorem tokenize_blank {c : Char} (hc : isBlank c = true) (cs : List Char) : tokenize (c :: cs) = tokenize cs := by
  rw [tokenize_eq, spaced_blank hc, Text.words_blank hc, tokenize_eq]

theorem tokenize_paren {c : Char} (hc : c = '(' ∨ c = ')') (cs : List Char) :
    tokenize (c :: cs) = [c] :: tokenize cs := by
  have hword : words [c] = [[c]] := by rcases hc with rfl | rfl <;> rfl
  rw [tokenize_eq, spaced_paren hc, Text.words_blank rfl]
  show words ([c] ++ ' ' :: spaced cs) = _
  rw [Text.words_append_blank rfl, hword, tokenize_eq]
  rfl

/-- **A word is a token** where something that cuts stands behind it, or nothing. -/
theorem tokenize_word {w rest : List Char} (hw : Word w) (hr : Ends rest) :
    tokenize (w ++ rest) = w :: tokenize rest := by
  rw [tokenize_eq, spaced_word hw.whole]
  cases rest with
  | nil =>
    rw [show spaced [] = [] from rfl, List.append_nil, hw.words_eq]
    rfl
  | cons c cs =>
    rcases hr c rfl with hc | hc
    · rw [spaced_blank hc, Text.words_append_blank hc, hw.words_eq, tokenize_blank hc, tokenize_eq]
      rfl
    · rw [tokenize_eq, spaced_paren hc, Text.words_append_blank rfl, hw.words_eq,
        Text.words_blank (c := ' ') rfl]
      rfl

/-! ## Reading tokens -/

theorem Word.ne_paren {w : List Char} (hw : Word w) : w ≠ ['('] ∧ w ≠ [')'] := by
  constructor
  · rintro rfl
    exact hw.whole '(' (List.mem_singleton_self _) (.inr (.inl rfl))
  · rintro rfl
    exact hw.whole ')' (List.mem_singleton_self _) (.inr (.inr rfl))

/-- An expression takes its tokens: outside of lists it is what is read, and inside of one it becomes an item. -/
structure Takes (e : Expr) (ts : List (List Char)) : Prop where
  outside (more : List (List Char)) : readInside [] (ts ++ more) = .ok e
  inside (items : List Expr) (enclosing : List (List Expr)) (more : List (List Char)) :
    readInside (items :: enclosing) (ts ++ more) = readInside ((e :: items) :: enclosing) more

theorem takes_atom {w : List Char} (hopen : w ≠ ['(']) (hclose : w ≠ [')']) : Takes (.atom w) [w] := by
  constructor
  · intro more
    rw [List.singleton_append, readInside.eq_def]
    split <;> simp_all
  · intro items enclosing more
    rw [List.singleton_append, readInside.eq_def]
    split <;> simp_all

theorem Word.takes {w : List Char} (hw : Word w) : Takes (.atom w) [w] := takes_atom hw.ne_paren.1 hw.ne_paren.2

theorem readInside_open (enclosing : List (List Expr)) (more : List (List Char)) :
    readInside enclosing (['('] :: more) = readInside ([] :: enclosing) more := by
  cases enclosing <;> rfl

/-- A list takes the tokens of its items between parentheses. -/
theorem takes_list {items : List Expr} {ts : List (List Char)}
    (h : ∀ enclosing more, readInside ([] :: enclosing) (ts ++ more) = readInside (items.reverse :: enclosing) more) :
    Takes (.list items) (['('] :: (ts ++ [[')']])) := by
  constructor
  · intro more
    rw [List.cons_append, List.append_assoc, readInside_open, h]
    show Except.ok (Expr.list items.reverse.reverse) = _
    rw [List.reverse_reverse]
  · intro outer enclosing more
    rw [List.cons_append, List.append_assoc, readInside_open, h]
    show readInside ((.list items.reverse.reverse :: outer) :: enclosing) more = _
    rw [List.reverse_reverse]

end SExpr

namespace Expr

/-! ## Texts -/

open SExpr (Word Ends Takes)

/-- **An expression whose text can be read**: its leaves are words that are read as these leaves. -/
inductive Legible : Expr → Prop
  | leaf {w : List Char} (hw : Word w) (htext : (atom w).text = .ofList w) : Legible (.atom w)
  | list {items : List Expr} (h : ∀ e ∈ items, Legible e) : Legible (.list items)

/-- The tokens of a text: an expression takes them, and they are the same whatever stands behind the text. -/
def Tokens (e : Expr) (ts : List (List Char)) : Prop :=
  Takes e ts ∧ ∀ rest, Ends rest → SExpr.tokenize (e.text.toList ++ rest) = ts ++ SExpr.tokenize rest

/-- The tokens of items with one space between two of them. -/
theorem exists_tokens_items : ∀ items : List Expr, (∀ e ∈ items, ∃ ts, Tokens e ts) → ∃ ts,
    (∀ read enclosing more, SExpr.readInside (read :: enclosing) (ts ++ more) =
      SExpr.readInside ((items.reverse ++ read) :: enclosing) more) ∧
    ∀ rest, Ends rest → SExpr.tokenize ((textItems items).toList ++ rest) = ts ++ SExpr.tokenize rest
  | [], _ => ⟨[], fun _ _ _ => rfl, fun _ _ => rfl⟩
  | [e], h => by
    obtain ⟨ts, htakes, htext⟩ := h e (List.mem_singleton_self e)
    exact ⟨ts, fun read enclosing more => htakes.inside read enclosing more, htext⟩
  | e :: e' :: items, h => by
    obtain ⟨ts, htakes, htext⟩ := h e List.mem_cons_self
    obtain ⟨us, hreads, htexts⟩ := exists_tokens_items (e' :: items) fun d hd => h d (List.mem_cons_of_mem _ hd)
    refine ⟨ts ++ us, fun read enclosing more => ?_, fun rest hrest => ?_⟩
    · rw [List.append_assoc, htakes.inside, hreads]
      simp
    · have hlist : (textItems (e :: e' :: items)).toList =
          e.text.toList ++ ' ' :: (textItems (e' :: items)).toList := by
        rw [textItems, String.toList_append, String.toList_append]
        · exact List.append_assoc ..
        · nofun
      rw [hlist, List.append_assoc, List.cons_append, htext _ (SExpr.ends_cons (.inl rfl) _), SExpr.tokenize_blank rfl,
        htexts rest hrest, List.append_assoc]

theorem Legible.exists_tokens {e : Expr} (h : e.Legible) : ∃ ts, Tokens e ts := by
  induction h with
  | @leaf w hw htext =>
    refine ⟨[w], hw.takes, fun rest hrest => ?_⟩
    rw [htext, String.toList_ofList]
    exact SExpr.tokenize_word hw hrest
  | @list items _ ih =>
    obtain ⟨ts, hreads, htexts⟩ := exists_tokens_items items ih
    refine ⟨['('] :: (ts ++ [[')']]), SExpr.takes_list fun enclosing more => ?_, fun rest hrest => ?_⟩
    · rw [hreads, List.append_nil]
    · have hlist : (Expr.list items).text.toList = '(' :: ((textItems items).toList ++ [')']) := by
        rw [text, String.toList_append, String.toList_append]
        rfl
      have hclose : Ends (')' :: rest) := SExpr.ends_cons (.inr (.inr rfl)) rest
      rw [hlist, List.cons_append, SExpr.tokenize_paren (.inl rfl), List.append_assoc]
      show ['('] :: SExpr.tokenize ((textItems items).toList ++ ')' :: rest) = _
      rw [htexts _ hclose, SExpr.tokenize_paren (.inr rfl), List.cons_append, List.append_assoc]
      rfl

/-- **What is printed in list notation is read back.** -/
theorem Legible.read_text {e : Expr} (h : e.Legible) : SExpr.read e.text.toList = .ok e := by
  obtain ⟨ts, htakes, htext⟩ := h.exists_tokens
  have htokens := htext [] nofun
  rw [List.append_nil] at htokens
  rw [SExpr.read, htokens]
  exact htakes.outside _

end Expr
end LazyFormula
