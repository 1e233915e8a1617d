import LazyFormula.Grammar
import LazyFormula.Proofs.Depth
import LazyFormula.Proofs.ListGrammar
import LazyFormula.Proofs.Notations
import LazyFormula.Proofs.Numerals
import LazyFormula.Proofs.Spelling
/-!
# Printing and reading back

Whatever notation a tree was read in, its text in list notation is read as the same tree (`Expr.reads_back`). Every leaf
that a reader makes comes from a word, and the text of that leaf is a word which makes the same leaf again
(`Expr.legible_atom`): a symbol is its own word, and a number is written as a word that reads as it. What is left is to
see that list notation cuts its texts into words and parentheses, and infix notation into words and operators.
-/
namespace LazyFormula

namespace Expr

/-! ## Leaves -/

theorem legible_number (n : Number) : (number n).Legible := by
  have hatom : atom n.text.toList = .number n := by rw [atom, n.read?_text]
  rw [← hatom]
  refine .leaf n.word_text ?_
  rw [hatom, String.ofList_toList, text]

/-- **A word makes a leaf that can be read back**, also where the leaf is not written as the word was. -/
theorem legible_atom {w : List Char} (hw : SExpr.Word w) : (atom w).Legible := by
  cases hread : Number.read? w with
  | some n =>
    rw [atom, hread]
    exact legible_number n
  | none =>
    refine .leaf hw ?_
    rw [atom, hread, text]

end Expr

/-! ## What is read in list notation -/

namespace SExpr

mutual
/-- Tokens derive legible trees. -/
theorem Derives.legible : ∀ {ts : List (List Char)} {e : Expr}, Derives ts e → (∀ t ∈ ts, Token t) → e.Legible
  | _, _, .atom hopen hclose, ht =>
    Expr.legible_atom (((ht _ (List.mem_singleton_self _)).resolve_left hopen).resolve_left hclose)
  | _, _, .list h, ht => .list (h.legible (List.forall_mem_append.1 (List.forall_mem_cons.1 ht).2).1)

theorem DerivesItems.legible : ∀ {ts : List (List Char)} {es : List Expr}, DerivesItems ts es →
    (∀ t ∈ ts, Token t) → ∀ e ∈ es, e.Legible
  | _, _, .nil, _ => List.forall_mem_nil _
  | _, _, .cons h hs, ht =>
    List.forall_mem_cons.2 ⟨h.legible (List.forall_mem_append.1 ht).1, hs.legible (List.forall_mem_append.1 ht).2⟩
end

/-- **What is read in list notation is legible.** -/
theorem legible_of_read {cs : List Char} {e : Expr} (h : read cs = .ok e) : e.Legible := by
  obtain ⟨ts, rest, hts, -, he⟩ := (read_eq_ok_iff cs e).1 h
  have htokens := token_of_mem_tokenize cs
  rw [hts] at htokens
  exact he.legible (List.forall_mem_append.1 htokens).1

end SExpr

/-! ## What is read in infix notation -/

namespace Algebra

/-- A token with a legible leaf, if it has one. -/
def Token.Legible : Token → Prop
  | .atom e => e.Legible
  | _ => True

/-- Legible leaves make legible trees: the operators between them are words of list notation. -/
theorem Derives.legible {level : Level} {ts : List Token} {e : Expr} (h : Derives level ts e)
    (ht : ∀ t ∈ ts, t.Legible) : e.Legible := by
  induction h with
  | ofProduct _ ih | ofPower _ ih | ofTerm _ ih => exact ih ht
  | add hop _ _ ihl ihr =>
    obtain ⟨hl, hr⟩ := List.forall_mem_append.1 ht
    have hr' := (List.forall_mem_cons.1 hr).2
    rcases hop with rfl | rfl
    · exact Arithmetic.Operator.add.legible_binary (ihl hl) (ihr hr')
    · exact Arithmetic.Operator.subtract.legible_binary (ihl hl) (ihr hr')
  | multiply hop _ _ ihl ihr =>
    obtain ⟨hl, hr⟩ := List.forall_mem_append.1 ht
    have hr' := (List.forall_mem_cons.1 hr).2
    rcases hop with rfl | rfl
    · exact Arithmetic.Operator.multiply.legible_binary (ihl hl) (ihr hr')
    · exact Arithmetic.Operator.divide.legible_binary (ihl hl) (ihr hr')
  | raise _ _ ihl ihr =>
    obtain ⟨hl, hr⟩ := List.forall_mem_append.1 ht
    exact Arithmetic.Operator.raise.legible_binary (ihl hl) (ihr (List.forall_mem_cons.1 hr).2)
  | atom e => exact ht _ (List.mem_singleton_self _)
  | parens _ ih => exact ih (List.forall_mem_append.1 (List.forall_mem_cons.1 ht).2).1

theorem legible_of_punctuation {c : Char} {t : Token} (h : punctuation? c = some t) : t.Legible := by
  unfold punctuation? at h
  split_ifs at h <;> cases h <;> trivial

/-- The leaves among the tokens of a text come from words. -/
theorem legible_of_mem_lex (cs : List Char) : ∀ t ∈ (lex cs).tokens, t.Legible := by
  intro t ht
  rcases mem_lexAfter [] cs (List.forall_mem_nil _) t ht with ⟨c, hc⟩ | ⟨w, hne, hw, rfl⟩
  · exact legible_of_punctuation hc
  · exact Expr.legible_atom (SExpr.word_of_isWord hne hw)

/-- **What is read in infix notation is legible.** -/
theorem legible_of_read {cs : List Char} {e : Expr} (h : read cs = .ok e) : e.Legible := by
  obtain ⟨ts, ht, hfinish⟩ := read_eq_ok_iff.1 h
  have hleaves := legible_of_mem_lex cs
  rw [← tokenize_eq_ok ht] at hleaves
  exact (derives_of_finish (tokenize_proper ht) hfinish).legible hleaves

end Algebra

/-! ## Lists -/

namespace Expr

/-- **The text of a list is taken for list notation.** -/
theorem detect_text_list (items : List Expr) : Grammar.detect (list items).text.toList = .symbolic := by
  have htext : (list items).text.toList = '(' :: (textItems items).toList ++ [')'] := by
    rw [text, String.toList_append, String.toList_append]
    rfl
  have hlast : (list items).text.toList.getLast? = some ')' := by rw [htext, List.getLast?_concat]
  have hwhole : Grammar.withoutLineEnd (list items).text.toList = (list items).text.toList := by
    rw [Grammar.withoutLineEnd, hlast, if_neg (by decide)]
  have hhead : (list items).text.toList.head? = some '(' := by
    rw [htext]
    rfl
  unfold Grammar.detect
  simp only [hwhole, hhead, hlast]
  rfl

theorem Legible.readFormula_text {items : List Expr} (h : (Expr.list items).Legible) :
    readFormula (Expr.list items).text = .ok (.list items) := by
  rw [readFormula, detect_text_list]
  exact h.read_text

end Expr

/-! ## Quoted expressions -/

mutual
/-- **The value of a quoted expression has its text.** -/
theorem Value.text_ofExpr : ∀ e : Expr, (Value.ofExpr e).text = e.text
  | .number _ | .symbol _ => by rw [Value.ofExpr, Value.text, Expr.text]
  | .list items => by rw [Value.ofExpr, Value.text, Expr.text, Value.textItems_ofExprs items]

theorem Value.textItems_ofExprs : ∀ es : List Expr, Value.textItems (Value.ofExprs es) = Expr.textItems es
  | [] => rfl
  | [e] => Value.text_ofExpr e
  | e :: e' :: es => by
    rw [Value.ofExprs, Value.ofExprs, Value.textItems, Expr.textItems, Value.text_ofExpr e,
      ← Value.textItems_ofExprs (e' :: es), Value.ofExprs]
    · nofun
    · nofun
end

namespace Expr

/-- An expression that evaluates to another one as it stands. -/
def quoted (e : Expr) : Expr := .list [.symbol "quote", e]

theorem Legible.quoted {e : Expr} (h : e.Legible) : e.quoted.Legible := by
  have hword : SExpr.Word ['q', 'u', 'o', 't', 'e'] :=
    SExpr.word_of_isWord (List.cons_ne_nil _ _) (List.all_eq_true.1 rfl)
  refine .list (List.forall_mem_cons.2 ⟨legible_atom hword, List.forall_mem_cons.2 ⟨h, List.forall_mem_nil _⟩⟩)

end Expr

theorem evaluateWithin_quoted (depth : Nat) (e : Expr) (s : ScopeId) (st : Store) :
    evaluateWithin (depth + 1) e.quoted s st = Eval.nested s (pure (.ofExpr e)) st := rfl

namespace Eval

theorem tree_child (st : Store) (p : ScopeId) :
    ((st.addChild p []).2.scope st.scopes.size).tree = (st.scope p).tree := by
  unfold Store.scope Store.scope? Store.addChild Store.modify
  simp only [Array.getElem?_modify, Array.getElem?_push_size]
  split <;> rfl

/-- A quoted expression has its value where an evaluation can still be nested. -/
theorem evaluate_quoted {st : Store} {s : ScopeId} (hroom : (st.treeOf s).depth < (st.treeOf s).maxDepth) (e : Expr) :
    ∃ st', evaluate e.quoted s st = (.ok (.ofExpr e), st') := by
  have hchild : 0 < roomAt (st.addChild s []).2.trees ((st.addChild s []).2.scope st.scopes.size).tree := by
    rw [Store.trees_addChild, tree_child]
    exact roomAt_pos.2 hroom
  obtain ⟨depth, hdepth⟩ :=
    Nat.exists_eq_add_of_le' (Nat.le_trans hchild (roomAt_le_depthLeft (st.addChild s []).2 _))
  have hrun : evaluate e.quoted s st = nested st.scopes.size (pure (.ofExpr e)) (st.addChild s []).2 := by
    rw [evaluate, child_apply, evaluateIn, withEvaluator_apply, hdepth, evaluateWithin_quoted]
    rfl
  rw [hrun]
  unfold nested
  dsimp only
  rw [if_pos (roomAt_pos.1 hchild)]
  exact ⟨_, rfl⟩

theorem eq_ofExpr_of_evaluate_quoted {st st' : Store} {s : ScopeId} {e : Expr} {v : Value}
    (h : evaluate e.quoted s st = (.ok v, st')) : v = .ofExpr e := by
  rw [evaluate, child_apply, evaluateIn, withEvaluator_apply] at h
  cases hd : (st.addChild s []).2.depthLeft with
  | zero =>
    rw [hd] at h
    cases h
  | succ depth =>
    rw [hd, evaluateWithin_quoted] at h
    obtain ⟨st₁, hv, -⟩ := nested_eq_ok h
    cases hv
    rfl

end Eval

/-- **Printing a tree that was read and reading it back is the identity.** Its text in list notation is read as the same
tree, for a list also where the notation is seen from the text. Quoted, it can be read back as well, has a value
wherever one more evaluation can be nested, and every value that it has is printed like the tree. -/
theorem Expr.reads_back {cs : List Char} {e : Expr} (h : SExpr.read cs = .ok e ∨ Algebra.read cs = .ok e) :
    SExpr.read e.text.toList = .ok e ∧
      (∀ items, e = .list items → readFormula e.text = .ok e) ∧
      readFormula e.quoted.text = .ok e.quoted ∧
      ∀ (st : Store) (s : ScopeId),
        ((st.treeOf s).depth < (st.treeOf s).maxDepth → ∃ v st', Eval.evaluate e.quoted s st = (.ok v, st')) ∧
          ∀ v st', Eval.evaluate e.quoted s st = (.ok v, st') → v.text = e.text := by
  have hlegible : e.Legible := h.elim SExpr.legible_of_read Algebra.legible_of_read
  refine ⟨hlegible.read_text, ?_, hlegible.quoted.readFormula_text, fun st s =>
    ⟨fun hroom => ?_, fun v st' hv => ?_⟩⟩
  · rintro items rfl
    exact hlegible.readFormula_text
  · obtain ⟨st', hv⟩ := Eval.evaluate_quoted hroom e
    exact ⟨_, st', hv⟩
  · rw [Eval.eq_ofExpr_of_evaluate_quoted hv, Value.text_ofExpr]

/-- A tree whose numbers are not written as they were read: `-0` is an integer, and `1e400` is too large for a float. -/
def rewritten : Expr := .list [.symbol "f", .number (.int 0), .list [], .number (.float infinity)]

theorem reads_back_of_rewritten :
    SExpr.read "(f -0() 1e400)".toList = .ok rewritten ∧
      SExpr.read rewritten.text.toList = .ok rewritten ∧ readFormula rewritten.text = .ok rewritten ∧
      ∃ v st', Eval.evaluate rewritten.quoted 0 (Store.empty.addOrphan 1).2 = (.ok v, st') ∧
        v.text = rewritten.text := by
  have hread : SExpr.read "(f -0() 1e400)".toList = .ok rewritten := by rfl
  obtain ⟨hback, hlist, -, hquote⟩ := Expr.reads_back (.inl hread)
  obtain ⟨hvalue, htext⟩ := hquote (Store.empty.addOrphan 1).2 0
  obtain ⟨v, st', hv⟩ := hvalue (by decide)
  exact ⟨hread, hback, hlist _ rfl, v, st', hv, htext v st' hv⟩

end LazyFormula
