import LazyFormula.Field
import LazyFormula.Proofs.ListGrammar
import LazyFormula.Proofs.Reprinting
/-!
# White space around a formula

Neither reader sees white space at the ends of a text (`Grammar.read_padded`), but it tells which of them reads: a list
is only taken for a list where nothing stands around it but one line end behind (`Grammar.detect_eq_symbolic`). So
white space around a text changes what is read exactly where it makes a list into algebra, or the other way, and then
it changes it for good, because no text that starts with a parenthesis is read as the same tree in both notations
(`notations_differ`).
-/
namespace LazyFormula

open LazyFormula.Algebra (Blank)

/-! ## Texts between white space -/

namespace Text

theorem trim_padded {before after : List Char} (hb : Blank before) (ha : Blank after) (cs : List Char) :
    trim (before ++ cs ++ after) = trim cs := by
  have hback : ∀ c ∈ after.reverse, isBlank c = true := fun c hc => ha c (List.mem_reverse.1 hc)
  unfold trim
  rw [List.append_assoc, List.dropWhile_append_of_pos hb, List.dropWhile_append]
  split
  · rename_i hall
    rw [List.isEmpty_iff.1 hall, List.dropWhile_eq_nil_iff.2 ha]
  · rw [List.reverse_append, List.dropWhile_append_of_pos hback]

/-- A text without white space at its ends is as it is. -/
theorem trim_eq_self {cs : List Char} {c d : Char} (hc : cs.head? = some c) (hd : cs.getLast? = some d)
    (hcb : isBlank c = false) (hdb : isBlank d = false) : trim cs = cs := by
  have hkeep : ∀ {ds : List Char} {a : Char}, ds.head? = some a → isBlank a = false →
      ds.dropWhile isBlank = ds := by
    intro ds a ha hab
    obtain ⟨rest, rfl⟩ := List.head?_eq_some_iff.1 ha
    rw [List.dropWhile_cons_of_neg (by rw [hab]; exact Bool.false_ne_true)]
  rw [trim, hkeep hc hcb, hkeep (List.head?_reverse.trans hd) hdb, List.reverse_reverse]

end Text

namespace SExpr

theorem tokenize_blanks {before : List Char} (hb : Blank before) (cs : List Char) :
    tokenize (before ++ cs) = tokenize cs := by
  induction before with
  | nil => rfl
  | cons c before ih =>
    rw [List.cons_append, tokenize_blank (hb c List.mem_cons_self), ih fun d hd => hb d (List.mem_cons_of_mem _ hd)]

theorem tokenize_append_blanks {after : List Char} (ha : Blank after) (cs : List Char) :
    tokenize (cs ++ after) = tokenize cs := by
  cases after with
  | nil => rw [List.append_nil]
  | cons c after =>
    have hc := ha c List.mem_cons_self
    have hafter := tokenize_blanks (fun d hd => ha d (List.mem_cons_of_mem _ hd)) []
    rw [List.append_nil] at hafter
    have hspaced : spaced (cs ++ c :: after) = spaced cs ++ c :: spaced after := by
      rw [← spaced_blank hc, spaced, List.flatMap_append]
      rfl
    rw [tokenize_eq, hspaced, Text.words_append_blank hc, ← tokenize_eq, ← tokenize_eq, hafter]
    exact List.append_nil _

end SExpr

namespace Algebra

theorem lex_append_blanks {after : List Char} (ha : Blank after) (cs : List Char) : lex (cs ++ after) = lex cs := by
  have hafter : ∀ word, lexAfter word after = lexAfter word [] := by
    intro word
    have hends : Ends [] := nofun
    rw [← List.append_nil after, lexAfter_ends (ha.ends_append hends), lex_blanks ha]
    rfl
  suffices h : ∀ word, lexAfter word (cs ++ after) = lexAfter word cs from h []
  intro word
  fun_induction lexAfter word cs with
  | case1 word => exact hafter word
  | case2 word c cs hc ih => rw [List.cons_append, lexAfter, if_pos hc, ih]
  | case3 word c cs hc ih => rw [List.cons_append, lexAfter, if_neg hc, ih]

end Algebra

/-- **Neither reader sees white space at the ends of a text.** -/
theorem Grammar.read_padded (g : Grammar) {before after : List Char} (hb : Blank before) (ha : Blank after)
    (cs : List Char) : g.read (before ++ cs ++ after) = g.read cs := by
  cases g with
  | symbolic =>
    show SExpr.read _ = SExpr.read _
    rw [SExpr.read, SExpr.tokenize_append_blanks ha, SExpr.tokenize_blanks hb, SExpr.read]
  | algebraic =>
    show Algebra.read _ = Algebra.read _
    rw [Algebra.read, Algebra.lex_append_blanks ha, Algebra.lex_blanks hb, Algebra.read]

/-! ## Which notation a text is taken for -/

/-- A text between two parentheses. -/
def Enclosed (cs : List Char) : Prop := cs.head? = some '(' ∧ cs.getLast? = some ')'

/-- A text without white space around it, but for one line end behind it. -/
def Bare (cs : List Char) : Prop := cs = Text.trim cs ∨ cs = Text.trim cs ++ ['\n']

instance (cs : List Char) : Decidable (Enclosed cs) := inferInstanceAs (Decidable (_ ∧ _))

instance (cs : List Char) : Decidable (Bare cs) := inferInstanceAs (Decidable (_ ∨ _))

theorem Enclosed.trim_eq {cs : List Char} (h : Enclosed cs) : Text.trim cs = cs := Text.trim_eq_self h.1 h.2 rfl rfl

theorem Grammar.detect_eq_symbolic {cs : List Char} :
    Grammar.detect cs = .symbolic ↔ Enclosed (Text.trim cs) ∧ Bare cs := by
  have hdetect : Grammar.detect cs = .symbolic ↔ Enclosed (Grammar.withoutLineEnd cs) := by
    unfold Grammar.detect Enclosed
    simp
  rw [hdetect]
  constructor
  · intro h
    -- a line end that is left out is white space behind the text
    have hwhole : cs = Grammar.withoutLineEnd cs ∨ cs = Grammar.withoutLineEnd cs ++ ['\n'] := by
      unfold Grammar.withoutLineEnd
      split
      · rename_i hlast
        exact .inr (List.dropLast_append_getLast? _ hlast).symm
      · exact .inl rfl
    have htrim : Text.trim cs = Grammar.withoutLineEnd cs := by
      rcases hwhole with heq | heq
      · rw [← heq] at h ⊢
        exact h.trim_eq
      · have hnone : Blank [] := List.forall_mem_nil _
        have hend : Blank ['\n'] := List.forall_mem_singleton.2 rfl
        have hpadded := Text.trim_padded hnone hend (Grammar.withoutLineEnd cs)
        rw [List.nil_append, ← heq] at hpadded
        rw [hpadded, h.trim_eq]
    rw [Bare, htrim]
    exact ⟨h, hwhole⟩
  · rintro ⟨h, hbare | hbare⟩
    · have hkeep : Grammar.withoutLineEnd (Text.trim cs) = Text.trim cs := by
        rw [Grammar.withoutLineEnd, h.2, if_neg (by decide)]
      rw [hbare, hkeep]
      exact h
    · have hdrop : Grammar.withoutLineEnd (Text.trim cs ++ ['\n']) = Text.trim cs := by
        rw [Grammar.withoutLineEnd, List.getLast?_concat, if_pos rfl, List.dropLast_concat]
      rw [hbare, hdrop]
      exact h

/-! ## No text is the same in both notations -/

/-- What infix text derives is a leaf of it, or an operator between operands. -/
theorem Algebra.Derives.leaf_or_binary {level : Algebra.Level} {ts : List Algebra.Token} {e : Expr}
    (h : Algebra.Derives level ts e) :
    .atom e ∈ ts ∨ ∃ op l r, Algebra.isOperator op = true ∧ e = .binary op l r := by
  induction h with
  | ofProduct _ ih | ofPower _ ih | ofTerm _ ih => exact ih
  | add hop => exact .inr ⟨_, _, _, by rcases hop with rfl | rfl <;> rfl, rfl⟩
  | multiply hop => exact .inr ⟨_, _, _, by rcases hop with rfl | rfl <;> rfl, rfl⟩
  | raise => exact .inr ⟨_, _, _, rfl, rfl⟩
  | atom e => exact .inl (List.mem_singleton_self _)
  | parens _ ih => exact ih.imp_left fun h => List.mem_cons_of_mem _ (List.mem_append_left _ h)

theorem Expr.atom_ne_list (w : List Char) (es : List Expr) : atom w ≠ .list es := by
  unfold atom
  split <;> nofun

/-- No token of a text holds a list. -/
theorem Algebra.list_not_mem_lex (cs : List Char) (es : List Expr) : .atom (.list es) ∉ (Algebra.lex cs).tokens := by
  intro h
  rcases Algebra.mem_lexAfter [] cs (List.forall_mem_nil _) _ h with ⟨c, hc⟩ | ⟨w, -, -, heq⟩
  · unfold Algebra.punctuation? at hc
    split_ifs at hc <;> cases hc
  · exact Expr.atom_ne_list w es (Algebra.Token.atom.inj heq).symm

/-- A word makes a symbol only as the symbol of that name. -/
theorem Expr.eq_of_atom_eq_symbol {w : List Char} {name : String} (h : atom w = .symbol name) : w = name.toList := by
  unfold atom at h
  split at h
  · cases h
  · rw [← Expr.symbol.inj h, String.toList_ofList]

/-- The tokens of a symbol are its name. -/
theorem SExpr.Derives.eq_of_symbol {ts : List (List Char)} {name : String} (h : SExpr.Derives ts (.symbol name)) :
    ts = [name.toList] := by
  generalize hname : Expr.symbol name = e at h
  cases h with
  | atom => rw [Expr.eq_of_atom_eq_symbol hname.symm]
  | list => cases hname

/-- If the first token of a text is an operator, the text starts with it, white space apart. -/
theorem SExpr.exists_of_tokenize_eq {op : Char} (hop : Algebra.isOperator op = true) : ∀ {cs : List Char}
    {ts : List (List Char)}, SExpr.tokenize cs = [op] :: ts → ∃ before after, Blank before ∧
    cs = before ++ op :: after
  | [], _, h => by cases h
  | c :: cs, ts, h => by
    by_cases hc : Cuts c
    · rcases hc with hblank | hparen
      · rw [tokenize_blank hblank] at h
        obtain ⟨before, after, hb, rfl⟩ := exists_of_tokenize_eq hop h
        exact ⟨c :: before, after, List.forall_mem_cons.2 ⟨hblank, hb⟩, rfl⟩
      · rw [tokenize_paren hparen] at h
        obtain ⟨rfl⟩ := List.cons.inj (List.cons.inj h).1
        rcases hparen with rfl | rfl <;> cases hop
    · obtain ⟨w, rest, heq, hw, hends, -⟩ := exists_word hc cs
      rw [heq, tokenize_word hw hends] at h
      obtain ⟨rfl, -⟩ := List.cons.inj h
      exact ⟨[], rest, List.forall_mem_nil _, heq⟩

/-- **No text that starts with a parenthesis is read as the same tree in both notations.** In list notation its first
item would be an operator, and infix text has none behind an opening parenthesis. -/
theorem notations_differ {cs : List Char} (hcs : cs.head? = some '(') {e : Expr} (hlist : SExpr.read cs = .ok e) :
    Algebra.read cs ≠ .ok e := by
  intro halgebra
  obtain ⟨rest, rfl⟩ := List.head?_eq_some_iff.1 hcs
  obtain ⟨ts, more, htokens, -, hts⟩ := (SExpr.read_eq_ok_iff _ e).1 hlist
  rw [SExpr.tokenize_paren (.inl rfl)] at htokens
  cases hts with
  | atom hopen => exact hopen (List.cons.inj htokens).1.symm
  | @list us es hitems =>
    obtain ⟨vs, hvs, hfinish⟩ := Algebra.read_eq_ok_iff.1 halgebra
    have hbinary := (Algebra.derives_of_finish (Algebra.tokenize_proper hvs) hfinish).leaf_or_binary
    rw [Algebra.tokenize_eq_ok hvs] at hbinary hfinish
    obtain ⟨op, l, r, hop, hes⟩ := hbinary.resolve_left (Algebra.list_not_mem_lex _ es)
    obtain rfl := Expr.list.inj hes
    cases hitems with
    | @cons ws us _ _ hw =>
      obtain rfl := hw.eq_of_symbol
      have hfirst : SExpr.tokenize rest = [op] :: (us ++ [[')']] ++ more) := by
        rw [(List.cons.inj htokens).2, String.toList_singleton]
        rfl
      obtain ⟨before, after, hb, rfl⟩ := SExpr.exists_of_tokenize_eq hop hfirst
      have hopen : Algebra.punctuation? '(' = some .leftParen := by rfl
      have hpunctuation : Algebra.punctuation? op = some (.operator op) := by rw [Algebra.punctuation?, if_pos hop]
      rw [Algebra.lex_punctuation hopen, Algebra.lex_blanks hb, Algebra.lex_punctuation hpunctuation] at hfinish
      cases hfinish

/-! ## Fields -/

/-- A text between the marks of a formula. -/
def Field.marked (text : String) : String := "\x7b\x7b" ++ text ++ "\x7d\x7d"

theorem Field.inner?_marked (text : String) : Field.inner? (Field.marked text).toList = some text.toList := by
  have hlist : (Field.marked text).toList = ['\x7b', '\x7b'] ++ text.toList ++ ['\x7d', '\x7d'] := by
    rw [Field.marked, String.toList_append, String.toList_append]
    rfl
  have hhead : (Field.marked text).toList.head? = some '\x7b' := by
    rw [hlist]
    rfl
  have hlast : (Field.marked text).toList.getLast? = some '\x7d' := by
    rw [hlist, List.getLast?_append]
    rfl
  have htrim : Text.trim (Field.marked text).toList = (Field.marked text).toList :=
    Text.trim_eq_self hhead hlast rfl rfl
  have hmarked : Field.isMarked (Field.marked text).toList = true := by
    rw [Field.isMarked, htrim, hlist, Bool.and_eq_true, List.isPrefixOf_iff_prefix, List.isSuffixOf_iff_suffix]
    exact ⟨⟨text.toList ++ ['\x7d', '\x7d'], (List.append_assoc ..).symm⟩, List.suffix_append _ _⟩
  rw [Field.inner?, if_pos hmarked, htrim, hlist]
  simp

theorem Field.read_marked {text other : String} (h : readFormula text = readFormula other) (location : FieldLocation) :
    Field.read (Field.marked text) location = Field.read (Field.marked other) location := by
  rw [Field.read, Field.read, Field.inner?_marked, Field.inner?_marked]
  dsimp only
  rw [String.ofList_toList, String.ofList_toList, h]

theorem Grammar.detect_congr {cs ds : List Char}
    (h : Grammar.detect cs = .symbolic ↔ Grammar.detect ds = .symbolic) : Grammar.detect cs = Grammar.detect ds := by
  cases hc : Grammar.detect cs with
  | symbolic => exact (h.1 hc).symm
  | algebraic =>
    cases hd : Grammar.detect ds with
    | symbolic => exact absurd (hc.symm.trans (h.2 hd)) nofun
    | algebraic => rfl

/-- The text is taken for a list, and is read as one. -/
def ReadAsList (text : String) : Prop :=
  Grammar.detect text.toList = .symbolic ∧ readFormula text = SExpr.read text.toList

/-- The text is taken for algebra, and is read as that. -/
def ReadAsAlgebra (text : String) : Prop :=
  Grammar.detect text.toList = .algebraic ∧ readFormula text = Algebra.read text.toList

theorem Bare.readAsList {text : String} (hbare : Bare text.toList) (h : Enclosed (Text.trim text.toList)) :
    ReadAsList text := by
  have hdetect : Grammar.detect text.toList = .symbolic := Grammar.detect_eq_symbolic.2 ⟨h, hbare⟩
  refine ⟨hdetect, ?_⟩
  rw [readFormula, hdetect, Grammar.read]

theorem readAsAlgebra_of_not_bare {text : String} (hbare : ¬ Bare text.toList) : ReadAsAlgebra text := by
  have hdetect : Grammar.detect text.toList = .algebraic := by
    cases hd : Grammar.detect text.toList with
    | symbolic => exact absurd (Grammar.detect_eq_symbolic.1 hd).2 hbare
    | algebraic => rfl
  refine ⟨hdetect, ?_⟩
  rw [readFormula, hdetect, Grammar.read]

/-- What is read as a list, and a text that is the same infix text but is read as algebra, are not the same tree. -/
theorem ReadAsList.ne_algebra {text other : String} (hlist : ReadAsList text) (halgebra : ReadAsAlgebra other)
    (hread : Algebra.read other.toList = Algebra.read text.toList) {e : Expr} (htext : readFormula text = .ok e) :
    readFormula other ≠ .ok e := by
  obtain ⟨h, hbare⟩ := Grammar.detect_eq_symbolic.1 hlist.1
  have hhead : text.toList.head? = some '(' := by
    rcases hbare with heq | heq <;> rw [heq]
    · exact h.1
    · rw [List.head?_append, h.1]
      rfl
  rw [halgebra.2, hread]
  exact notations_differ hhead (hlist.2.symm.trans htext)

/-- **What white space around a text changes.** Each reader gives the same result with it and without. Both texts are
read alike, also between the marks of a formula, if the text is not between two parentheses, or if both or none of
them have nothing around it but one line end behind. Else the one with nothing more around it is read as a list and the
other as algebra, and they are never read as the same tree. -/
theorem readFormula_padded {before after : String} (hb : Blank before.toList) (ha : Blank after.toList) (t : String) :
    (∀ g : Grammar, g.read (before ++ t ++ after).toList = g.read t.toList) ∧
      (¬ Enclosed (Text.trim t.toList) ∨ (Bare (before ++ t ++ after).toList ↔ Bare t.toList) →
        readFormula (before ++ t ++ after) = readFormula t ∧
          ∀ location, Field.read (Field.marked (before ++ t ++ after)) location =
            Field.read (Field.marked t) location) ∧
      (Enclosed (Text.trim t.toList) → ¬ (Bare (before ++ t ++ after).toList ↔ Bare t.toList) →
        (Bare t.toList → ReadAsList t ∧ ReadAsAlgebra (before ++ t ++ after)) ∧
        (Bare (before ++ t ++ after).toList → ReadAsList (before ++ t ++ after) ∧ ReadAsAlgebra t) ∧
        ∀ e, ¬ (readFormula (before ++ t ++ after) = .ok e ∧ readFormula t = .ok e)) := by
  have hlist : (before ++ t ++ after).toList = before.toList ++ t.toList ++ after.toList := by
    rw [String.toList_append, String.toList_append]
  have htrim : Text.trim (before ++ t ++ after).toList = Text.trim t.toList := by rw [hlist, Text.trim_padded hb ha]
  have hread : ∀ g : Grammar, g.read (before ++ t ++ after).toList = g.read t.toList := fun g => by
    rw [hlist, g.read_padded hb ha]
  refine ⟨hread, fun h => ?_, fun h hne => ?_⟩
  · have hsame : Grammar.detect (before ++ t ++ after).toList = Grammar.detect t.toList := by
      refine Grammar.detect_congr ?_
      rw [Grammar.detect_eq_symbolic, Grammar.detect_eq_symbolic, htrim]
      rcases h with h | h
      · simp only [h, false_and]
      · rw [h]
    have hformula : readFormula (before ++ t ++ after) = readFormula t := by rw [readFormula, hsame, hread, readFormula]
    exact ⟨hformula, Field.read_marked hformula⟩
  · have hplain : Bare t.toList → ReadAsList t ∧ ReadAsAlgebra (before ++ t ++ after) := fun hbare =>
      ⟨hbare.readAsList h, readAsAlgebra_of_not_bare fun hpadded => hne ⟨fun _ => hbare, fun _ => hpadded⟩⟩
    have hpadded : Bare (before ++ t ++ after).toList → ReadAsList (before ++ t ++ after) ∧ ReadAsAlgebra t :=
      fun hpadded => ⟨hpadded.readAsList (htrim.symm ▸ h),
        readAsAlgebra_of_not_bare fun hbare => hne ⟨fun _ => hbare, fun _ => hpadded⟩⟩
    refine ⟨hplain, hpadded, fun e he => ?_⟩
    by_cases hbare : Bare t.toList
    · exact (hplain hbare).1.ne_algebra (hplain hbare).2 (hread .algebraic) he.2 he.1
    · have hother : Bare (before ++ t ++ after).toList := Classical.byContradiction fun hother =>
        hne ⟨fun h => absurd h hother, fun h => absurd h hbare⟩
      exact (hpadded hother).1.ne_algebra (hpadded hother).2 (hread .algebraic).symm he.1 he.2

/-- A line end behind a list is nothing, and a space in front of it makes it algebra. -/
theorem readFormula_padded_list :
    readFormula ("" ++ "(+ 1 2)" ++ "\n") = readFormula "(+ 1 2)" ∧
      (ReadAsList "(+ 1 2)" ∧ ReadAsAlgebra (" " ++ "(+ 1 2)" ++ "")) ∧
      ∀ e, ¬ (readFormula (" " ++ "(+ 1 2)" ++ "") = .ok e ∧ readFormula "(+ 1 2)" = .ok e) := by
  have hnone : Blank "".toList := by decide
  have hend : Blank "\n".toList := by decide
  have hspace : Blank " ".toList := by decide
  obtain ⟨-, hsame, -⟩ := readFormula_padded hnone hend "(+ 1 2)"
  obtain ⟨-, -, hother⟩ := readFormula_padded hspace hnone "(+ 1 2)"
  obtain ⟨hlist, -, hne⟩ := hother (by decide +kernel) (by decide +kernel)
  exact ⟨(hsame (.inr (by decide +kernel))).1, hlist (by decide +kernel), hne⟩

/-- **White space around a list makes it algebra**, which it is not: the text is refused, also in a field. -/
theorem padded_list_refused :
    (¬ ∀ before t after : String, Blank before.toList → Blank after.toList →
      (∃ e, readFormula (before ++ t ++ after) = .ok e ∧ readFormula t = .ok e) ∨
        ∃ error error', readFormula (before ++ t ++ after) = .error error ∧ readFormula t = .error error') ∧
    (∃ field, Field.read (Field.marked "(+ 1 2)") ⟨"t", 0, 0⟩ = .ok (some field)) ∧
    ∃ error, Field.read (Field.marked " (+ 1 2) ") ⟨"t", 0, 0⟩ = .error error := by
  have hspace : Blank " ".toList := by decide
  have hlist : ∃ e, readFormula "(+ 1 2)" = .ok e := ⟨_, rfl⟩
  have halgebra : ∃ error, readFormula (" " ++ "(+ 1 2)" ++ " ") = .error error := ⟨_, rfl⟩
  refine ⟨fun h => ?_, ⟨_, rfl⟩, ⟨_, rfl⟩⟩
  obtain ⟨e, he⟩ := hlist
  obtain ⟨error, herror⟩ := halgebra
  rcases h " " "(+ 1 2)" " " hspace hspace with ⟨e', he', -⟩ | ⟨_, error', -, herror'⟩
  · cases herror.symm.trans he'
  · cases he.symm.trans herror'

end LazyFormula
