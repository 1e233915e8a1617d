import LazyFormula.Proofs.AlgebraGrammar
import LazyFormula.Proofs.ListNotation
/-!
# Two notations of arithmetic

An arithmetic tree has one text in list notation and many in infix notation: parentheses stand where precedence and
grouping require them and may stand around every operand, and white space may stand around operators and parentheses.
All these texts are read as the tree (`Arithmetic.Tree.notations_agree`).
-/
namespace LazyFormula

namespace Algebra

/-! ## Tokens of texts -/

/-- Tokens in front of others. -/
def Lexed.behind (ts : List Token) (l : Lexed) : Lexed := { l with tokens := ts ++ l.tokens }

theorem Lexed.behind_behind (ts us : List Token) (l : Lexed) : (l.behind us).behind ts = l.behind (ts ++ us) := by
  simp only [behind, List.append_assoc]

/-- What may stand behind a word: nothing, or a character that is not part of it. -/
def Ends (rest : List Char) : Prop := ∀ c ∈ rest.head?, Text.isWord c = false

/-- A text of white space. -/
def Blank (cs : List Char) : Prop := ∀ c ∈ cs, Text.isBlank c = true

instance (cs : List Char) : Decidable (Blank cs) := List.decidableBAll (Text.isBlank · = true) cs

theorem ends_cons {c : Char} (hc : Text.isWord c = false) (cs : List Char) : Ends (c :: cs) := by
  intro d hd
  cases hd
  exact hc

theorem isWord_of_blank {c : Char} (h : Text.isBlank c = true) : Text.isWord c = false := by
  rw [Bool.eq_false_iff]
  intro hw
  rw [Text.isBlank_of_isWord hw] at h
  cases h

theorem Blank.ends_append {u rest : List Char} (hu : Blank u) (hr : Ends rest) : Ends (u ++ rest) := by
  cases u with
  | nil => exact hr
  | cons c u => exact ends_cons (isWord_of_blank (hu c List.mem_cons_self)) _

/-- A word ends where something else stands behind it. -/
theorem lexAfter_ends {rest : List Char} (hr : Ends rest) (word : List Char) :
    lexAfter word rest = .consWord word (lex rest) := by
  cases rest with
  | nil => rfl
  | cons c cs =>
    have hc := hr c rfl
    rw [lex, lexAfter, lexAfter, if_neg (Bool.eq_false_iff.1 hc), if_neg (Bool.eq_false_iff.1 hc)]
    rfl

theorem lexAfter_word {w rest : List Char} (hw : ∀ c ∈ w, Text.isWord c = true) (hr : Ends rest) :
    ∀ word, lexAfter word (w ++ rest) = .consWord (w.reverse ++ word) (lex rest) := by
  induction w with
  | nil => exact lexAfter_ends hr
  | cons c w ih =>
    intro word
    rw [List.cons_append, lexAfter, if_pos (hw c List.mem_cons_self),
      ih (fun d hd => hw d (List.mem_cons_of_mem _ hd)), List.reverse_cons, List.append_assoc]
    rfl

/-- **A word is an atom.** -/
theorem lex_word {w rest : List Char} (hne : w ≠ []) (hw : ∀ c ∈ w, Text.isWord c = true) (hr : Ends rest) :
    lex (w ++ rest) = (lex rest).behind [.atom (.atom w)] := by
  rw [lex, lexAfter_word hw hr, List.append_nil, Lexed.consWord, List.isEmpty_reverse]
  cases w with
  | nil => exact absurd rfl hne
  | cons c w =>
    rw [List.reverse_reverse]
    rfl

theorem lex_blanks {u : List Char} (hu : Blank u) (rest : List Char) : lex (u ++ rest) = lex rest := by
  induction u with
  | nil => rfl
  | cons c u ih =>
    have hc := hu c List.mem_cons_self
    rw [List.cons_append, lex, lexAfter, if_neg (Bool.eq_false_iff.1 (isWord_of_blank hc)), if_pos hc,
      ← ih fun d hd => hu d (List.mem_cons_of_mem _ hd)]
    rfl

theorem isWord_of_punctuation {c : Char} {t : Token} (h : punctuation? c = some t) :
    Text.isWord c = false ∧ Text.isBlank c = false := by
  unfold punctuation? at h
  split at h
  · rename_i hop
    simp only [isOperator, Bool.or_eq_true, beq_iff_eq] at hop
    rcases hop with (((rfl | rfl) | rfl) | rfl) | rfl <;> exact ⟨rfl, rfl⟩
  · split at h
    · rename_i hc
      rw [hc]
      exact ⟨rfl, rfl⟩
    · split at h
      · rename_i hc
        rw [hc]
        exact ⟨rfl, rfl⟩
      · cases h

theorem lex_punctuation {c : Char} {t : Token} (h : punctuation? c = some t) (rest : List Char) :
    lex (c :: rest) = (lex rest).behind [t] := by
  obtain ⟨hw, hb⟩ := isWord_of_punctuation h
  rw [lex, lexAfter, if_neg (Bool.eq_false_iff.1 hw), if_neg (Bool.eq_false_iff.1 hb), h]
  rfl

/-- How many levels are looser. -/
def Level.tightness : Level → Nat
  | .sum => 0
  | .product => 1
  | .power => 2
  | .term => 3

/-- What binds tighter may stand where something looser is due. -/
theorem Derives.loosen {level level' : Level} {ts : List Token} {e : Expr} (h : Derives level ts e)
    (hle : level'.tightness ≤ level.tightness) : Derives level' ts e := by
  cases level' with
  | sum =>
    cases level with
    | sum => exact h
    | product => exact .ofProduct h
    | power => exact .ofProduct (.ofPower h)
    | term => exact .ofProduct (.ofPower (.ofTerm h))
  | product =>
    cases level with
    | sum => contradiction
    | product => exact h
    | power => exact .ofPower h
    | term => exact .ofPower (.ofTerm h)
  | power =>
    cases level with
    | sum | product => contradiction
    | power => exact h
    | term => exact .ofTerm h
  | term =>
    cases level with
    | sum | product | power => contradiction
    | term => exact h

end Algebra

namespace Arithmetic

open LazyFormula.Algebra (Level Blank Ends Derives)

/-! ## Trees -/

/-- The operators of arithmetic. -/
inductive Operator where
  | add
  | subtract
  | multiply
  | divide
  | raise
deriving DecidableEq, Repr

namespace Operator

def symbol : Operator → Char
  | add => '+'
  | subtract => '-'
  | multiply => '*'
  | divide => '/'
  | raise => '^'

/-- How tight an operator binds. -/
def level : Operator → Level
  | add | subtract => .sum
  | multiply | divide => .product
  | raise => .power

/-- How tight its left operand has to bind: as tight as itself, but for the base of a power, which is a term. -/
def left : Operator → Level
  | add | subtract => .sum
  | multiply | divide => .product
  | raise => .term

/-- How tight its right operand has to bind: tighter than itself, but for an exponent, which may be a power. -/
def right : Operator → Level
  | add | subtract => .product
  | multiply | divide => .power
  | raise => .power

theorem punctuation (op : Operator) : Algebra.punctuation? op.symbol = some (.operator op.symbol) := by
  cases op <;> rfl

/-- An operator between operands that bind as tight as they have to. -/
theorem derives (op : Operator) {ts us : List Algebra.Token} {l r : Expr} (hl : Derives op.left ts l)
    (hr : Derives op.right us r) : Derives op.level (ts ++ .operator op.symbol :: us) (.binary op.symbol l r) := by
  cases op with
  | add => exact .add (.inl rfl) hl hr
  | subtract => exact .add (.inr rfl) hl hr
  | multiply => exact .multiply (.inl rfl) hl hr
  | divide => exact .multiply (.inr rfl) hl hr
  | raise => exact .raise hl hr

end Operator

/-- **A leaf**: a number that is not negative, or a word that is no number. -/
inductive Atom where
  | literal (i : Int64) (hi : 0 ≤ i)
  | symbol (word : List Char) (hne : word ≠ []) (hw : ∀ c ∈ word, Text.isWord c = true)
      (hs : Expr.atom word = .symbol (.ofList word))

namespace Atom

/-- A leaf as it is written in both notations. -/
def word : Atom → List Char
  | literal i _ => (Number.int i).text.toList
  | symbol word .. => word

def expr : Atom → Expr
  | literal i _ => .number (.int i)
  | symbol word .. => .symbol (.ofList word)

theorem isWord (a : Atom) : ∀ c ∈ a.word, Text.isWord c = true := by
  cases a with
  | literal i hi =>
    intro c hc
    rw [word, Number.text_of_nonneg hi] at hc
    exact Text.isWord_of_isDigit (Decimal.digits_toDigits _ c hc)
  | symbol word hne hw hs => exact hw

theorem word_ne_nil (a : Atom) : a.word ≠ [] := by
  cases a with
  | literal i hi =>
    rw [word, Number.text_of_nonneg hi]
    exact Nat.toDigits_ne_nil
  | symbol word hne hw hs => exact hne

/-- A leaf is read as itself. -/
theorem atom_word (a : Atom) : Expr.atom a.word = a.expr := by
  cases a with
  | literal i hi => rw [Expr.atom, word, Number.read?_text_int, expr]
  | symbol word hne hw hs => exact hs

theorem text_expr (a : Atom) : a.expr.text = .ofList a.word := by
  cases a with
  | literal i hi => exact String.ofList_toList.symm
  | symbol => rfl

end Atom

/-- **An arithmetic tree.** -/
inductive Tree where
  | leaf (a : Atom)
  | node (op : Operator) (left right : Tree)

/-- A tree as an expression. -/
def Tree.expr : Tree → Expr
  | leaf a => a.expr
  | node op l r => .binary op.symbol l.expr r.expr

/-! ## Infix texts -/

/-- **The infix texts of a tree**, where an expression of some level is due. A node that binds looser has to stand in
parentheses; every tree may. -/
inductive Written : Level → Tree → List Char → Prop
  | leaf {level : Level} (a : Atom) : Written level (.leaf a) a.word
  | node {level : Level} {op : Operator} {l r : Tree} {x y u v : List Char}
      (hlevel : level.tightness ≤ op.level.tightness) (hl : Written op.left l x) (hr : Written op.right r y)
      (hu : Blank u) (hv : Blank v) : Written level (.node op l r) (x ++ u ++ op.symbol :: (v ++ y))
  | parens {level : Level} {t : Tree} {x u v : List Char} (h : Written .sum t x) (hu : Blank u) (hv : Blank v) :
      Written level t ('(' :: (u ++ x ++ v ++ [')']))

/-- **The shortest infix text of a tree**, where an expression of some level is due. -/
def Tree.infixAt (level : Level) : Tree → List Char
  | leaf a => a.word
  | node op l r =>
    let body := l.infixAt op.left ++ op.symbol :: r.infixAt op.right
    if level.tightness ≤ op.level.tightness then body else '(' :: (body ++ [')'])

theorem blank_nil : Blank [] := nofun

theorem Tree.written_infixAt (t : Tree) : ∀ level, Written level t (t.infixAt level) := by
  induction t with
  | leaf a => exact fun _ => .leaf a
  | node op l r ihl ihr =>
    intro level
    have hbody : ∀ {level : Level}, level.tightness ≤ op.level.tightness →
        Written level (.node op l r) (l.infixAt op.left ++ op.symbol :: r.infixAt op.right) := by
      intro level hle
      have := Written.node hle (ihl op.left) (ihr op.right) blank_nil blank_nil
      rwa [List.append_nil] at this
    rw [infixAt]
    split
    · rename_i hle
      exact hbody hle
    · have hsum : Written .sum (.node op l r) (l.infixAt op.left ++ op.symbol :: r.infixAt op.right) :=
        hbody (Nat.zero_le _)
      have hparens := @Written.parens level _ _ _ _ hsum blank_nil blank_nil
      rwa [List.nil_append, List.append_nil] at hparens

/-- **The tokens of an infix text derive the tree**, whatever stands behind it that does not continue its last word. -/
theorem Written.exists_tokens {level : Level} {t : Tree} {x : List Char} (h : Written level t x) :
    ∃ ts, Derives level ts t.expr ∧ ∀ rest, Ends rest →
      Algebra.lex (x ++ rest) = (Algebra.lex rest).behind ts := by
  induction h with
  | @leaf level a =>
    refine ⟨[.atom a.expr], (Derives.atom _).loosen ?_, fun rest hr => ?_⟩
    · cases level <;> decide
    · rw [Algebra.lex_word a.word_ne_nil a.isWord hr, a.atom_word]
  | @node level op l r x y u v hlevel _ _ hu hv ihl ihr =>
    obtain ⟨ts, hts, hlexl⟩ := ihl
    obtain ⟨us, hus, hlexr⟩ := ihr
    refine ⟨ts ++ .operator op.symbol :: us, (op.derives hts hus).loosen hlevel, fun rest hr => ?_⟩
    have hends : Ends (u ++ op.symbol :: (v ++ y ++ rest)) :=
      hu.ends_append (Algebra.ends_cons (Algebra.isWord_of_punctuation op.punctuation).1 _)
    calc Algebra.lex (x ++ u ++ op.symbol :: (v ++ y) ++ rest)
        = Algebra.lex (x ++ (u ++ op.symbol :: (v ++ y ++ rest))) := by simp only [List.append_assoc, List.cons_append]
      _ = (Algebra.lex (op.symbol :: (v ++ y ++ rest))).behind ts := by rw [hlexl _ hends, Algebra.lex_blanks hu]
      _ = ((Algebra.lex (v ++ (y ++ rest))).behind [.operator op.symbol]).behind ts := by
        rw [Algebra.lex_punctuation op.punctuation, List.append_assoc]
      _ = (((Algebra.lex rest).behind us).behind [.operator op.symbol]).behind ts := by
        rw [Algebra.lex_blanks hv, hlexr rest hr]
      _ = _ := by
        rw [Algebra.Lexed.behind_behind, Algebra.Lexed.behind_behind, List.append_assoc]
        rfl
  | @parens level t x u v _ hu hv ih =>
    obtain ⟨ts, hts, hlex⟩ := ih
    refine ⟨.leftParen :: (ts ++ [.rightParen]), (Derives.parens hts).loosen ?_, fun rest hr => ?_⟩
    · cases level <;> decide
    have hends : Ends (v ++ ')' :: rest) := hv.ends_append (Algebra.ends_cons rfl _)
    calc Algebra.lex ('(' :: (u ++ x ++ v ++ [')']) ++ rest)
        = Algebra.lex ('(' :: (u ++ (x ++ (v ++ ')' :: rest)))) := by
          simp only [List.append_assoc, List.cons_append, List.nil_append]
      _ = (Algebra.lex (x ++ (v ++ ')' :: rest))).behind [.leftParen] := by
        rw [Algebra.lex_punctuation (t := .leftParen) rfl, Algebra.lex_blanks hu]
      _ = (((Algebra.lex rest).behind [.rightParen]).behind ts).behind [.leftParen] := by
        rw [hlex _ hends, Algebra.lex_blanks hv, Algebra.lex_punctuation (t := .rightParen) rfl]
      _ = _ := by
        rw [Algebra.Lexed.behind_behind, Algebra.Lexed.behind_behind, List.append_assoc]
        rfl

/-- An infix text, also with white space around it, is read as its tree. -/
theorem Written.read {t : Tree} {x u v : List Char} (h : Written .sum t x) (hu : Blank u) (hv : Blank v) :
    Algebra.read (u ++ x ++ v) = .ok t.expr := by
  obtain ⟨ts, hts, hlex⟩ := h.exists_tokens
  have hends : Ends v := by
    have hnil : Ends [] := nofun
    have hends := hv.ends_append hnil
    rwa [List.append_nil] at hends
  have hblank : Algebra.lex v = ⟨[], none⟩ := by
    have := Algebra.lex_blanks hv []
    rwa [List.append_nil] at this
  refine Algebra.read_eq_ok_iff.2 ⟨ts, ?_, hts.finish⟩
  rw [Algebra.tokenize, List.append_assoc, Algebra.lex_blanks hu, hlex v hends, hblank, Algebra.Lexed.behind,
    List.append_nil]

/-! ## List notation -/

theorem Operator.legible (op : Operator) : (Expr.symbol (.singleton op.symbol)).Legible := by
  have hword : SExpr.Word [op.symbol] := by
    refine ⟨nofun, fun c hc => ?_⟩
    rw [List.mem_singleton.1 hc]
    rintro (h | h | h) <;> cases op <;> cases h
  have hatom : Expr.atom [op.symbol] = .symbol (.singleton op.symbol) := by cases op <;> rfl
  rw [← hatom]
  refine .leaf hword ?_
  rw [hatom]
  rfl

theorem Atom.legible (a : Atom) : a.expr.Legible := by
  have hword : SExpr.Word a.word := SExpr.word_of_isWord a.word_ne_nil a.isWord
  rw [← a.atom_word]
  refine .leaf hword ?_
  rw [a.atom_word, a.text_expr]

theorem Operator.legible_binary (op : Operator) {l r : Expr} (hl : l.Legible) (hr : r.Legible) :
    (Expr.binary op.symbol l r).Legible := by
  refine .list fun e he => ?_
  simp only [List.mem_cons, List.not_mem_nil, or_false] at he
  rcases he with rfl | rfl | rfl
  · exact op.legible
  · exact hl
  · exact hr

theorem Tree.legible (t : Tree) : t.expr.Legible := by
  induction t with
  | leaf a => exact a.legible
  | node op l r ihl ihr => exact op.legible_binary ihl ihr

/-- **The two notations agree on every arithmetic tree.** Infix texts are read as the tree, with the parentheses that
precedence and grouping require or with more, and with white space anywhere between tokens; and so is the text of the
tree in list notation. -/
theorem Tree.notations_agree (t : Tree) :
    (∀ x u v, Written .sum t x → Blank u → Blank v → Algebra.read (u ++ x ++ v) = .ok t.expr) ∧
      Algebra.read (t.infixAt .sum) = .ok t.expr ∧ SExpr.read t.expr.text.toList = .ok t.expr := by
  refine ⟨fun x u v => Written.read, ?_, t.legible.read_text⟩
  have := (t.written_infixAt .sum).read blank_nil blank_nil
  rwa [List.nil_append, List.append_nil] at this

/-- `(1 + x) ^ 2`, with redundant parentheses and uneven spacing. -/
theorem notations_of_power :
    let one : Atom := .literal 1 (by decide)
    let two : Atom := .literal 2 (by decide)
    let x : Atom := .symbol ['x'] nofun (fun _ h => List.mem_singleton.1 h ▸ rfl) rfl
    let t : Tree := .node .raise (.node .add (.leaf one) (.leaf x)) (.leaf two)
    Written .sum t "( 1 +x)^((2))".toList ∧ Algebra.read " ( 1 +x)^((2)) ".toList = .ok t.expr ∧
      t.infixAt .sum = "(1+x)^2".toList := by
  intro one two x t
  have hspace : Blank [' '] := fun c hc => List.mem_singleton.1 hc ▸ rfl
  have hsum : Written .sum (.node .add (.leaf one) (.leaf x)) (['1'] ++ [' '] ++ '+' :: ([] ++ ['x'])) :=
    Written.node (Nat.le_refl _) (.leaf one) (.leaf x) hspace blank_nil
  have hbase : Written .term (.node .add (.leaf one) (.leaf x)) "( 1 +x)".toList := .parens hsum hspace blank_nil
  have hpower : Written .power (.leaf two) "((2))".toList :=
    .parens (.parens (.leaf two) blank_nil blank_nil) blank_nil blank_nil
  have ht : Written .sum t ("( 1 +x)".toList ++ [] ++ '^' :: ([] ++ "((2))".toList)) :=
    Written.node (Nat.zero_le _) hbase hpower blank_nil blank_nil
  exact ⟨ht, t.notations_agree.1 _ [' '] [' '] ht hspace hspace, rfl⟩

end Arithmetic
end LazyFormula
