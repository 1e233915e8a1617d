import LazyFormula.Proofs.ListNotation
import Mathlib.Data.List.TakeWhile
/-!
# Spellings of tokens

A text in list notation spells its tokens: parentheses and words in their order, with white space between them wherever
it is wanted, and at least some between two words that follow each other. Every text spells the tokens that it is cut
into, and is the spelling of no others (`spells_iff`). So nothing but white space is lost, a word is as long as it can
be, and other white space makes no other tokens (`tokens_of_text`).
-/
namespace LazyFormula
namespace SExpr

open Text (isBlank)

/-! ## Tokens -/

/-- **A token of list notation**: a parenthesis or a word. -/
def Token (t : List Char) : Prop := t = ['('] ∨ t = [')'] ∨ Word t

/-- A text that starts with a character of a word starts with a word. -/
theorem exists_word {c : Char} (hc : ¬ Cuts c) (cs : List Char) :
    ∃ w rest, c :: cs = w ++ rest ∧ Word w ∧ Ends rest ∧ rest.length ≤ cs.length := by
  refine ⟨(c :: cs).takeWhile (decide <| ¬ Cuts ·), (c :: cs).dropWhile (decide <| ¬ Cuts ·), ?_,
    ⟨?_, ?_⟩, ?_, ?_⟩
  · exact List.takeWhile_append_dropWhile.symm
  · simp [hc]
  · intro d hd
    simpa using List.mem_takeWhile_imp hd
  · intro d hd
    have hstop := List.head?_dropWhile_not (decide <| ¬ Cuts ·) (c :: cs)
    rw [Option.mem_def.1 hd] at hstop
    simpa using hstop
  · rw [List.dropWhile_cons_of_pos (by simpa using hc)]
    exact List.length_dropWhile_le _ _

/-! ## Spellings -/

/-- **A text that spells tokens.** White space may stand anywhere but in a word, and something that cuts stands behind
every word that is not the end of the text. -/
inductive Spells : List (List Char) → List Char → Prop
  | nil : Spells [] []
  | blank {c : Char} {ts : List (List Char)} {cs : List Char} (hc : isBlank c = true) (h : Spells ts cs) :
      Spells ts (c :: cs)
  | paren {c : Char} {ts : List (List Char)} {cs : List Char} (hc : c = '(' ∨ c = ')') (h : Spells ts cs) :
      Spells ([c] :: ts) (c :: cs)
  | word {w : List Char} {ts : List (List Char)} {cs : List Char} (hw : Word w) (hends : Ends cs) (h : Spells ts cs) :
      Spells (w :: ts) (w ++ cs)

variable {ts us vs : List (List Char)} {t cs : List Char}

/-- **A text is cut into what it spells.** -/
theorem Spells.tokenize_eq (h : Spells ts cs) : tokenize cs = ts := by
  induction h with
  | nil => rfl
  | blank hc _ ih => rw [tokenize_blank hc, ih]
  | paren hc _ ih => rw [tokenize_paren hc, ih]
  | word hw hends _ ih => rw [tokenize_word hw hends, ih]

/-- **A text spells what it is cut into.** -/
theorem spells_tokenize : ∀ cs : List Char, Spells (tokenize cs) cs
  | [] => .nil
  | c :: cs => by
    by_cases hc : Cuts c
    · rcases hc with hblank | hparen
      · rw [tokenize_blank hblank]
        exact .blank hblank (spells_tokenize cs)
      · rw [tokenize_paren hparen]
        exact .paren hparen (spells_tokenize cs)
    · obtain ⟨w, rest, heq, hw, hends, hrest⟩ := exists_word hc cs
      rw [heq, tokenize_word hw hends]
      exact .word hw hends (spells_tokenize rest)
termination_by cs => cs.length

/-- **Cutting a text is the inverse of spelling.** -/
theorem spells_iff : Spells ts cs ↔ tokenize cs = ts :=
  ⟨Spells.tokenize_eq, fun h => h ▸ spells_tokenize cs⟩

theorem Spells.token (h : Spells ts cs) : ∀ t ∈ ts, Token t := by
  induction h with
  | nil => exact List.forall_mem_nil _
  | blank _ _ ih => exact ih
  | paren hc _ ih => exact List.forall_mem_cons.2 ⟨hc.imp (fun h => by rw [h]) fun h => .inl (by rw [h]), ih⟩
  | word hw _ _ ih => exact List.forall_mem_cons.2 ⟨.inr (.inr hw), ih⟩

/-- **The tokens of a text are parentheses and words.** -/
theorem token_of_mem_tokenize (cs : List Char) : ∀ t ∈ tokenize cs, Token t := (spells_tokenize cs).token

/-- Tokens have all of the text but its white space. -/
theorem Spells.flatten_eq (h : Spells ts cs) : ts.flatten = cs.filter fun c => !isBlank c := by
  induction h with
  | nil => rfl
  | blank hc _ ih => rw [List.filter_cons_of_neg (by simp [hc]), ih]
  | @paren c ts cs hc _ ih =>
    have hsolid : isBlank c = false := by rcases hc with rfl | rfl <;> rfl
    rw [List.flatten_cons, ih, List.filter_cons_of_pos (by simp [hsolid])]
    rfl
  | @word w ts cs hw _ _ ih =>
    have hsolid : w.filter (fun c => !isBlank c) = w := by
      rw [List.filter_eq_self]
      intro c hc
      rw [Bool.not_eq_true', Bool.eq_false_iff]
      exact fun hblank => hw.whole c hc (.inl hblank)
    rw [List.flatten_cons, List.filter_append, hsolid, ih]

/-! ## Places of tokens -/

/-- What may stand before a word. -/
def Starts (before : List Char) : Prop := ∀ c ∈ before.getLast?, Cuts c

theorem Starts.cons {c : Char} {before : List Char} (hc : Cuts c) (h : Starts before) : Starts (c :: before) := by
  cases before with
  | nil =>
    intro d hd
    cases hd
    exact hc
  | cons b before => exact h

theorem Starts.append_word {w before : List Char} (h : Starts before) (hne : before ≠ []) : Starts (w ++ before) := by
  intro d hd
  rw [List.getLast?_append, List.getLast?_eq_some_getLast hne, Option.some_or, ← List.getLast?_eq_some_getLast hne]
    at hd
  exact h d hd

/-- A text is not cut inside a word. -/
theorem Word.not_ends {w : List Char} (hw : Word w) (rest : List Char) : ¬ Ends (w ++ rest) := by
  obtain ⟨c, w, rfl⟩ := List.exists_cons_of_ne_nil hw.ne_nil
  exact fun h => hw.whole c List.mem_cons_self (h c rfl)

/-- **Each token has its place**: what is before it spells the tokens before it, what is behind it those behind it, and
a word is no part of a longer one. -/
theorem Spells.exists_place (h : Spells ts cs) (hts : ts = us ++ t :: vs) : ∃ before after,
    cs = before ++ t ++ after ∧ Spells us before ∧ Spells vs after ∧
      (Word t → Starts before ∧ Ends after) := by
  induction h generalizing us with
  | nil => cases us <;> cases hts
  | @blank c ts cs hc _ ih =>
    obtain ⟨before, after, rfl, hbefore, hafter, hmax⟩ := ih hts
    exact ⟨c :: before, after, rfl, .blank hc hbefore, hafter, fun ht =>
      ⟨(hmax ht).1.cons (.inl hc), (hmax ht).2⟩⟩
  | @paren c ts cs hc hcs ih =>
    cases us with
    | nil =>
      cases hts
      exact ⟨[], cs, rfl, .nil, hcs, fun ht => absurd (.inr hc) (ht.whole c (List.mem_singleton_self c))⟩
    | cons u us =>
      cases hts
      obtain ⟨before, after, rfl, hbefore, hafter, hmax⟩ := ih rfl
      exact ⟨c :: before, after, rfl, .paren hc hbefore, hafter,
        fun ht => ⟨(hmax ht).1.cons (.inr hc), (hmax ht).2⟩⟩
  | @word w ts cs hw hends hcs ih =>
    cases us with
    | nil =>
      cases hts
      exact ⟨[], cs, rfl, .nil, hcs, fun _ => ⟨nofun, hends⟩⟩
    | cons u us =>
      cases hts
      obtain ⟨before, after, rfl, hbefore, hafter, hmax⟩ := ih rfl
      have hends' : Ends before := fun c hc => hends c (by cases before <;> simp_all)
      refine ⟨w ++ before, after, by simp, .word hw hends' hbefore, hafter, fun ht => ⟨?_, (hmax ht).2⟩⟩
      refine (hmax ht).1.append_word fun hnil => ?_
      rw [hnil] at hends
      exact ht.not_ends after hends

/-! ## The law of cutting -/

/-- **Cutting a text into tokens loses and invents nothing**, and the texts that are cut into the same tokens are the
spellings of these. -/
theorem tokens_of_text (cs : List Char) :
    (tokenize cs).flatten = (cs.filter fun c => !isBlank c) ∧
    (∀ us t vs, tokenize cs = us ++ t :: vs → Token t ∧ ∃ before after, cs = before ++ t ++ after ∧
      tokenize before = us ∧ tokenize after = vs ∧ (Word t → Starts before ∧ Ends after)) ∧
    ∀ cs', Spells (tokenize cs) cs' ↔ tokenize cs' = tokenize cs := by
  refine ⟨(spells_tokenize cs).flatten_eq, fun us t vs hts => ⟨?_, ?_⟩, fun cs' => spells_iff⟩
  · exact token_of_mem_tokenize cs t (by rw [hts]; simp)
  · obtain ⟨before, after, heq, hbefore, hafter, hmax⟩ := (spells_tokenize cs).exists_place hts
    exact ⟨before, after, heq, hbefore.tokenize_eq, hafter.tokenize_eq, hmax⟩

end SExpr
end LazyFormula
