import LazyFormula.Number
import LazyFormula.Proofs.Decimals
import LazyFormula.Proofs.ListNotation
/-!
# Numerals

The text of a number is a word that reads as that number (`Number.read?_text`). For floats this rests on what all
layouts have in common: digits with a point among them, with an exponent behind them, or both (`Decimal.Numeral`). Such
a text is no integer and no name, and what it denotes has the digits of the decimal that was written, up to zeros.
-/
namespace LazyFormula
namespace Decimal

/-! ## Digits -/

theorem digits_zeros (k : Nat) : Digits (List.replicate k '0') := fun c hc => by
  rw [List.eq_of_mem_replicate hc]
  rfl

theorem Digits.append {cs ds : List Char} (hc : Digits cs) (hd : Digits ds) : Digits (cs ++ ds) := fun c h =>
  (List.mem_append.1 h).elim (hc c) (hd c)

theorem Digits.exists_leading {ds : List Char} (hd : Digits ds) (hne : ds ≠ []) (more : List Char) :
    ∃ c rest, ds ++ more = c :: rest ∧ c.isDigit = true := by
  obtain ⟨c, cs, rfl⟩ := List.exists_cons_of_ne_nil hne
  exact ⟨c, cs ++ more, rfl, hd c List.mem_cons_self⟩

/-- A row of digits ends where something else follows. -/
theorem Digits.span {ds rest : List Char} (hd : Digits ds) (hr : ∀ c ∈ rest.head?, c.isDigit = false) :
    (ds ++ rest).span Char.isDigit = (ds, rest) := by
  rw [List.span_eq_takeWhile_dropWhile, List.takeWhile_append_of_pos hd, List.dropWhile_append_of_pos hd]
  cases rest with
  | nil => simp
  | cons c rest => simp [hr c rfl]

theorem ofDigits_eq (cs : List Char) : ofDigits cs = Nat.ofDigitChars 10 cs 0 := Nat.ofDigitChars_eq_foldl.symm

theorem ofDigits_append_zeros (cs : List Char) (k : Nat) :
    ofDigits (cs ++ List.replicate k '0') = ofDigits cs * 10 ^ k := by
  rw [ofDigits_eq, Nat.ofDigitChars_append, Nat.ofDigitChars_replicate_zero, ofDigits_eq, Nat.mul_comm]

theorem ofDigits_zeros_append (cs : List Char) (k : Nat) : ofDigits (List.replicate k '0' ++ cs) = ofDigits cs := by
  rw [ofDigits_eq, Nat.ofDigitChars_append, Nat.ofDigitChars_replicate_zero, ofDigits_eq, Nat.mul_zero]

/-- The digits of a number without the zeros at its end. -/
theorem exists_digits {n : Nat} (hn : n ≠ 0) : ∃ (digits : List Char) (k : Nat),
    ((Nat.toDigits 10 n).reverse.dropWhile (· == '0')).reverse = digits ∧ Digits digits ∧ digits ≠ [] ∧
      n = ofDigits digits * 10 ^ k ∧ (Nat.toDigits 10 n).length = digits.length + k := by
  obtain ⟨digits, hdigits⟩ : ∃ digits, (Nat.toDigits 10 n).rdropWhile (· == '0') = digits := ⟨_, rfl⟩
  obtain ⟨zeros, hzeros⟩ : ∃ zeros, (Nat.toDigits 10 n).rtakeWhile (· == '0') = zeros := ⟨_, rfl⟩
  have hsplit : digits ++ zeros = Nat.toDigits 10 n := by
    rw [← hdigits, ← hzeros, List.rdropWhile_append_rtakeWhile]
  have hall : zeros = List.replicate zeros.length '0' := by
    refine List.eq_replicate_iff.2 ⟨rfl, fun c hc => ?_⟩
    rw [← hzeros] at hc
    simpa using List.mem_rtakeWhile_imp hc
  have hvalue : n = ofDigits digits * 10 ^ zeros.length := by
    rw [← ofDigits_append_zeros, ← hall, hsplit, ofDigits_toDigits]
  refine ⟨digits, zeros.length, hdigits, fun c hc => digits_toDigits n c ?_, ?_, hvalue, ?_⟩
  · rw [← hsplit]
    exact List.mem_append_left _ hc
  · rintro rfl
    exact hn (hvalue.trans (Nat.zero_mul _))
  · rw [← hsplit, List.length_append]

/-! ## Numerals -/

/-- A character of a numeral. -/
def Glyph (c : Char) : Prop := c.isDigit = true ∨ c = '.' ∨ c = 'e' ∨ c = '-'

theorem Glyph.not_cuts {c : Char} (h : Glyph c) : ¬ SExpr.Cuts c := by
  rcases h with h | rfl | rfl | rfl
  · exact SExpr.not_cuts_of_isWord (Text.isWord_of_isDigit h)
  all_goals decide

theorem glyph_of_mem_toString (i : Int) : ∀ c ∈ (toString i).toList, Glyph c := by
  intro c hc
  rw [toList_toString] at hc
  split at hc
  · exact .inl (digits_toDigits _ c hc)
  · rcases List.mem_cons.1 hc with rfl | hc
    · exact .inr (.inr (.inr rfl))
    · exact .inl (digits_toDigits _ c hc)

/-- **A numeral of a float**, without a sign: it starts with a digit and is no integer. -/
structure Numeral (cs : List Char) (x : Float) : Prop where
  leading : ∃ c rest, cs = c :: rest ∧ c.isDigit = true
  glyphs : ∀ c ∈ cs, Glyph c
  broken : ∃ c ∈ cs, c.isDigit = false
  value : (read? cs).map toFloat = some x

/-- An exponent part, or none. -/
inductive ExponentPart : List Char → Int → Prop
  | none : ExponentPart [] 0
  | some (e : Int) : ExponentPart ('e' :: (toString e).toList) e

namespace ExponentPart

variable {rest : List Char} {e : Int} (h : ExponentPart rest e)
include h

theorem read : readExponent? rest = .some e := by
  cases h with
  | none => rfl
  | some => exact readInt?_toString e

theorem isDigit_head : ∀ c ∈ rest.head?, c.isDigit = false := by
  intro c hc
  cases h with
  | none => cases hc
  | some =>
    cases hc
    rfl

theorem glyphs : ∀ c ∈ rest, Glyph c := by
  intro c hc
  cases h with
  | none => cases hc
  | some =>
    rcases List.mem_cons.1 hc with rfl | hc
    · exact .inr (.inr (.inl rfl))
    · exact glyph_of_mem_toString e c hc

end ExponentPart

namespace Numeral

/-- Digits around a point, and maybe an exponent. -/
theorem point {whole fraction rest : List Char} {e : Int} (hw : Digits whole) (hne : whole ≠ [])
    (hf : Digits fraction) (hr : ExponentPart rest e) :
    Numeral (whole ++ '.' :: (fraction ++ rest)) (toFloat ⟨ofDigits (whole ++ fraction), e - fraction.length⟩) where
  leading := hw.exists_leading hne _
  glyphs := by
    intro c hc
    simp only [List.mem_append, List.mem_cons] at hc
    rcases hc with hc | rfl | hc | hc
    · exact .inl (hw c hc)
    · exact .inr (.inl rfl)
    · exact .inl (hf c hc)
    · exact hr.glyphs c hc
  broken := ⟨'.', by simp, rfl⟩
  value := by
    have hpoint : ∀ c ∈ ('.' :: (fraction ++ rest)).head?, c.isDigit = false := by
      intro c hc
      cases hc
      rfl
    rw [read?, hw.span hpoint]
    simp only [readFraction?, hf.span hr.isDigit_head, List.isEmpty_eq_false_iff.2 hne, hr.read]
    rfl

/-- Digits and an exponent. -/
theorem exponent {whole : List Char} (hw : Digits whole) (hne : whole ≠ []) (e : Int) :
    Numeral (whole ++ 'e' :: (toString e).toList) (toFloat ⟨ofDigits whole, e⟩) where
  leading := hw.exists_leading hne _
  glyphs := fun c hc => (List.mem_append.1 hc).elim (fun hc => .inl (hw c hc)) ((ExponentPart.some e).glyphs c)
  broken := ⟨'e', by simp, rfl⟩
  value := by
    rw [read?, hw.span (ExponentPart.some e).isDigit_head]
    show ((if whole.isEmpty then none else (readInt? (toString e).toList).map fun e => ⟨ofDigits whole, e⟩).map
      toFloat) = _
    rw [readInt?_toString, if_neg (by simpa using hne)]
    rfl

variable {cs : List Char} {x : Float} (h : Numeral cs x)
include h

theorem word : SExpr.Word cs := by
  obtain ⟨c, rest, rfl, -⟩ := h.leading
  exact ⟨List.cons_ne_nil _ _, fun d hd => (h.glyphs d hd).not_cuts⟩

theorem splitSign : splitSign cs = (false, cs) := by
  obtain ⟨c, rest, rfl, hc⟩ := h.leading
  exact splitSign_of_isDigit hc rest

theorem isDigits : isDigits cs = false := by
  obtain ⟨c, hc, hdigit⟩ := h.broken
  rw [Decimal.isDigits, Bool.and_eq_false_iff]
  refine .inr (Bool.eq_false_iff.2 fun hall => ?_)
  rw [List.all_eq_true.1 hall c hc] at hdigit
  cases hdigit

/-- No name starts with a digit. -/
theorem readName? : readName? cs = none := by
  obtain ⟨c, rest, rfl, hc⟩ := h.leading
  have hlower : c.toLower = c := by
    refine Char.toLower_eq_of_not_isUpper fun hupper => ?_
    simp only [Char.isDigit, Char.isUpper, Bool.and_eq_true, decide_eq_true_eq] at hc hupper
    exact absurd (UInt32.le_trans hupper.1 hc.2) (by decide)
  have hname : ∀ d ds, d.isDigit = false →
      String.ofList ((c :: rest).map Char.toLower) ≠ String.ofList (d :: ds) := by
    intro d ds hd heq
    have hhead := List.head_eq_of_cons_eq (String.ofList_injective heq)
    rw [hlower] at hhead
    rw [hhead, hd] at hc
    cases hc
  unfold Decimal.readName?
  split
  · rename_i heq
    exact absurd heq (hname 'i' ['n', 'f'] rfl)
  · rename_i heq
    exact absurd heq (hname 'i' ['n', 'f', 'i', 'n', 'i', 't', 'y'] rfl)
  · rename_i heq
    exact absurd heq (hname 'n' ['a', 'n'] rfl)
  · rfl

/-- **A numeral is read as its float**, behind whatever sign. -/
theorem read?_signed {negative : Bool} {text : List Char} (hsign : Decimal.splitSign text = (negative, cs)) :
    Number.read? text = some (.float (if negative then -x else x)) := by
  have hint : readInt? text = none := by
    rw [readInt?, hsign]
    dsimp only
    rw [h.isDigits]
    rfl
  have hfloat : readFloat? text = some (if negative then -x else x) := by
    rw [readFloat?, hsign]
    dsimp only
    rw [h.readName?, h.value]
    rfl
  rw [Number.read?, hint, hfloat]
  rfl

end Numeral
end Decimal

namespace FloatLayout

open Decimal

/-! ## Layouts -/

/-- The decimal of digits with their first one at a place. -/
def placed (digits : List Char) (place : Int) : Decimal := ⟨ofDigits digits, place + 1 - digits.length⟩

theorem placed_eq {digits : List Char} {place e : Int} (h : place + 1 - digits.length = e) :
    placed digits place = ⟨ofDigits digits, e⟩ := by rw [placed, h]

theorem numeral_positionalText {digits : List Char} (hd : Digits digits) (hne : digits ≠ []) (place : Int) :
    Numeral (positionalText digits place) (placed digits place).toFloat := by
  unfold positionalText
  split
  · rename_i hplace
    have hf : Digits (List.replicate (-place - 1).toNat '0' ++ digits) := (digits_zeros _).append hd
    have h := Numeral.point (digits_zeros 1) (by decide) hf .none
    rw [List.append_nil, ofDigits_zeros_append, ofDigits_zeros_append] at h
    rw [placed_eq]
    · exact h
    · rw [List.length_append, List.length_replicate]
      omega
  · dsimp only
    split
    · -- zeros up to the point and one behind it do not change the value
      have hw : Digits (digits ++ List.replicate (place.toNat + 1 - digits.length) '0') := hd.append (digits_zeros _)
      have h := Numeral.point hw (by simp [hne]) (digits_zeros 1) .none
      rw [List.append_assoc digits (List.replicate _ '0') (List.replicate 1 '0'), List.replicate_append_replicate,
        ofDigits_append_zeros] at h
      have hexponent : place + 1 - digits.length - (place.toNat + 1 - digits.length + 1 : Nat) = -1 := by omega
      rw [placed, ← toFloat_mul_pow (ofDigits digits) _ (place.toNat + 1 - digits.length + 1), hexponent]
      exact h
    · have hw : Digits (digits.take (place.toNat + 1)) := fun c hc => hd c (List.mem_of_mem_take hc)
      have hf : Digits (digits.drop (place.toNat + 1)) := fun c hc => hd c (List.mem_of_mem_drop hc)
      have h := Numeral.point hw (by simp [hne]) hf .none
      rw [List.append_nil, List.take_append_drop] at h
      rw [placed_eq]
      · exact h
      · rw [List.length_drop]
        omega

theorem numeral_scientificText {l : FloatLayout} (hplus : l.plus = "") {digits : List Char} (hd : Digits digits)
    (hne : digits ≠ []) (place : Int) : Numeral (l.scientificText digits place) (placed digits place).toFloat := by
  have hexponent : (if place < 0 then toString place else l.plus ++ toString place) = toString place := by
    rw [hplus, String.empty_append, ite_self]
  unfold scientificText
  simp only [hexponent]
  obtain ⟨c, cs, rfl⟩ := List.exists_cons_of_ne_nil hne
  have hw : Digits [c] := fun d hd' => hd d (List.mem_singleton.1 hd' ▸ List.mem_cons_self)
  have hf : Digits cs := fun d hd' => hd d (List.mem_cons_of_mem _ hd')
  cases cs with
  | nil =>
    rw [placed_eq]
    · exact Numeral.exponent hw (List.cons_ne_nil _ _) place
    · rw [List.length_singleton]
      omega
  | cons d ds =>
    rw [placed_eq]
    · exact Numeral.point hw (List.cons_ne_nil _ _) hf (.some place)
    · simp only [List.drop_one, List.tail_cons, List.length_cons]
      omega

/-- The digits that are written and their place are those of the decimal, up to zeros. -/
theorem exists_digitsAndPlace {d : Decimal} (hd : d.digits ≠ 0) : ∃ digits place,
    digitsAndPlace d = (digits, place) ∧ Digits digits ∧ digits ≠ [] ∧
      (placed digits place).toFloat = d.toFloat := by
  obtain ⟨digits, k, hdigits, hall, hne, hvalue, hlength⟩ := exists_digits hd
  refine ⟨digits, d.exponent + (Nat.toDigits 10 d.digits).length - 1, ?_, hall, hne, ?_⟩
  · rw [digitsAndPlace, ← hdigits]
  · have hscaled : d = ⟨ofDigits digits * 10 ^ k, d.exponent + k - k⟩ := by rw [← hvalue, Int.add_sub_cancel]
    conv_rhs => rw [hscaled, toFloat_mul_pow]
    rw [placed_eq]
    rw [hlength]
    omega

theorem numeral_magnitudeText {l : FloatLayout} (hplus : l.plus = "") {d : Decimal} (hd : d.digits ≠ 0) :
    Numeral (l.magnitudeText d) d.toFloat := by
  obtain ⟨digits, place, heq, hdigits, hne, hvalue⟩ := exists_digitsAndPlace hd
  rw [← hvalue, magnitudeText, heq]
  dsimp only
  split
  · exact numeral_positionalText hdigits hne place
  · exact numeral_scientificText hplus hdigits hne place

/-- **A finite float is written as a numeral of its magnitude**, behind its sign. -/
theorem exists_numeral {l : FloatLayout} (hplus : l.plus = "") {x : Float} {v : Binary64}
    (h : Binary64.ofFloat? x = some v) :
    ∃ cs, Numeral cs x.abs ∧ (l.render x).toList = if v.negative then '-' :: cs else cs := by
  obtain ⟨hbounded, hcanonical, hbits, -⟩ := Binary64.ofFloat?_eq_some h
  have hzero : x.abs = 0.0 ↔ v.significand = 0 := by
    have hleading := hcanonical.leading
    rw [← Float.toBits_inj, ← UInt64.toNat_inj, FloatBits.toBits_abs hbounded, hbits, FloatBits.toBits_zero,
      Binary64.magnitudeBits]
    omega
  refine ⟨if v.significand = 0 then ['0', '.', '0'] else l.magnitudeText (shortest l.tie x v), ?_, ?_⟩
  · split
    · rename_i hs
      rw [hzero.2 hs]
      exact Numeral.point (digits_zeros 1) (by decide) (digits_zeros 1) .none
    · rename_i hs
      have hvalue := toFloat_shortest l.tie h hs
      rw [← hvalue]
      refine numeral_magnitudeText hplus fun hdigits => hs (hzero.1 ?_)
      rw [← hvalue, toFloat_of_digits_eq_zero hdigits]
  · rw [render, h]
    dsimp only
    rw [String.toList_ofList]

end FloatLayout

namespace Number

/-! ## Texts of numbers -/

theorem text_infinity : (Number.float infinity).text = "inf" := rfl

theorem text_neg_infinity : (Number.float (-infinity)).text = "-inf" := rfl

theorem text_notANumber : (Number.float notANumber).text = "NaN" := rfl

theorem read?_text_float (x : Float) : read? (Number.float x).text.toList = some (.float x) := by
  cases hv : Binary64.ofFloat? x with
  | none =>
    rcases Binary64.ofFloat?_eq_none hv with rfl | rfl | rfl
    · rw [text_infinity]
      rfl
    · rw [text_neg_infinity]
      rfl
    · rw [text_notANumber]
      rfl
  | some v =>
    obtain ⟨cs, hcs, htext⟩ := FloatLayout.exists_numeral (l := layout) rfl hv
    obtain ⟨hbounded, -, -, hsign⟩ := Binary64.ofFloat?_eq_some hv
    have hx := FloatBits.signed_abs hbounded
    rw [text, htext]
    split
    · rename_i hnegative
      rw [if_pos (hsign.1 hnegative)] at hx
      have hminus : Decimal.splitSign ('-' :: cs) = (true, cs) := rfl
      rw [hcs.read?_signed hminus, if_pos rfl, hx]
    · rename_i hpositive
      rw [if_neg fun hge => hpositive (hsign.2 hge)] at hx
      rw [hcs.read?_signed hcs.splitSign, if_neg Bool.false_ne_true, hx]

/-- **The text of a number is read as that number**, and as no number of the other representation. -/
theorem read?_text (n : Number) : read? n.text.toList = some n := by
  cases n with
  | int i => exact read?_text_int i
  | float x => exact read?_text_float x

/-- **The text of a number is a word.** -/
theorem word_text (n : Number) : SExpr.Word n.text.toList := by
  cases n with
  | int i =>
    refine ⟨?_, fun c hc => (Decimal.glyph_of_mem_toString i.toInt c hc).not_cuts⟩
    rw [text, Decimal.toList_toString]
    split
    · exact Nat.toDigits_ne_nil
    · exact List.cons_ne_nil _ _
  | float x =>
    cases hv : Binary64.ofFloat? x with
    | none =>
      have hinf : SExpr.Word ['i', 'n', 'f'] := SExpr.word_of_isWord (List.cons_ne_nil _ _) (List.all_eq_true.1 rfl)
      rcases Binary64.ofFloat?_eq_none hv with rfl | rfl | rfl
      · exact hinf
      · exact hinf.cons (by decide)
      · exact SExpr.word_of_isWord (List.cons_ne_nil _ _)
          (List.all_eq_true.1 (rfl : ['N', 'a', 'N'].all Text.isWord = true))
    | some v =>
      obtain ⟨cs, hcs, htext⟩ := FloatLayout.exists_numeral (l := layout) rfl hv
      rw [text, htext]
      split
      · exact hcs.word.cons (by decide)
      · exact hcs.word

end Number
end LazyFormula
