import LazyFormula.Expr
import LazyFormula.Text.Blank
import LazyFormula.Text.Word
/-!
# Words

What cuts a text into words: white space does, and no character of a word is white space. The text of an integer is a
row of digits, maybe behind a minus, and reads as the integer.
-/
namespace LazyFormula
namespace Text

/-! ## Characters -/

/-- The white space characters. -/
theorem mem_of_isBlank {c : Char} (h : isBlank c = true) :
    c.toNat ∈ [0x20, 0x85, 0xa0, 0x1680, 0x2028, 0x2029, 0x202f, 0x205f, 0x3000, 0x09, 0x0a, 0x0b, 0x0c, 0x0d,
      0x2000, 0x2001, 0x2002, 0x2003, 0x2004, 0x2005, 0x2006, 0x2007, 0x2008, 0x2009, 0x200a] := by
  unfold isBlank at h
  split at h
  case h_10 =>
    simp only [Bool.or_eq_true, Bool.and_eq_true, decide_eq_true_eq] at h
    simp only [List.mem_cons, List.not_mem_nil, or_false]
    omega
  all_goals
    rename_i hc
    rw [hc]
    decide

/-- **No character of a word is white space.** -/
theorem isBlank_of_isWord {c : Char} (h : isWord c = true) : isBlank c = false := by
  rw [Bool.eq_false_iff]
  intro hb
  have hnone :
      ∀ n ∈ [0x20, 0x85, 0xa0, 0x1680, 0x2028, 0x2029, 0x202f, 0x205f, 0x3000, 0x09, 0x0a, 0x0b, 0x0c, 0x0d,
      0x2000, 0x2001, 0x2002, 0x2003, 0x2004, 0x2005, 0x2006, 0x2007, 0x2008, 0x2009, 0x200a],
      isWord (Char.ofNat n) = false := by decide +kernel
  have hc := hnone _ (mem_of_isBlank hb)
  rw [Char.ofNat_toNat, h] at hc
  cases hc

/-- Decimal digits are characters of words. -/
theorem isWord_of_isDigit {c : Char} (h : c.isDigit = true) : isWord c = true := by
  have hlt : c.toNat < 0x80 := by
    simp only [Char.isDigit, Bool.and_eq_true, decide_eq_true_eq] at h
    exact Nat.lt_of_le_of_lt (UInt32.le_iff_toNat_le.1 h.2) (by decide)
  rw [isWord, if_pos hlt, Char.isAlphanum, h, Bool.or_true, Bool.true_or]

/-! ## Words of a text -/

/-- White space cuts a text. -/
theorem words_append_blank {c : Char} (hc : isBlank c = true) (x y : List Char) :
    words (x ++ c :: y) = words x ++ words y := by
  rw [words, List.splitOnP_append_cons x y hc, List.filter_append]
  rfl

theorem words_blank {c : Char} (hc : isBlank c = true) (y : List Char) : words (c :: y) = words y :=
  words_append_blank hc [] y

theorem words_solid {w : List Char} (hne : w ≠ []) (hw : ∀ c ∈ w, isBlank c = false) : words w = [w] := by
  rw [words, List.splitOnP_eq_singleton hw]
  cases w with
  | nil => exact absurd rfl hne
  | cons c w => rfl

end Text

/-! ## Numerals -/

namespace Decimal

theorem splitSign_of_isDigit {c : Char} (hc : c.isDigit = true) (cs : List Char) :
    splitSign (c :: cs) = (false, c :: cs) := by
  unfold splitSign
  split
  · rename_i heq
    cases heq
    cases hc
  · rename_i heq
    cases heq
    cases hc
  · rfl

/-- A row of decimal digits. -/
def Digits (cs : List Char) : Prop := ∀ c ∈ cs, c.isDigit = true

theorem digits_toDigits (n : Nat) : Digits (Nat.toDigits 10 n) := fun _ hc =>
  Nat.isDigit_of_mem_toDigits (by decide) (by decide) hc

theorem ofDigits_toDigits (n : Nat) : ofDigits (Nat.toDigits 10 n) = n :=
  Nat.ofDigitChars_eq_foldl.symm.trans Nat.ofDigitChars_ten_toDigits

theorem isDigits_toDigits (n : Nat) : isDigits (Nat.toDigits 10 n) = true := by
  rw [isDigits, List.all_eq_true.2 (digits_toDigits n), Bool.and_true, Bool.not_eq_true', List.isEmpty_eq_false_iff]
  exact Nat.toDigits_ne_nil

/-- **The digits of a number read as the number.** -/
theorem readInt?_toDigits (n : Nat) : readInt? (Nat.toDigits 10 n) = some (n : Int) := by
  obtain ⟨c, cs, hcs⟩ := List.exists_cons_of_ne_nil (Nat.toDigits_ne_nil (b := 10) (n := n))
  have hc : c.isDigit = true := digits_toDigits n c (by rw [hcs]; exact List.mem_cons_self)
  have hsign : splitSign (Nat.toDigits 10 n) = (false, Nat.toDigits 10 n) := by rw [hcs, splitSign_of_isDigit hc]
  rw [readInt?, hsign]
  simp only [isDigits_toDigits, if_true, ofDigits_toDigits]
  rfl

/-- The text of an integer: its digits, behind a minus if it is negative. -/
theorem toList_toString (i : Int) :
    (toString i).toList = if 0 ≤ i then Nat.toDigits 10 i.toNat else '-' :: Nat.toDigits 10 i.natAbs := by
  cases i with
  | ofNat n =>
    show (toString n).toList = _
    rw [Nat.toString_eq_ofList_toDigits, String.toList_ofList]
    rfl
  | negSucc n =>
    show ("-" ++ (n + 1).repr).toList = _
    rw [String.toList_append, Nat.repr_eq_ofList_toDigits, String.toList_ofList, String.toList_ofList]
    rfl

/-- **The text of an integer reads as the integer.** -/
theorem readInt?_toString (i : Int) : readInt? (toString i).toList = some i := by
  rw [toList_toString]
  split
  · rename_i hi
    rw [readInt?_toDigits, Int.toNat_of_nonneg hi]
  · rename_i hi
    show (if isDigits (Nat.toDigits 10 i.natAbs) = true then some (-(ofDigits (Nat.toDigits 10 i.natAbs) : Int))
      else none) = _
    rw [if_pos (isDigits_toDigits _), ofDigits_toDigits, Int.ofNat_natAbs_of_nonpos (by omega), Int.neg_neg]

end Decimal

namespace Number

theorem text_of_nonneg {i : Int64} (hi : 0 ≤ i) : (Number.int i).text.toList = Nat.toDigits 10 i.toInt.toNat := by
  show (toString i.toInt).toList = _
  have hnonneg : 0 ≤ i.toInt := Int64.le_iff_toInt_le.1 hi
  rw [Decimal.toList_toString, if_pos hnonneg]

/-- **The text of an integer is read as that number.** -/
theorem read?_text_int (i : Int64) : read? (Number.int i).text.toList = some (.int i) := by
  rw [read?, text, Decimal.readInt?_toString, Option.filter, if_pos (decide_eq_true (fits_toInt i))]
  show some (Number.int (Int64.ofInt i.toInt)) = _
  rw [Int64.ofInt_toInt]

end Number
end LazyFormula
