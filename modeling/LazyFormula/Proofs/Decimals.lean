import LazyFormula.Decimal.Shortest
import LazyFormula.Proofs.Rounding
/-!
# Decimals of floats

A decimal reads as the same float with or without zeros at its end (`Decimal.toFloat_mul_pow`), and the shortest decimal
of a float reads as the magnitude of that float (`Decimal.toFloat_shortest`). Where a coarse grid has the decimal, the
search has tried it; where none has, the exact value is taken, which no bound on the size of decimals cuts off.
-/
namespace LazyFormula

/-! ## Digits of numbers -/

theorem toDigits_mul_pow {n : Nat} (hn : n ≠ 0) (k : Nat) :
    Nat.toDigits 10 (n * 10 ^ k) = Nat.toDigits 10 n ++ List.replicate k '0' := by
  induction k with
  | zero => simp
  | succ k ih =>
    rw [Nat.pow_succ, ← Nat.mul_assoc, Nat.mul_comm _ 10, ← Nat.add_zero (10 * _),
      ← Nat.toDigits_append_toDigits (by decide) (by positivity) (by decide), ih, List.replicate_succ',
        List.append_assoc]
    rfl

theorem digitCount_mul_pow {n : Nat} (hn : n ≠ 0) (k : Nat) : digitCount (n * 10 ^ k) = digitCount n + k := by
  rw [digitCount, toDigits_mul_pow hn, List.length_append, List.length_replicate, digitCount]

theorem digitCount_pos (n : Nat) : 0 < digitCount n := Nat.length_toDigits_pos

theorem digitCount_le_iff {n k : Nat} (hk : 0 < k) : digitCount n ≤ k ↔ n < 10 ^ k :=
  Nat.length_toDigits_le_iff (by decide) hk

theorem Tie.choose_cases (tie : Tie) (n : Nat) : tie.choose n = n ∨ tie.choose n = n + 1 := by
  cases tie with
  | up => exact .inr rfl
  | even =>
    show n + n % 2 = n ∨ n + n % 2 = n + 1
    omega

namespace Decimal

/-! ## Values of decimals -/

theorem toFloat_of_digits_eq_zero {d : Decimal} (h : d.digits = 0) : d.toFloat = 0.0 := by
  unfold toFloat
  simp [h]

/-- The bounds on the size of decimals do not matter within them. -/
theorem toFloat_of_range {d : Decimal} (hd : d.digits ≠ 0) (hlow : -330 ≤ digitCount d.digits + d.exponent)
    (hhigh : digitCount d.digits + d.exponent ≤ 310) :
    d.toFloat = Binary64.nearest (d.digits * 10 ^ d.exponent.toNat) (10 ^ (-d.exponent).toNat) := by
  have htiny : (decide (d.digits = 0) || decide (digitCount d.digits + d.exponent < -330)) = false := by
    rw [decide_eq_false hd, decide_eq_false (Int.not_lt.2 hlow)]
    rfl
  unfold toFloat
  simp only [htiny]
  rw [if_neg (by decide), if_neg (Int.not_lt.2 hhigh)]
  rfl

/-- **Zeros at the end of a decimal do not change what it reads as.** -/
theorem toFloat_mul_pow (n : Nat) (e : Int) (k : Nat) :
    (⟨n * 10 ^ k, e - k⟩ : Decimal).toFloat = (⟨n, e⟩ : Decimal).toFloat := by
  by_cases hn : n = 0
  · subst hn
    rw [toFloat_of_digits_eq_zero (Nat.zero_mul _), toFloat_of_digits_eq_zero rfl]
  have hnearest : Binary64.nearest (n * 10 ^ k * 10 ^ (e - k).toNat) (10 ^ (-(e - k)).toNat) =
      Binary64.nearest (n * 10 ^ e.toNat) (10 ^ (-e).toNat) := by
    refine Binary64.nearest_congr (by positivity) (by positivity) ?_
    rw [Nat.mul_assoc, Nat.mul_assoc, Nat.mul_assoc, ← Nat.pow_add, ← Nat.pow_add, ← Nat.pow_add]
    congr 2
    omega
  have htop : (digitCount (n * 10 ^ k) : Int) + (e - k) = digitCount n + e := by
    rw [digitCount_mul_pow hn]
    push_cast
    ring
  have hpos : n * 10 ^ k ≠ 0 := by positivity
  unfold toFloat
  simp only [Nat.pow_eq, hnearest, htop, hn, hpos]

/-! ## The exact decimal -/

theorem exact_eq (v : Binary64) :
    exact v = ⟨v.significand * 2 ^ v.exponent.toNat * 5 ^ (-v.exponent).toNat, -(-v.exponent).toNat⟩ := rfl

/-- The exact decimal of a float is within the bounds on the size of decimals. -/
theorem exact_range {v : Binary64} (h : v.Canonical) (hs : v.significand ≠ 0) :
    -330 ≤ digitCount (exact v).digits + (exact v).exponent ∧
      digitCount (exact v).digits + (exact v).exponent ≤ 310 := by
  have hge := h.exponent_ge
  have hle := h.exponent_le
  obtain ⟨k, hk⟩ : ∃ k, (-v.exponent).toNat = k := ⟨_, rfl⟩
  rw [exact_eq, hk]
  dsimp only
  constructor
  · by_contra hlow
    obtain ⟨m, rfl⟩ : ∃ m, k = m + 331 := ⟨k - 331, by omega⟩
    have hm : 0 < m := by
      have := digitCount_pos (v.significand * 2 ^ v.exponent.toNat * 5 ^ (m + 331))
      omega
    have hdigits : v.significand * 2 ^ v.exponent.toNat * 5 ^ (m + 331) < 10 ^ m := (digitCount_le_iff hm).1 (by omega)
    have hpow : 2 ^ m ≤ 5 ^ 331 := by
      have hm' : m ≤ 743 := by omega
      exact (Nat.pow_le_pow_right Nat.two_pos hm').trans (by decide +kernel)
    refine absurd hdigits (Nat.not_lt.2 ?_)
    calc 10 ^ m = 2 ^ m * 5 ^ m := by rw [← Nat.mul_pow]
      _ ≤ 5 ^ 331 * 5 ^ m := Nat.mul_le_mul_right _ hpow
      _ = 1 * 5 ^ (m + 331) := by rw [← Nat.pow_add, Nat.one_mul, Nat.add_comm]
      _ ≤ v.significand * 2 ^ v.exponent.toNat * 5 ^ (m + 331) :=
        Nat.mul_le_mul_right _ (Nat.mul_pos (Nat.pos_of_ne_zero hs) (by positivity))
  · have hwhole : v.significand * 2 ^ v.exponent.toNat < 10 ^ 310 :=
      calc v.significand * 2 ^ v.exponent.toNat ≤ 2 ^ 53 * 2 ^ 971 :=
            Nat.mul_le_mul h.significand_lt.le (Nat.pow_le_pow_right (by decide) (by omega))
        _ < 10 ^ 310 := by decide +kernel
    have hdigits : v.significand * 2 ^ v.exponent.toNat * 5 ^ k < 10 ^ (310 + k) :=
      calc v.significand * 2 ^ v.exponent.toNat * 5 ^ k < 10 ^ 310 * 5 ^ k :=
            Nat.mul_lt_mul_of_pos_right hwhole (by positivity)
        _ ≤ 10 ^ 310 * 10 ^ k := Nat.mul_le_mul_left _ (Nat.pow_le_pow_left (by decide) k)
        _ = 10 ^ (310 + k) := by rw [← Nat.pow_add]
    have := (digitCount_le_iff (by omega)).2 hdigits
    omega

theorem toFloat_exact {x : Float} {v : Binary64} (h : Binary64.ofFloat? x = some v) (hs : v.significand ≠ 0) :
    (exact v).toFloat = x.abs := by
  obtain ⟨-, hcanonical, -, -⟩ := Binary64.ofFloat?_eq_some h
  obtain ⟨hlow, hhigh⟩ := exact_range hcanonical hs
  have hd : (exact v).digits ≠ 0 := (Nat.mul_pos (Binary64.numerator_pos hs) (Nat.pow_pos (by decide))).ne'
  rw [toFloat_of_range hd hlow hhigh, ← Binary64.nearest_of_value h hs]
  refine Binary64.nearest_congr (by positivity) v.denominator_pos ?_
  obtain ⟨k, hk⟩ : ∃ k, (-v.exponent).toNat = k := ⟨_, rfl⟩
  have hneg : (-(-(k : Int))).toNat = k := by omega
  have hzero : (-(k : Int)).toNat = 0 := by omega
  unfold exact Binary64.denominator
  simp only [Nat.pow_eq]
  rw [hk, hneg, hzero, Nat.pow_zero, Nat.mul_one, Nat.mul_assoc, ← Nat.mul_pow]

/-! ## The shortest decimal -/

/-- What is taken from a grid reads back. -/
theorem toFloat_of_onGrid? {tie : Tie} {x : Float} {n d : Nat} {place : Int} {r : Decimal}
    (h : onGrid? tie x n d place = some r) : r.toFloat = x := by
  have hbits : ∀ {y : Float}, (y.toBits == x.toBits) = true → y = x := fun h => Float.toBits_inj.1 (eq_of_beq h)
  unfold onGrid? at h
  dsimp only at h
  split at h
  · rename_i hbelow habove
    cases h
    split_ifs
    · exact hbits hbelow
    · exact hbits habove
    · rcases tie.choose_cases (n * Nat.pow 10 (-place).toNat / (d * Nat.pow 10 place.toNat)) with heq | heq
      · rw [heq]
        exact hbits hbelow
      · rw [heq]
        exact hbits habove
  · rename_i hbelow _
    cases h
    exact hbits hbelow
  · rename_i habove
    cases h
    exact hbits habove
  · cases h

/-- **The shortest decimal of a float reads as its magnitude.** -/
theorem toFloat_shortest (tie : Tie) {x : Float} {v : Binary64} (h : Binary64.ofFloat? x = some v)
    (hs : v.significand ≠ 0) : (shortest tie x v).toFloat = x.abs := by
  unfold shortest
  dsimp only
  cases hfind : (List.range 17).findSome? fun (n : Nat) =>
      onGrid? tie x.abs v.numerator v.denominator (leadingPlace v.numerator v.denominator - n) with
  | none => exact toFloat_exact h hs
  | some d =>
    obtain ⟨n, -, hn⟩ := List.exists_of_findSome?_eq_some hfind
    exact toFloat_of_onGrid? hn

end Decimal
end LazyFormula
