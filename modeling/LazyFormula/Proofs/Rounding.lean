import LazyFormula.Proofs.FloatBits
/-!
# Rounding to floats

The float nearest to a quotient of whole numbers is a matter of the quotient's value, not of the two numbers it is
given as (`Binary64.nearest_congr`): the leading bit is a logarithm of the value, and the rest is one division. A value
that a float has is rounded to that float (`Binary64.nearest_of_value`), and a greater value to no lesser float
(`Binary64.nearestBits_mono`).
-/
namespace LazyFormula
namespace Binary64

open FloatBits (toBits_abs)

/-! ## The leading bit -/

/-- A power of two as a quotient of whole numbers. -/
theorem two_zpow (l : Int) : (2 : ℚ) ^ l = (2 ^ l.toNat : Nat) / (2 ^ (-l).toNat : Nat) := by
  obtain ⟨k, rfl | rfl⟩ := l.eq_nat_or_neg
  · simp
  · simp [zpow_neg]

/-- The lengths of two numbers give their quotient up to a factor of two. -/
theorem quotient_bounds {n d : Nat} (hn : 0 < n) (hd : 0 < d) :
    (2 : ℚ) ^ ((n.log2 : Int) - d.log2 - 1) ≤ (n : ℚ) / d ∧
    (n : ℚ) / d < 2 ^ ((n.log2 : Int) - d.log2 + 1) := by
  have hnlow : ((2 ^ n.log2 : Nat) : ℚ) ≤ n := Nat.cast_le.2 (Nat.log2_self_le hn.ne')
  have hnhigh : (n : ℚ) < (2 ^ (n.log2 + 1) : Nat) := Nat.cast_lt.2 Nat.lt_log2_self
  have hdlow : ((2 ^ d.log2 : Nat) : ℚ) ≤ d := Nat.cast_le.2 (Nat.log2_self_le hd.ne')
  have hdhigh : (d : ℚ) < (2 ^ (d.log2 + 1) : Nat) := Nat.cast_lt.2 Nat.lt_log2_self
  have hd0 : (0 : ℚ) < d := Nat.cast_pos.2 hd
  push_cast at *
  constructor
  · rw [sub_sub, zpow_sub₀ two_ne_zero]
    exact_mod_cast div_le_div₀ (by positivity) hnlow hd0 hdhigh.le
  · rw [sub_add_eq_add_sub, zpow_sub₀ two_ne_zero]
    exact_mod_cast div_lt_div₀ hnhigh hdlow (by positivity) (by positivity)

/-- **The leading bit is the logarithm of the value.** -/
theorem leadingBit_eq_log {n d : Nat} (hn : 0 < n) (hd : 0 < d) : leadingBit n d = Int.log 2 ((n : ℚ) / d) := by
  have hq : (0 : ℚ) < n / d := div_pos (Nat.cast_pos.2 hn) (Nat.cast_pos.2 hd)
  obtain ⟨hlow, hhigh⟩ := quotient_bounds hn hd
  have hlow := (Int.zpow_le_iff_le_log Nat.one_lt_two hq).1 hlow
  have hhigh := (Int.lt_zpow_iff_log_lt Nat.one_lt_two hq).1 hhigh
  have hcond : ∀ l : Int, d * 2 ^ l.toNat ≤ n * 2 ^ (-l).toNat ↔ l ≤ Int.log 2 ((n : ℚ) / d) := by
    intro l
    rw [← Int.zpow_le_iff_le_log Nat.one_lt_two hq, Nat.cast_ofNat, two_zpow,
      div_le_div_iff₀ (by positivity) (by positivity), mul_comm d]
    norm_cast
  unfold leadingBit
  simp only [Nat.pow_eq, hcond]
  split <;> omega

/-! ## Division -/

theorem divideEven_mul (n d : Nat) {c : Nat} (hc : 0 < c) : divideEven (n * c) (d * c) = divideEven n d := by
  have hlt : ∀ a b : Nat, a * c < b * c ↔ a < b := fun a b => Nat.mul_lt_mul_right hc
  unfold divideEven
  simp only [Nat.mul_div_mul_right _ _ hc, Nat.mul_mod_mul_right, ← Nat.mul_assoc, hlt]

theorem divideEven_congr {n d n' d' : Nat} (hd : 0 < d) (hd' : 0 < d') (h : n * d' = n' * d) :
    divideEven n d = divideEven n' d' := by
  rw [← divideEven_mul n d hd', h, Nat.mul_comm d d', divideEven_mul n' d' hd]

theorem divideEven_one (n : Nat) : divideEven n 1 = n := by
  unfold divideEven
  simp [Nat.mod_one]

/-! ## The nearest float -/

/-- The place of the last bit that a quotient is rounded to. -/
def lastPlace (n d : Nat) : Int := max (leadingBit n d - 52) (-1074)

/-- A quotient rounded to a whole number of units `2 ^ e`. -/
def roundedAt (n d : Nat) (e : Int) : Nat := divideEven (n * 2 ^ (-e).toNat) (d * 2 ^ e.toNat)

theorem nearestBits_eq_lastPlace (n d : Nat) :
    nearestBits n d = min (roundedAt n d (lastPlace n d) + (lastPlace n d + 1074).toNat * 2 ^ 52) (2047 * 2 ^ 52) := rfl

/-- **The nearest float depends on the value alone.** -/
theorem nearest_congr {n d n' d' : Nat} (hd : 0 < d) (hd' : 0 < d') (h : n * d' = n' * d) :
    nearest n d = nearest n' d' := by
  by_cases hn : n = 0
  · subst hn
    have hn' : n' = 0 := by
      rw [Nat.zero_mul] at h
      exact (Nat.mul_eq_zero.1 h.symm).resolve_right hd.ne'
    rw [nearest, nearest, if_pos rfl, if_pos hn']
  have hn' : n' ≠ 0 := by
    rintro rfl
    rw [Nat.zero_mul] at h
    exact hn ((Nat.mul_eq_zero.1 h).resolve_right hd'.ne')
  have hlead : leadingBit n d = leadingBit n' d' := by
    rw [leadingBit_eq_log (Nat.pos_of_ne_zero hn) hd, leadingBit_eq_log (Nat.pos_of_ne_zero hn') hd']
    congr 1
    rw [div_eq_div_iff (by positivity) (by positivity)]
    exact_mod_cast h
  have hround : ∀ e, roundedAt n d e = roundedAt n' d' e := fun e =>
    divideEven_congr (by positivity) (by positivity) (by rw [Nat.mul_mul_mul_comm, h, Nat.mul_mul_mul_comm])
  rw [nearest, nearest, if_neg hn, if_neg hn', nearestBits_eq_lastPlace, nearestBits_eq_lastPlace, lastPlace,
    lastPlace, hlead, hround]

/-! ## Values of floats -/

/-- A value as the quotient that it is given as. -/
theorem quotient_eq (v : Binary64) : (v.numerator : ℚ) / v.denominator = v.significand * 2 ^ v.exponent := by
  rw [numerator, denominator, Nat.pow_eq, Nat.pow_eq, Nat.cast_mul, mul_div_assoc, two_zpow]

theorem denominator_pos (v : Binary64) : 0 < v.denominator := Nat.pow_pos Nat.two_pos

theorem numerator_pos {v : Binary64} (h : v.significand ≠ 0) : 0 < v.numerator :=
  Nat.mul_pos (Nat.pos_of_ne_zero h) (Nat.pow_pos Nat.two_pos)

/-- The place that a value is rounded to is that of its own last bit. -/
theorem Canonical.place_eq {v : Binary64} (h : v.Canonical) (hs : v.significand ≠ 0) :
    lastPlace v.numerator v.denominator = v.exponent := by
  have hunit : (0 : ℚ) < 2 ^ v.exponent := zpow_pos two_pos _
  have hpos : (0 : ℚ) < v.significand * 2 ^ v.exponent := mul_pos (Nat.cast_pos.2 (Nat.pos_of_ne_zero hs)) hunit
  have hhigh : Int.log 2 ((v.significand : ℚ) * 2 ^ v.exponent) < 53 + v.exponent := by
    rw [← Int.lt_zpow_iff_log_lt Nat.one_lt_two hpos, Nat.cast_ofNat, zpow_add₀ two_ne_zero]
    refine mul_lt_mul_of_pos_right ?_ hunit
    exact_mod_cast h.significand_lt
  have hlow : 2 ^ 52 ≤ v.significand → 52 + v.exponent ≤ Int.log 2 ((v.significand : ℚ) * 2 ^ v.exponent) := by
    intro hle
    rw [← Int.zpow_le_iff_le_log Nat.one_lt_two hpos, Nat.cast_ofNat, zpow_add₀ two_ne_zero]
    refine mul_le_mul_of_nonneg_right ?_ hunit.le
    exact_mod_cast hle
  have hge := h.exponent_ge
  rw [lastPlace, leadingBit_eq_log (numerator_pos hs) v.denominator_pos, quotient_eq]
  rcases h.leading with he | hle
  · omega
  · have := hlow hle
    omega

theorem Canonical.nearestBits_eq {v : Binary64} (h : v.Canonical) (hs : v.significand ≠ 0) :
    nearestBits v.numerator v.denominator = v.magnitudeBits := by
  have hround : roundedAt v.numerator v.denominator v.exponent = v.significand := by
    have hunit : 0 < 2 ^ v.exponent.toNat * 2 ^ (-v.exponent).toNat := by positivity
    rw [roundedAt, ← divideEven_one v.significand, ← divideEven_mul v.significand 1 hunit, numerator, denominator,
      Nat.pow_eq, Nat.pow_eq, Nat.mul_assoc, Nat.one_mul, Nat.mul_comm (2 ^ (-v.exponent).toNat)]
  have hlt := h.significand_lt
  have hle := h.exponent_le
  rw [nearestBits_eq_lastPlace, h.place_eq hs, hround, magnitudeBits]
  omega

/-- **Rounding the exact value of a float gives its magnitude.** -/
theorem nearest_of_value {x : Float} {v : Binary64} (h : ofFloat? x = some v) (hs : v.significand ≠ 0) :
    nearest v.numerator v.denominator = x.abs := by
  obtain ⟨hbounded, hcanonical, hbits, -⟩ := ofFloat?_eq_some h
  rw [nearest, if_neg (numerator_pos hs).ne', hcanonical.nearestBits_eq hs, ← hbits, ← toBits_abs hbounded,
    UInt64.ofNat_toNat, Float.ofBits_toBits]

/-! ## Rounding keeps the order -/

theorem divideEven_le_divideEven {n n' : Nat} (h : n ≤ n') (d : Nat) : divideEven n d ≤ divideEven n' d := by
  have hdiv : n / d ≤ n' / d := Nat.div_le_div_right h
  have hn := Nat.div_add_mod n d
  have hn' := Nat.div_add_mod n' d
  rcases hdiv.lt_or_eq with hlt | heq
  · unfold divideEven
    dsimp only
    split_ifs <;> omega
  · have hmod : n % d ≤ n' % d := by
      rw [heq] at hn
      omega
    unfold divideEven
    dsimp only
    rw [heq]
    split_ifs <;> omega

theorem divideEven_mono {n d n' d' : Nat} (hd : 0 < d) (hd' : 0 < d') (h : n * d' ≤ n' * d) :
    divideEven n d ≤ divideEven n' d' := by
  rw [← divideEven_mul n d hd', ← divideEven_mul n' d' hd, Nat.mul_comm d' d]
  exact divideEven_le_divideEven h _

theorem divideEven_le {n d m : Nat} (hd : 0 < d) (h : n ≤ m * d) : divideEven n d ≤ m := by
  rw [← divideEven_one m]
  exact divideEven_mono hd Nat.one_pos (by rwa [Nat.mul_one])

theorem le_divideEven {n d m : Nat} (hd : 0 < d) (h : m * d ≤ n) : m ≤ divideEven n d := by
  rw [← divideEven_one m]
  exact divideEven_mono Nat.one_pos hd (by rwa [Nat.mul_one])

theorem roundedAt_mono {n d n' d' : Nat} (hd : 0 < d) (hd' : 0 < d') (h : n * d' ≤ n' * d) (e : Int) :
    roundedAt n d e ≤ roundedAt n' d' e := by
  refine divideEven_mono (by positivity) (by positivity) ?_
  calc n * 2 ^ (-e).toNat * (d' * 2 ^ e.toNat) = n * d' * (2 ^ (-e).toNat * 2 ^ e.toNat) := Nat.mul_mul_mul_comm ..
    _ ≤ n' * d * (2 ^ (-e).toNat * 2 ^ e.toNat) := Nat.mul_le_mul_right _ h
    _ = n' * 2 ^ (-e).toNat * (d * 2 ^ e.toNat) := Nat.mul_mul_mul_comm ..

theorem roundedAt_le {n d m : Nat} {e : Int} (hd : 0 < d) (h : (n : ℚ) / d ≤ m * 2 ^ e) :
    roundedAt n d e ≤ m := by
  refine divideEven_le (by positivity) ?_
  rw [two_zpow, ← mul_div_assoc, div_le_div_iff₀ (by positivity) (by positivity)] at h
  rw [Nat.mul_left_comm, Nat.mul_comm d]
  exact_mod_cast h

theorem le_roundedAt {n d m : Nat} {e : Int} (hd : 0 < d) (h : m * 2 ^ e ≤ (n : ℚ) / d) :
    m ≤ roundedAt n d e := by
  refine le_divideEven (by positivity) ?_
  rw [two_zpow, ← mul_div_assoc, div_le_div_iff₀ (by positivity) (by positivity)] at h
  rw [Nat.mul_left_comm, Nat.mul_comm d]
  exact_mod_cast h

/-- A significand has 53 bits, or is the least number that has more. -/
theorem roundedAt_place_le {n d : Nat} (hn : 0 < n) (hd : 0 < d) : roundedAt n d (lastPlace n d) ≤ 2 ^ 53 := by
  have hq : (0 : ℚ) < n / d := by positivity
  refine roundedAt_le hd ?_
  have hlog : Int.log 2 ((n : ℚ) / d) < 53 + lastPlace n d := by
    have : leadingBit n d - 52 ≤ lastPlace n d := le_max_left _ _
    rw [← leadingBit_eq_log hn hd]
    omega
  have hlt := (Int.lt_zpow_iff_log_lt Nat.one_lt_two hq).2 hlog
  rw [Nat.cast_ofNat, zpow_add₀ two_ne_zero] at hlt
  exact_mod_cast hlt.le

/-- Above the least place, a significand has no fewer than 53 bits. -/
theorem le_roundedAt_place {n d : Nat} (hn : 0 < n) (hd : 0 < d) (h : -1074 < lastPlace n d) :
    2 ^ 52 ≤ roundedAt n d (lastPlace n d) := by
  have hq : (0 : ℚ) < n / d := by positivity
  refine le_roundedAt hd ?_
  have hlog : 52 + lastPlace n d ≤ Int.log 2 ((n : ℚ) / d) := by
    unfold lastPlace at h ⊢
    rw [← leadingBit_eq_log hn hd]
    omega
  have hle := (Int.zpow_le_iff_le_log Nat.one_lt_two hq).2 hlog
  rw [Nat.cast_ofNat, zpow_add₀ two_ne_zero] at hle
  exact_mod_cast hle

/-- **Rounding keeps the order**: within one place as division does, and from one place to a greater one because every
significand there has its leading bit. -/
theorem nearestBits_mono {n d n' d' : Nat} (hn : 0 < n) (hd : 0 < d) (hd' : 0 < d') (h : n * d' ≤ n' * d) :
    nearestBits n d ≤ nearestBits n' d' := by
  have hn' : 0 < n' := Nat.pos_of_mul_pos_right ((Nat.mul_pos hn hd').trans_le h)
  have hq : (n : ℚ) / d ≤ n' / d' := by
    rw [div_le_div_iff₀ (by positivity) (by positivity)]
    exact_mod_cast h
  have hlead : leadingBit n d ≤ leadingBit n' d' := by
    rw [leadingBit_eq_log hn hd, leadingBit_eq_log hn' hd']
    exact Int.log_mono_right (by positivity) hq
  have hplace : lastPlace n d ≤ lastPlace n' d' := max_le_max_right _ (Int.sub_le_sub_right hlead 52)
  rw [nearestBits_eq_lastPlace, nearestBits_eq_lastPlace]
  refine min_le_min_right _ ?_
  rcases hplace.lt_or_eq with hlt | heq
  · have hge : -1074 ≤ lastPlace n d := le_max_right _ _
    have hhigh := roundedAt_place_le hn hd
    have hlow := le_roundedAt_place hn' hd' (hge.trans_lt hlt)
    omega
  · rw [heq]
    exact Nat.add_le_add_right (roundedAt_mono hd hd' h _) _

end Binary64
end LazyFormula
