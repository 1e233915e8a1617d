import LazyFormula.Number
import LazyFormula.Proofs.Rounding
/-!
# The order of floats

All floats but NaN stand in one row, from minus infinity to infinity, and are compared by their places in it
(`FloatBits.compareFloats_eq`). A rational number has the place of the float that it is rounded to: rounding keeps the
order (`FloatBits.rankNear_mono`), and a float has the place of the number that it denotes, which no other float does
(`FloatBits.Denoted.eq_of_place_eq`). So floats are in the order of what they denote, and anything else that is rounded
to a float is at least not out of it.
-/
namespace LazyFormula

namespace FloatBits

open Float.Model (Format)
open Float.Model.UnpackedFloat

/-! ## Places -/

/-- **The place of a float in the row of all floats**, from minus infinity to infinity. The zeros share one. -/
def rank (x : Float) : Int :=
  if 2 ^ 63 ≤ x.toBits.toNat then -(x.toBits.toNat % 2 ^ 63 : Nat) else (x.toBits.toNat % 2 ^ 63 : Nat)

/-- What a float is unpacked to, by its place. -/
inductive Ranked : Float.Model.UnpackedFloat → Int → Prop
  | infinity (s : Sign) : Ranked (.infinity s) (s.apply (2047 * 2 ^ 52))
  | zero (s : Sign) : Ranked (.zero s) 0
  | finite (s : Sign) {m k n : Nat} {e : Int} (hm : 0 < m) (hlt : m < 2 ^ 53) (hk : k ≤ 2045) (he : e = k - 1074)
      (hlead : k = 0 ∨ 2 ^ 52 ≤ m) (hn : n = m + k * 2 ^ 52) : Ranked (.finite s m e hm) (s.apply n)

theorem rank_eq {x : Float} {s : Sign} {n : Nat}
    (h : x.toBits.toNat = s.toBitVec.toNat * 2 ^ 63 + n) (hn : n < 2 ^ 63) :
    rank x = s.apply n := by
  cases s with
  | negative =>
    have hone : Sign.negative.toBitVec.toNat = 1 := rfl
    have hmod : x.toBits.toNat % 2 ^ 63 = n := by omega
    rw [rank, if_pos (by omega), hmod]
    rfl
  | positive =>
    have hzero : Sign.positive.toBitVec.toNat = 0 := rfl
    have hmod : x.toBits.toNat % 2 ^ 63 = n := by omega
    rw [rank, if_neg (by omega), hmod]
    rfl

theorem Bounded.ranked {x : Float} (h : Bounded x) : Ranked x.toModel.unpack (rank x) := by
  obtain ⟨s, e, m, hlast, hbits, hnat⟩ := h.exists_components
  have he := e.isLt
  have hm := m.isLt
  have hlast' : e.toNat ≠ 2047 := fun h => hlast (BitVec.eq_of_toNat_eq h)
  have hbias : ((Format.binary64.exponentBias : Nat) : Int) = 1023 := rfl
  rw [Nat.add_assoc] at hnat
  rw [rank_eq hnat (by omega)]
  show Ranked (unpack Format.binary64 x.toBits.toBitVec) _
  rw [hbits, unpack]
  simp only [unpackMantissa_packComponents, unpackExponent_packComponents, unpackSign_packComponents,
    Sign.ofBitVec_toBitVec]
  rw [if_neg hlast]
  split
  · rename_i hzero
    have hzero' : e.toNat = 0 := congrArg BitVec.toNat hzero
    split
    · rename_i hfraction
      have hfraction' : m.toNat = 0 := congrArg BitVec.toNat hfraction
      rw [hzero', hfraction']
      cases s <;> exact .zero _
    · refine .finite (k := 0) s _ (by omega) (by omega) ?_ (.inl rfl) (by omega)
      rw [hzero', hbias]
      rfl
  · rename_i hzero
    have hzero' : e.toNat ≠ 0 := fun h => hzero (BitVec.eq_of_toNat_eq h)
    have hsignificand : (1#1 ++ m).toNat = m.toNat + 2 ^ 52 := by
      rw [BitVec.toNat_append, ← Nat.shiftLeft_add_eq_or_of_lt m.isLt, Nat.shiftLeft_eq, Nat.add_comm]
      rfl
    refine .finite (k := e.toNat - 1) s _ ?_ (by omega) ?_ (.inr ?_) ?_
    · show (1#1 ++ m).toNat < _
      omega
    · rw [hbias]
      show (e.toNat : Int) - (1023 + 52) = _
      omega
    · show _ ≤ (1#1 ++ m).toNat
      omega
    · show _ = (1#1 ++ m).toNat + _
      omega

theorem ranked_of_ne {x : Float} (hx : x ≠ notANumber) : Ranked x.toModel.unpack (rank x) := by
  cases h : Binary64.ofFloat? x with
  | some v => exact (Binary64.ofFloat?_eq_some h).1.ranked
  | none =>
    rcases Binary64.ofFloat?_eq_none h with rfl | rfl | rfl
    · exact .infinity .positive
    · exact .infinity .negative
    · exact absurd rfl hx

/-- Magnitudes are in the order of their exponents first and their significands second. -/
theorem then_compare_eq_cmp {m₁ k₁ n₁ m₂ k₂ n₂ : Nat} {e₁ e₂ : Int}
    (hm₁ : m₁ < 2 ^ 53) (he₁ : e₁ = k₁ - 1074) (hlead₁ : k₁ = 0 ∨ 2 ^ 52 ≤ m₁)
    (hn₁ : n₁ = m₁ + k₁ * 2 ^ 52)
    (hm₂ : m₂ < 2 ^ 53) (he₂ : e₂ = k₂ - 1074) (hlead₂ : k₂ = 0 ∨ 2 ^ 52 ≤ m₂)
    (hn₂ : n₂ = m₂ + k₂ * 2 ^ 52) :
    (compare e₁ e₂).then (compare m₁ m₂) = cmp n₁ n₂ := by
  rcases lt_trichotomy k₁ k₂ with hk | rfl | hk
  · have he : compare e₁ e₂ = .lt := compare_lt_iff_lt.2 (by omega)
    rw [he, (cmp_eq_lt_iff _ _).2 (by omega)]
    rfl
  · have he : compare e₁ e₂ = .eq := compare_eq_iff_eq.2 (by omega)
    rw [he]
    rcases lt_trichotomy m₁ m₂ with hm | rfl | hm
    · rw [(cmp_eq_lt_iff _ _).2 (by omega)]
      exact compare_lt_iff_lt.2 hm
    · rw [(cmp_eq_eq_iff _ _).2 (by omega)]
      exact compare_eq_iff_eq.2 rfl
    · rw [(cmp_eq_gt_iff _ _).2 (by omega)]
      exact compare_gt_iff_gt.2 hm
  · have he : compare e₁ e₂ = .gt := compare_gt_iff_gt.2 (by omega)
    rw [he, (cmp_eq_gt_iff _ _).2 (by omega)]
    rfl

theorem cmp_apply (s : Sign) (m n : Nat) :
    cmp (s.apply m) (s.apply n) = match s with | .negative => (cmp m n).swap | .positive => cmp m n := by
  cases s with
  | negative =>
    have hanti : StrictAnti fun n : Nat => -(n : Int) := fun _ _ h => neg_lt_neg (Nat.cast_lt.2 h)
    show cmp (-(m : Int)) (-(n : Int)) = (cmp m n).swap
    rw [cmp_swap]
    exact hanti.cmp_map_eq m n
  | positive => exact Nat.strictMono_cast.cmp_map_eq m n

theorem some_lt_eq_cmp {r q : Int} (h : r < q) : some Ordering.lt = some (cmp r q) :=
  congrArg some ((cmp_eq_lt_iff _ _).2 h).symm

theorem some_gt_eq_cmp {r q : Int} (h : q < r) : some Ordering.gt = some (cmp r q) :=
  congrArg some ((cmp_eq_gt_iff _ _).2 h).symm

/-- **What is unpacked is compared by its place.** -/
theorem Ranked.compare_eq {u v : Float.Model.UnpackedFloat} {r q : Int} (hu : Ranked u r) (hv : Ranked v q) :
    u.compare v = some (cmp r q) := by
  have happly : ∀ (s : Sign) (n : Nat), -n ≤ s.apply n ∧ s.apply n ≤ n := by
    intro s n
    cases s <;> simp only [Sign.apply] <;> omega
  have hpositive : ∀ n : Int, Sign.positive.apply n = n := fun _ => rfl
  have hnegative : ∀ n : Int, Sign.negative.apply n = -n := fun _ => rfl
  cases hu with
  | infinity s =>
    cases hv with
    | infinity s' => cases s <;> cases s' <;> rfl
    | zero s' => cases s <;> rfl
    | @finite s' m k n e hm hlt hk he hlead hn =>
      obtain ⟨hlow, hhigh⟩ := happly s' n
      cases s with
      | negative => exact some_lt_eq_cmp (by rw [hnegative]; omega)
      | positive => exact some_gt_eq_cmp (by rw [hpositive]; omega)
  | zero s =>
    cases hv with
    | infinity s' => cases s' <;> rfl
    | zero s' => rfl
    | finite s' hm hlt hk he hlead hn =>
      cases s' with
      | negative => exact some_gt_eq_cmp (by rw [hnegative]; omega)
      | positive => exact some_lt_eq_cmp (by rw [hpositive]; omega)
  | @finite s m k n e hm hlt hk he hlead hn =>
    cases hv with
    | infinity s' =>
      obtain ⟨hlow, hhigh⟩ := happly s n
      cases s' with
      | negative => cases s <;> exact some_gt_eq_cmp (by rw [hnegative (2047 * 2 ^ 52)]; omega)
      | positive => cases s <;> exact some_lt_eq_cmp (by rw [hpositive (2047 * 2 ^ 52)]; omega)
    | zero s' =>
      cases s with
      | negative => exact some_lt_eq_cmp (by rw [hnegative]; omega)
      | positive => exact some_gt_eq_cmp (by rw [hpositive]; omega)
    | @finite s' m' k' n' e' hm' hlt' hk' he' hlead' hn' =>
      have hcmp := then_compare_eq_cmp hlt he hlead hn hlt' he' hlead' hn'
      cases s with
      | negative =>
        cases s' with
        | negative =>
          rw [cmp_apply, ← hcmp]
          rfl
        | positive => exact some_lt_eq_cmp (by rw [hnegative, hpositive]; omega)
      | positive =>
        cases s' with
        | negative => exact some_gt_eq_cmp (by rw [hnegative, hpositive]; omega)
        | positive =>
          rw [cmp_apply, ← hcmp]
          rfl

/-! ## Comparing floats -/

theorem lt_iff_compare {x y : Float} : x < y ↔ x.toModel.unpack.compare y.toModel.unpack = some .lt := by
  show x.lt y = true ↔ _
  unfold Float.lt
  rw [decide_eq_true_iff]
  exact beq_iff_eq

theorem beq_iff_compare {x y : Float} : (x == y) = true ↔ x.toModel.unpack.compare y.toModel.unpack = some .eq := by
  show (x.toModel.unpack.compare y.toModel.unpack == some .eq) = true ↔ _
  exact beq_iff_eq

theorem beq_iff_rank {x y : Float} (hx : x ≠ notANumber) (hy : y ≠ notANumber) :
    (x == y) = true ↔ rank x = rank y := by
  rw [beq_iff_compare, (ranked_of_ne hx).compare_eq (ranked_of_ne hy), Option.some_inj, cmp_eq_eq_iff]

/-- **Floats are compared by their places.** -/
theorem compareFloats_eq {x y : Float} (hx : x ≠ notANumber) (hy : y ≠ notANumber) :
    Number.compareFloats x y = some (cmp (rank x) (rank y)) := by
  have hcompare := (ranked_of_ne hx).compare_eq (ranked_of_ne hy)
  have hback := (ranked_of_ne hy).compare_eq (ranked_of_ne hx)
  unfold Number.compareFloats
  simp only [lt_iff_compare, beq_iff_compare, hcompare, hback]
  rw [← cmp_swap (rank x) (rank y)]
  cases cmp (rank x) (rank y) <;> rfl

/-! ## Floats from bits -/

/-- Bits of a magnitude up to infinity are kept. -/
theorem toBits_ofBits {b : Nat} (h : b ≤ 2047 * 2 ^ 52) : (Float.ofBits (.ofNat b)).toBits.toNat = b := by
  have hbits : (UInt64.ofNat b).toNat = b := UInt64.toNat_ofNat_of_lt' (h.trans_lt (by decide))
  have hx := (@packComponents_unpackSign_unpackExponent_unpackMantissa Format.binary64 (UInt64.ofNat b).toBitVec)
  show ((unpack Format.binary64 (UInt64.ofNat b).toBitVec).pack Format.binary64).toNat = b
  rw [pack_unpack, if_neg]
  · exact hbits
  · intro hnan
    rw [isNaNBits, decide_eq_true_eq] at hnan
    obtain ⟨hlast, hfraction⟩ := hnan
    have hnat := congrArg BitVec.toNat hx
    rw [toNat_packComponents, hlast, UInt64.toNat_toBitVec, hbits] at hnat
    have hones : (-1#11).toNat = 2047 := rfl
    refine hfraction (BitVec.eq_of_toNat_eq ?_)
    show _ = 0
    change _ * _ + (-1#11).toNat * _ + _ = b at hnat
    omega

/-! ## Rounded values -/

theorem nearestBits_le (n d : Nat) : Binary64.nearestBits n d ≤ 2047 * 2 ^ 52 := Nat.min_le_right _ _

theorem toBits_nearest (n d : Nat) :
    (Binary64.nearest n d).toBits.toNat = if n = 0 then 0 else Binary64.nearestBits n d := by
  unfold Binary64.nearest
  split
  · rfl
  · exact toBits_ofBits (nearestBits_le n d)

theorem toBits_nearest_le (n d : Nat) : (Binary64.nearest n d).toBits.toNat ≤ 2047 * 2 ^ 52 := by
  rw [toBits_nearest]
  split
  · exact Nat.zero_le _
  · exact nearestBits_le n d

theorem rank_of_toBits_le {x : Float} (h : x.toBits.toNat ≤ 2047 * 2 ^ 52) : rank x = x.toBits.toNat := by
  rw [rank, if_neg (by omega), Nat.mod_eq_of_lt (by omega)]

theorem ne_of_toBits_le {x : Float} (h : x.toBits.toNat ≤ 2047 * 2 ^ 52) : x ≠ notANumber := by
  rintro rfl
  exact absurd h (by decide)

theorem rank_neg {x : Float} (hx : x ≠ notANumber) : rank (-x) = -rank x := by
  cases h : Binary64.ofFloat? x with
  | some v =>
    have hbits := toBits_neg (Binary64.ofFloat?_eq_some h).1
    have hlt := x.toBits.toNat_lt
    unfold rank
    split_ifs <;> omega
  | none =>
    rcases Binary64.ofFloat?_eq_none h with rfl | rfl | rfl
    · decide
    · decide
    · exact absurd rfl hx

theorem neg_ne {x : Float} (hx : x ≠ notANumber) : -x ≠ notANumber := by
  cases h : Binary64.ofFloat? x with
  | some v =>
    intro hneg
    have hbounded : _ ≠ _ := (Binary64.ofFloat?_eq_some h).1
    have hbits := toBits_neg (Binary64.ofFloat?_eq_some h).1
    have hnan : notANumber.toBits.toNat = 2047 * 2 ^ 52 + 2 ^ 51 := rfl
    rw [hneg, hnan] at hbits
    omega
  | none =>
    rcases Binary64.ofFloat?_eq_none h with rfl | rfl | rfl
    · decide
    · decide
    · exact absurd rfl hx

/-- The place of the float nearest to a rational number. -/
def rankNear (q : ℚ) : Int :=
  let rounded := rank (Binary64.nearest q.num.natAbs q.den)
  if q < 0 then -rounded else rounded

theorem abs_eq_quotient (q : ℚ) : |q| = q.num.natAbs / q.den := by
  rw [Nat.cast_natAbs, Int.cast_abs]
  conv_lhs => rw [← Rat.num_div_den q, abs_div, Nat.abs_cast]

theorem rankNear_eq {q : ℚ} {n d : Nat} (hd : 0 < d) (h : |q| = n / d) :
    rankNear q = if q < 0 then -rank (Binary64.nearest n d) else rank (Binary64.nearest n d) := by
  rw [abs_eq_quotient, div_eq_div_iff (by positivity) (by positivity)] at h
  rw [rankNear, Binary64.nearest_congr q.pos hd (by exact_mod_cast h)]

theorem rank_nearest_mono {n d n' d' : Nat} (hd : 0 < d) (hd' : 0 < d') (h : n * d' ≤ n' * d) :
    rank (Binary64.nearest n d) ≤ rank (Binary64.nearest n' d') := by
  rw [rank_of_toBits_le (toBits_nearest_le n d), rank_of_toBits_le (toBits_nearest_le n' d'), toBits_nearest,
    toBits_nearest]
  rcases Nat.eq_zero_or_pos n with rfl | hn
  · rw [if_pos rfl]
    exact_mod_cast Nat.zero_le _
  · have hn' : 0 < n' := Nat.pos_of_mul_pos_right ((Nat.mul_pos hn hd').trans_le h)
    rw [if_neg hn.ne', if_neg hn'.ne']
    exact_mod_cast Binary64.nearestBits_mono hn hd hd' h

theorem rank_nearest_nonneg (n d : Nat) : 0 ≤ rank (Binary64.nearest n d) := by
  rw [rank_of_toBits_le (toBits_nearest_le n d)]
  exact Int.natCast_nonneg _

/-- **Rounding keeps the order.** -/
theorem rankNear_mono : Monotone rankNear := by
  intro p q h
  have hmono : ∀ {p q : ℚ}, |p| ≤ |q| →
      rank (Binary64.nearest p.num.natAbs p.den) ≤ rank (Binary64.nearest q.num.natAbs q.den) := by
    intro p q h
    refine rank_nearest_mono p.pos q.pos ?_
    rw [abs_eq_quotient p, abs_eq_quotient q, div_le_div_iff₀ (by positivity) (by positivity)] at h
    exact_mod_cast h
  rcases lt_or_ge p 0 with hp | hp <;> rcases lt_or_ge q 0 with hq | hq
  · rw [rankNear, rankNear, if_pos hp, if_pos hq]
    refine neg_le_neg (hmono ?_)
    rw [abs_of_neg hp, abs_of_neg hq]
    exact neg_le_neg h
  · rw [rankNear, rankNear, if_pos hp, if_neg hq.not_gt]
    exact (neg_nonpos.2 (rank_nearest_nonneg _ _)).trans (rank_nearest_nonneg _ _)
  · exact absurd (hp.trans h) hq.not_ge
  · rw [rankNear, rankNear, if_neg hp.not_gt, if_neg hq.not_gt]
    refine hmono ?_
    rwa [abs_of_nonneg hp, abs_of_nonneg hq]

theorem rankNear_bounds (q : ℚ) : -(2047 * 2 ^ 52) ≤ rankNear q ∧ rankNear q ≤ 2047 * 2 ^ 52 := by
  have hnonneg := rank_nearest_nonneg q.num.natAbs q.den
  have hle : rank (Binary64.nearest q.num.natAbs q.den) ≤ 2047 * 2 ^ 52 := by
    rw [rank_of_toBits_le (toBits_nearest_le _ _)]
    exact_mod_cast toBits_nearest_le _ _
  unfold rankNear
  dsimp only
  split <;> omega

/-- An integer is compared as the float that it is rounded to. -/
theorem rank_nearestInt (i : Int) : rank (Binary64.nearestInt i) = rankNear i := by
  have hi : |(i : ℚ)| = i.natAbs / (1 : Nat) := by rw [Nat.cast_one, div_one, Nat.cast_natAbs, Int.cast_abs]
  rw [rankNear_eq Nat.one_pos hi, Binary64.nearestInt]
  simp only [Int.cast_lt_zero]
  split
  · exact rank_neg (ne_of_toBits_le (toBits_nearest_le _ _))
  · rfl

theorem nearestInt_ne (i : Int) : Binary64.nearestInt i ≠ notANumber := by
  unfold Binary64.nearestInt
  split
  · exact neg_ne (ne_of_toBits_le (toBits_nearest_le _ _))
  · exact ne_of_toBits_le (toBits_nearest_le _ _)

end FloatBits

namespace Binary64

/-- The rational number that a value is. -/
def value (v : Binary64) : ℚ := v.signed v.significand * 2 ^ v.exponent

theorem rank_of_value {x : Float} {v : Binary64} (h : ofFloat? x = some v) :
    FloatBits.rank x = v.signed v.magnitudeBits := by
  obtain ⟨-, -, hbits, hnegative⟩ := ofFloat?_eq_some h
  rw [FloatBits.rank, signed, hbits]
  simp only [hnegative]

theorem abs_value (v : Binary64) : |v.value| = v.numerator / v.denominator := by
  have habs : |(v.signed v.significand : ℚ)| = v.significand := by
    unfold signed
    split <;> simp
  rw [quotient_eq, value, abs_mul, habs, abs_of_pos (zpow_pos two_pos _ : (0 : ℚ) < 2 ^ v.exponent)]

theorem Canonical.magnitudeBits_of_zero {v : Binary64} (h : v.Canonical) (hs : v.significand = 0) :
    v.magnitudeBits = 0 := by
  have he : v.exponent = -1074 := h.leading.resolve_right (by omega)
  rw [magnitudeBits, hs, he]
  rfl

theorem value_of_zero {v : Binary64} (hs : v.significand = 0) : v.value = 0 := by
  rw [value, hs, signed, Nat.cast_zero, neg_zero, ite_self, Int.cast_zero, zero_mul]

theorem value_neg_iff {v : Binary64} (hs : v.significand ≠ 0) : v.value < 0 ↔ v.negative = true := by
  have hunit : (0 : ℚ) < 2 ^ v.exponent := zpow_pos two_pos _
  rw [value, ← zero_mul (2 ^ v.exponent), mul_lt_mul_iff_left₀ hunit, Int.cast_lt_zero, signed]
  split <;> rename_i hnegative
  · exact iff_of_true (by omega) hnegative
  · exact iff_of_false (by omega) hnegative

/-- **The place of a float is the one of its value.** -/
theorem Canonical.rankNear_value {v : Binary64} (h : v.Canonical) :
    FloatBits.rankNear v.value = v.signed v.magnitudeBits := by
  rw [FloatBits.rankNear_eq v.denominator_pos v.abs_value,
    FloatBits.rank_of_toBits_le (FloatBits.toBits_nearest_le _ _),
    FloatBits.toBits_nearest]
  by_cases hs : v.significand = 0
  · have hn : v.numerator = 0 := by rw [numerator, hs, Nat.zero_mul]
    rw [if_pos hn, value_of_zero hs, if_neg (lt_irrefl _), h.magnitudeBits_of_zero hs, signed, Nat.cast_zero, neg_zero,
      ite_self]
  · rw [if_neg (numerator_pos hs).ne', h.nearestBits_eq hs, signed]
    simp only [value_neg_iff hs]

/-- No two values share a place. -/
theorem Canonical.value_eq {v w : Binary64} (hv : v.Canonical) (hw : w.Canonical)
    (h : v.signed v.magnitudeBits = w.signed w.magnitudeBits) : v.value = w.value := by
  have hmagnitude : v.magnitudeBits = w.magnitudeBits := by
    unfold signed at h
    split_ifs at h <;> omega
  by_cases hs : v.significand = 0
  · have hs' : w.significand = 0 := by
      have hzero := hv.magnitudeBits_of_zero hs
      unfold magnitudeBits at hmagnitude hzero
      omega
    rw [value_of_zero hs, value_of_zero hs']
  · obtain ⟨hlt, hge, -, hlead⟩ := hv
    obtain ⟨hlt', hge', -, hlead'⟩ := hw
    have hpos : v.magnitudeBits ≠ 0 := by
      unfold magnitudeBits
      omega
    have hnegative : v.negative = w.negative := by
      unfold signed at h
      split_ifs at h with hv hw hw
      · rw [hv, hw]
      · omega
      · omega
      · rw [Bool.eq_false_of_not_eq_true hv, Bool.eq_false_of_not_eq_true hw]
    have hexponent : v.exponent = w.exponent := by
      unfold magnitudeBits at hmagnitude
      omega
    have hsignificand : v.significand = w.significand := by
      unfold magnitudeBits at hmagnitude
      rw [hexponent] at hmagnitude
      omega
    rw [value, value, signed, signed, hnegative, hexponent, hsignificand]

theorem Canonical.magnitudeBits_lt {v : Binary64} (h : v.Canonical) : v.magnitudeBits < 2047 * 2 ^ 52 := by
  have hlt := h.significand_lt
  have hle := h.exponent_le
  unfold magnitudeBits
  omega

theorem Canonical.rankNear_bounds {v : Binary64} (h : v.Canonical) :
    -(2047 * 2 ^ 52) < FloatBits.rankNear v.value ∧ FloatBits.rankNear v.value < 2047 * 2 ^ 52 := by
  have hlt := h.magnitudeBits_lt
  rw [h.rankNear_value, signed]
  split <;> omega

/-- A whole number of at most 53 bits is moved up until it has 53. -/
theorem exists_shift {n : Nat} (hn : 0 < n) (h : n < 2 ^ 53) :
    ∃ k ≤ 52, 2 ^ 52 ≤ n * 2 ^ k ∧ n * 2 ^ k < 2 ^ 53 := by
  have hlog : n.log2 < 53 := (Nat.log2_lt hn.ne').2 h
  have hlow : 2 ^ n.log2 ≤ n := Nat.log2_self_le hn.ne'
  have hhigh : n < 2 ^ (n.log2 + 1) := Nat.lt_log2_self
  refine ⟨52 - n.log2, by omega, ?_, ?_⟩
  · calc 2 ^ 52 = 2 ^ n.log2 * 2 ^ (52 - n.log2) := by rw [← pow_add, Nat.add_sub_cancel' (by omega)]
      _ ≤ n * 2 ^ (52 - n.log2) := Nat.mul_le_mul_right _ hlow
  · calc n * 2 ^ (52 - n.log2) < 2 ^ (n.log2 + 1) * 2 ^ (52 - n.log2) :=
      Nat.mul_lt_mul_of_pos_right hhigh (by positivity)
      _ = 2 ^ 53 := by rw [← pow_add]; congr 1; omega

theorem signed_mul (v : Binary64) (n k : Nat) : v.signed (n * k) = v.signed n * k := by
  unfold signed
  split
  · rw [Nat.cast_mul, neg_mul]
  · rw [Nat.cast_mul]

theorem exists_canonical {i : Int} (h : |i| ≤ 2 ^ 53) : ∃ v : Binary64, v.Canonical ∧ v.value = i := by
  rw [Int.abs_eq_natAbs] at h
  rcases Nat.eq_zero_or_pos i.natAbs with hzero | hpos
  · obtain rfl : i = 0 := by omega
    exact ⟨⟨false, 0, -1074⟩, ⟨by decide, by decide, by decide, .inl rfl⟩, value_of_zero rfl⟩
  by_cases hlt : i.natAbs < 2 ^ 53
  · obtain ⟨k, hk, hlow, hhigh⟩ := exists_shift hpos hlt
    have hsigned : (⟨decide (i < 0), i.natAbs * 2 ^ k, -k⟩ : Binary64).signed i.natAbs = i := by
      simp only [signed, decide_eq_true_eq]
      split <;> omega
    refine ⟨⟨decide (i < 0), i.natAbs * 2 ^ k, -k⟩, ⟨hhigh, ?_, ?_, .inr hlow⟩, ?_⟩
    · show (-1074 : Int) ≤ -k
      omega
    · show (-k : Int) ≤ 971
      omega
    · rw [value, signed_mul, hsigned, zpow_neg, zpow_natCast, Int.cast_mul, Int.cast_natCast, Nat.cast_pow,
        Nat.cast_ofNat, mul_inv_cancel_right₀ (by positivity)]
  · obtain rfl | rfl : i = 2 ^ 53 ∨ i = -2 ^ 53 := by omega
    · exact ⟨⟨false, 2 ^ 52, 1⟩, ⟨by decide, by decide, by decide, .inr le_rfl⟩,
        by norm_num [value, signed]⟩
    · exact ⟨⟨true, 2 ^ 52, 1⟩, ⟨by decide, by decide, by decide, .inr le_rfl⟩,
        by norm_num [value, signed]⟩

end Binary64

namespace FloatBits

/-! ## Values and infinities -/

/-- What a float denotes: a rational number or an infinity. -/
def value? (x : Float) : Option (WithBot (WithTop ℚ)) :=
  match Binary64.ofFloat? x with
  | some v => some (v.value : WithTop ℚ)
  | none => if x = infinity then some ⊤ else if x = -infinity then some ⊥ else none

/-- The place of the float nearest to what is denoted. -/
def place : WithBot (WithTop ℚ) → Int
  | ⊥ => -(2047 * 2 ^ 52)
  | ⊤ => 2047 * 2 ^ 52
  | ((q : ℚ) : WithTop ℚ) => rankNear q

theorem place_mono : Monotone place := by
  rw [WithBot.monotone_iff, WithTop.monotone_iff]
  refine ⟨⟨rankNear_mono, fun q => (rankNear_bounds q).2⟩, fun x => ?_⟩
  induction x with
  | top => decide
  | coe q => exact (rankNear_bounds q).1

/-- **What floats denote**: the infinities and the rational numbers that are a canonical value. -/
inductive Denoted : WithBot (WithTop ℚ) → Prop
  | bot : Denoted ⊥
  | top : Denoted ⊤
  | value {v : Binary64} (h : v.Canonical) : Denoted (v.value : WithTop ℚ)

/-- All floats denote something but NaN. -/
theorem exists_value {x : Float} (hx : x ≠ notANumber) : ∃ e, value? x = some e := by
  unfold value?
  cases h : Binary64.ofFloat? x with
  | some v => exact ⟨_, rfl⟩
  | none =>
    rcases Binary64.ofFloat?_eq_none h with rfl | rfl | rfl
    · exact ⟨⊤, rfl⟩
    · exact ⟨⊥, rfl⟩
    · exact absurd rfl hx

/-- **The place of a float is that of what it denotes.** -/
theorem denoted_of_value {x : Float} {e : WithBot (WithTop ℚ)} (h : value? x = some e) :
    x ≠ notANumber ∧ Denoted e ∧ rank x = place e := by
  have hne : x ≠ notANumber := by
    rintro rfl
    have hnone : value? notANumber = none := by decide
    rw [hnone] at h
    cases h
  refine ⟨hne, ?_⟩
  unfold value? at h
  cases hx : Binary64.ofFloat? x with
  | some v =>
    rw [hx] at h
    cases h
    have hcanonical := (Binary64.ofFloat?_eq_some hx).2.1
    exact ⟨.value hcanonical, (Binary64.rank_of_value hx).trans hcanonical.rankNear_value.symm⟩
  | none =>
    rw [hx] at h
    rcases Binary64.ofFloat?_eq_none hx with rfl | rfl | rfl
    · cases h
      exact ⟨.top, rfl⟩
    · cases h
      exact ⟨.bot, rfl⟩
    · exact absurd rfl hne

/-- **No two floats that denote something else share a place.** -/
theorem Denoted.eq_of_place_eq {e f : WithBot (WithTop ℚ)} (he : Denoted e) (hf : Denoted f) (h : place e = place f) :
    e = f := by
  have htop : place ⊤ = 2047 * 2 ^ 52 := rfl
  have hbot : place ⊥ = -(2047 * 2 ^ 52) := rfl
  have hvalue : ∀ q : ℚ, place ((q : WithTop ℚ) : WithBot (WithTop ℚ)) = rankNear q := fun _ => rfl
  cases he with
  | bot =>
    cases hf with
    | bot => rfl
    | top => omega
    | value hw =>
      have hbounds := hw.rankNear_bounds
      rw [hvalue] at h
      omega
  | top =>
    cases hf with
    | bot => omega
    | top => rfl
    | value hw =>
      have hbounds := hw.rankNear_bounds
      rw [hvalue] at h
      omega
  | value hv =>
    have hbounds := hv.rankNear_bounds
    rw [hvalue] at h
    cases hf with
    | bot => omega
    | top => omega
    | value hw =>
      rw [hvalue, hv.rankNear_value, hw.rankNear_value] at h
      rw [hv.value_eq hw h]

/-- **The integers up to `2 ^ 53` are denoted by floats.** -/
theorem denoted_int {i : Int} (h : |i| ≤ 2 ^ 53) : Denoted ((i : ℚ) : WithTop ℚ) := by
  obtain ⟨v, hv, hvalue⟩ := Binary64.exists_canonical h
  rw [← hvalue]
  exact .value hv

end FloatBits
end LazyFormula
