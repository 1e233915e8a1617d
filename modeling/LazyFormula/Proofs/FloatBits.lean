import LazyFormula.Binary64
import Mathlib
/-!
# Bits of floats

The 64 bits of a float are a sign, an exponent field and a fraction, and a float is nothing but its bits: of NaN there
is one. A sign change and a magnitude only touch the sign bit, so a finite float is its magnitude with its sign
(`FloatBits.signed_abs`). What the fields say is the exact value of the float, a whole number of units, and the bits of
the magnitude are that value again (`Binary64.ofFloat?_eq_some`); the three floats without a value are the infinities
and NaN (`Binary64.ofFloat?_eq_none`).
-/
namespace LazyFormula

namespace FloatBits

open Float.Model (Format)
open Float.Model.UnpackedFloat

/-! ## Fields -/

theorem toNat_packComponents (s : Sign) (e : BitVec 11) (m : BitVec 52) :
    (packComponents Format.binary64 s e m).toNat = s.toBitVec.toNat * 2 ^ 63 + e.toNat * 2 ^ 52 + m.toNat := by
  show (s.toBitVec ++ e ++ m).toNat = _
  rw [BitVec.toNat_append, ← Nat.shiftLeft_add_eq_or_of_lt m.isLt, BitVec.toNat_append,
    ← Nat.shiftLeft_add_eq_or_of_lt e.isLt, Nat.shiftLeft_eq, Nat.shiftLeft_eq]
  ring

/-- Taking the magnitude clears the sign. -/
theorem abs_unpack {spec : Format} (s : Sign) (e : BitVec spec.exponentBits)
    (m : BitVec spec.mantissaBitsWithoutImplicit) :
    (unpack spec (packComponents spec s e m)).abs = unpack spec (packComponents spec .positive e m) := by
  simp only [unpack, unpackMantissa_packComponents, unpackExponent_packComponents, unpackSign_packComponents,
    Sign.ofBitVec_toBitVec]
  split_ifs <;> rfl

/-- Negation flips the sign. -/
theorem neg_unpack {spec : Format} (s : Sign) (e : BitVec spec.exponentBits)
    (m : BitVec spec.mantissaBitsWithoutImplicit) :
    (unpack spec (packComponents spec s e m)).neg = unpack spec (packComponents spec (-s) e m) := by
  simp only [unpack, unpackMantissa_packComponents, unpackExponent_packComponents, unpackSign_packComponents,
    Sign.ofBitVec_toBitVec]
  split_ifs <;> rfl

/-- Bits that are neither infinite nor NaN are kept. -/
theorem pack_unpack_components {s : Sign} {e : BitVec 11} (he : e ≠ -1#11) (m : BitVec 52) :
    (unpack Format.binary64 (packComponents Format.binary64 s e m)).pack Format.binary64 =
      packComponents Format.binary64 s e m := by
  rw [pack_unpack, if_neg]
  intro h
  rw [isNaNBits, unpackExponent_packComponents, decide_eq_true_eq] at h
  exact he h.1

theorem exists_components (x : Float) : ∃ (s : Sign) (e : BitVec 11) (m : BitVec 52),
    x.toBits.toBitVec = packComponents Format.binary64 s e m ∧
      x.toBits.toNat = s.toBitVec.toNat * 2 ^ 63 + e.toNat * 2 ^ 52 + m.toNat := by
  have hx := (@packComponents_unpackSign_unpackExponent_unpackMantissa Format.binary64 x.toBits.toBitVec).symm
  have hbits := congrArg BitVec.toNat hx
  rw [toNat_packComponents, UInt64.toNat_toBitVec] at hbits
  exact ⟨_, _, _, hx, hbits⟩

/-! ## Finite floats -/

/-- **A float that has a value**: its exponent field is not the last one. -/
def Bounded (x : Float) : Prop := x.toBits.toNat / 2 ^ 52 % 2 ^ 11 ≠ 2047

theorem Bounded.exists_components {x : Float} (h : Bounded x) : ∃ (s : Sign) (e : BitVec 11) (m : BitVec 52),
    e ≠ -1#11 ∧ x.toBits.toBitVec = packComponents Format.binary64 s e m ∧
      x.toBits.toNat = s.toBitVec.toNat * 2 ^ 63 + e.toNat * 2 ^ 52 + m.toNat := by
  obtain ⟨s, e, m, hx, hbits⟩ := FloatBits.exists_components x
  refine ⟨s, e, m, ?_, hx, hbits⟩
  rintro rfl
  have hlast : (-1#11).toNat = 2047 := rfl
  have hm := m.isLt
  apply h
  rw [hbits, hlast]
  omega

theorem toBits_abs {x : Float} (h : Bounded x) : x.abs.toBits.toNat = x.toBits.toNat % 2 ^ 63 := by
  obtain ⟨s, e, m, he, hx, hbits⟩ := h.exists_components
  have habs : x.abs.toBits.toBitVec = packComponents Format.binary64 .positive e m := by
    show ((unpack Format.binary64 x.toBits.toBitVec).abs).pack Format.binary64 = _
    rw [hx, abs_unpack, pack_unpack_components he]
  have hsign : Sign.positive.toBitVec.toNat = 0 := rfl
  have hlt := e.isLt
  have hm := m.isLt
  rw [← UInt64.toNat_toBitVec, habs, hbits, toNat_packComponents, hsign]
  omega

theorem toBits_neg {x : Float} (h : Bounded x) : (-x).toBits.toNat = (x.toBits.toNat + 2 ^ 63) % 2 ^ 64 := by
  obtain ⟨s, e, m, he, hx, hbits⟩ := h.exists_components
  have hneg : (-x).toBits.toBitVec = packComponents Format.binary64 (-s) e m := by
    show ((unpack Format.binary64 x.toBits.toBitVec).neg).pack Format.binary64 = _
    rw [hx, neg_unpack, pack_unpack_components he]
  have hsign : (-s).toBitVec.toNat = 1 - s.toBitVec.toNat ∧ s.toBitVec.toNat ≤ 1 := by cases s <;> decide
  have hlt := e.isLt
  have hm := m.isLt
  rw [← UInt64.toNat_toBitVec, hneg, hbits, toNat_packComponents]
  omega

theorem eq_of_toBits {x y : Float} (h : x.toBits.toNat = y.toBits.toNat) : x = y :=
  Float.toBits_inj.1 (UInt64.toNat_inj.1 h)

/-- **A finite float is its magnitude with its sign.** -/
theorem signed_abs {x : Float} (h : Bounded x) : (if 2 ^ 63 ≤ x.toBits.toNat then -x.abs else x.abs) = x := by
  have habs := toBits_abs h
  have hlt := x.toBits.toNat_lt
  have hbounded : Bounded x.abs := by
    unfold Bounded at h ⊢
    rw [habs]
    omega
  split
  · refine eq_of_toBits ?_
    rw [toBits_neg hbounded, habs]
    omega
  · refine eq_of_toBits ?_
    rw [habs]
    omega

/-! ## Some floats -/

theorem toBits_zero : (0.0 : Float).toBits.toNat = 0 := rfl

theorem toBits_infinity : infinity.toBits.toNat = 2047 * 2 ^ 52 := rfl

theorem toBits_neg_infinity : (-infinity).toBits.toNat = 2047 * 2 ^ 52 + 2 ^ 63 := rfl

theorem toBits_notANumber : notANumber.toBits.toBitVec = packedNaN Format.binary64 := rfl

end FloatBits

namespace Binary64

open FloatBits

/-! ## Exact values -/

/-- **A value as floats have it**: a significand of at most 53 bits, and of no fewer unless the exponent is the least
one. -/
structure Canonical (v : Binary64) : Prop where
  significand_lt : v.significand < 2 ^ 53
  exponent_ge : -1074 ≤ v.exponent
  exponent_le : v.exponent ≤ 971
  leading : v.exponent = -1074 ∨ 2 ^ 52 ≤ v.significand

/-- The bits of the magnitude of a value: all magnitudes are one ascending row. -/
def magnitudeBits (v : Binary64) : Nat := v.significand + (v.exponent + 1074).toNat * 2 ^ 52

theorem ofFloat?_eq_some {x : Float} {v : Binary64} (h : ofFloat? x = some v) :
    Bounded x ∧ v.Canonical ∧ x.toBits.toNat % 2 ^ 63 = v.magnitudeBits ∧
      (v.negative = true ↔ 2 ^ 63 ≤ x.toBits.toNat) := by
  have hlt := x.toBits.toNat_lt
  have hsign : (x.toBits.toNat / 2 ^ 63 == 1) = true ↔ 2 ^ 63 ≤ x.toBits.toNat := by
    rw [beq_iff_eq]
    omega
  unfold ofFloat? at h
  simp only [Nat.pow_eq] at h
  split at h
  · cases h
  rename_i hfield
  split at h
  · -- no leading bit is understood: the fraction is the significand
    cases h
    refine ⟨hfield, ⟨?_, le_rfl, ?_, .inl rfl⟩, ?_, hsign⟩
    · show _ % _ < _
      omega
    · show (-1074 : Int) ≤ 971
      decide
    · rw [magnitudeBits]
      dsimp only
      omega
  · cases h
    refine ⟨hfield, ⟨?_, ?_, ?_, .inr ?_⟩, ?_, hsign⟩
    · show _ % _ + _ < _
      omega
    · show (-1074 : Int) ≤ _ - _
      omega
    · show _ - _ ≤ (971 : Int)
      omega
    · show _ ≤ _ % _ + _
      omega
    · rw [magnitudeBits]
      dsimp only
      omega

open Float.Model (Format)
open Float.Model.UnpackedFloat

/-- **The floats without a value.** -/
theorem ofFloat?_eq_none {x : Float} (h : ofFloat? x = none) : x = infinity ∨ x = -infinity ∨ x = notANumber := by
  have hlt := x.toBits.toNat_lt
  have hfield : x.toBits.toNat / 2 ^ 52 % 2 ^ 11 = 2047 := by
    unfold ofFloat? at h
    simp only [Nat.pow_eq] at h
    split at h
    · assumption
    · split at h <;> cases h
  by_cases hfraction : x.toBits.toNat % 2 ^ 52 = 0
  · by_cases hsign : x.toBits.toNat < 2 ^ 63
    · refine .inl (eq_of_toBits ?_)
      rw [toBits_infinity]
      omega
    · refine .inr (.inl (eq_of_toBits ?_))
      rw [toBits_neg_infinity]
      omega
  · -- all bits of a NaN are known, as there is one
    refine .inr (.inr (Float.toBits_inj.1 (UInt64.toBitVec_inj.1 ?_)))
    rw [toBits_notANumber]
    obtain ⟨s, e, m, hx, hbits⟩ := exists_components x
    have he := e.isLt
    have hm := m.isLt
    refine x.toModel.valid.eq_packedNaN ?_ fun hzero => hfraction ?_
    · show @unpackExponent Format.binary64 x.toBits.toBitVec = _
      rw [hx, unpackExponent_packComponents]
      refine BitVec.eq_of_toNat_eq ?_
      show e.toNat = 2047
      omega
    · have hmantissa : m = 0#52 := by
        rw [← hzero]
        show m = @unpackMantissa Format.binary64 x.toBits.toBitVec
        rw [hx, unpackMantissa_packComponents]
      rw [hbits, hmantissa]
      show (_ + 0) % _ = 0
      omega

end Binary64
end LazyFormula
