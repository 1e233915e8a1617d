import LazyFormula.Primitive.Run
import Mathlib
/-!
# Integer arithmetic

Sums, differences, products and negations of 64 bit integers are integers exactly where the result fits. So are powers
with an exponent of 32 bits: repeated squaring refuses a product only where the power itself does not fit
(`squarings?_eq`). A greater exponent gives a float even for the powers of 0, 1 and -1, which always fit
(`arithmetic_integral`). The remainder is the one of the division that is rounded to the floor, and neither of its two
steps leaves the 64 bits (`remainder_floored`).
-/
namespace LazyFormula
namespace Number

/-! ## Exact results -/

/-- **What an exact result is kept as**: the integer if it fits, and some float if it does not. -/
def KeptIntegral (exact : Int) (n : Number) : Prop :=
  (Fits exact ∧ ∃ i : Int64, n = .int i ∧ i.toInt = exact) ∨ (¬ Fits exact ∧ ∃ x, n = .float x)

theorem KeptIntegral.of_fits {exact : Int} (h : Fits exact) : KeptIntegral exact (.int (.ofInt exact)) :=
  .inl ⟨h, _, rfl, toInt_ofInt_of_fits h⟩

theorem keptIntegral_ofExact (exact : Int) (x : Float) : KeptIntegral exact (ofExact exact x) := by
  unfold ofExact
  split
  · rename_i h
    exact .of_fits h
  · rename_i h
    exact .inr ⟨h, x, rfl⟩

theorem fits_iff {n : Int} : Fits n ↔ -2 ^ 63 ≤ n ∧ n < 2 ^ 63 := Iff.rfl

/-- A factor of a result that fits, where the other factor is positive. -/
theorem fits_of_fits_mul {n m : Int} (hm : 1 ≤ m) (h : Fits (n * m)) : Fits n := by
  rw [fits_iff] at h ⊢
  rcases le_or_gt 0 n with hn | hn
  · have hle : n ≤ n * m := le_mul_of_one_le_right hn hm
    omega
  · have hle : n * m ≤ n := by nlinarith
    omega

/-! ## Powers -/

/-- The bound of the negative integers is no square. -/
theorem mul_self_ne_two_pow (b : Int) : b * b ≠ 2 ^ 63 := by
  intro h
  have hlt : b.natAbs < 3037000500 := by
    by_contra hge
    have : 3037000500 * 3037000500 ≤ b.natAbs * b.natAbs := Nat.mul_le_mul (by omega) (by omega)
    have := Int.natAbs_mul_self (a := b)
    omega
  have : b.natAbs * b.natAbs ≤ 3037000499 * 3037000499 := Nat.mul_le_mul (by omega) (by omega)
  have := Int.natAbs_mul_self (a := b)
  omega

/-- A square fits if a multiple of it does, also the one that is the least integer. -/
theorem fits_mul_self_of_fits_mul {n b : Int} (hn : n ≠ 0) (h : Fits (n * (b * b))) : Fits (b * b) := by
  rw [fits_iff] at h ⊢
  have hsquare : 0 ≤ b * b := mul_self_nonneg b
  have hne := mul_self_ne_two_pow b
  rcases lt_or_gt_of_ne hn with hn | hn
  · have hle : n * (b * b) ≤ -(b * b) := by nlinarith
    omega
  · have hle : b * b ≤ n * (b * b) := le_mul_of_one_le_left hsquare hn
    omega

/-- The factor for the last binary digit of the exponent. -/
theorem product?_last_digit {base acc : Int} (hacc : Fits acc) (exponent : Nat) :
    (if exponent % 2 = 1 then product? acc base else some acc) =
      if Fits (acc * base ^ (exponent % 2)) then some (acc * base ^ (exponent % 2)) else none := by
  rcases Nat.mod_two_eq_zero_or_one exponent with h | h
  · rw [h, if_neg Nat.zero_ne_one, pow_zero, mul_one, if_pos hacc]
  · rw [h, if_pos rfl, pow_one, product?]

/-- **Repeated squaring refuses nothing that fits.** As long as neither factor has become zero by the other, what is
multiplied in later makes the magnitude no smaller. -/
theorem squarings?_eq : ∀ (steps : Nat) {base acc : Int} {exponent : Nat}, (acc ≠ 0 ∨ base = 0) → Fits acc →
    exponent < 2 ^ steps → squarings? steps base acc exponent =
      if Fits (acc * base ^ exponent) then some (acc * base ^ exponent) else none
  | 0, base, acc, exponent, _, hacc, hlt => by
    obtain rfl : exponent = 0 := by omega
    rw [pow_zero, mul_one, if_pos hacc, squarings?]
  | steps + 1, base, acc, exponent, hzero, hacc, hlt => by
    have hpower : acc * base ^ exponent = acc * base ^ (exponent % 2) * (base * base) ^ (exponent / 2) := by
      rw [mul_assoc, ← pow_two, ← pow_mul, ← pow_add, Nat.mod_add_div]
    rw [squarings?, product?_last_digit hacc, hpower]
    by_cases hhalf : exponent / 2 = 0
    · rw [hhalf, pow_zero, mul_one]
      split <;> rfl
    have hfits : base = 0 → Fits (acc * base ^ (exponent % 2)) := by
      rintro rfl
      rcases Nat.mod_two_eq_zero_or_one exponent with h | h <;> rw [h]
      · rwa [pow_zero, mul_one]
      · rw [pow_one, mul_zero]
        decide
    have hzero' : acc * base ^ (exponent % 2) ≠ 0 ∨ base = 0 :=
      (Decidable.em (base = 0)).symm.imp_left fun h => mul_ne_zero (hzero.resolve_right h) (pow_ne_zero _ h)
    generalize acc * base ^ (exponent % 2) = acc' at hfits hzero' ⊢
    by_cases hacc' : Fits acc'
    · rw [if_pos hacc', Option.bind_some, if_neg hhalf, product?]
      by_cases hsquare : Fits (base * base)
      · rw [if_pos hsquare]
        refine squarings?_eq steps (hzero'.imp_right fun h => ?_) hacc' (by omega)
        rw [h, mul_zero]
      · -- the rest of the power is a multiple of the square
        have hbase : base ≠ 0 := by
          rintro rfl
          exact hsquare (by decide)
        have hone : 1 ≤ (base * base) ^ (exponent / 2 - 1) :=
          one_le_pow₀ (Order.one_le_iff_pos.2 (mul_self_pos.2 hbase))
        rw [if_neg hsquare, ← Nat.sub_one_add_one hhalf, pow_succ', ← mul_assoc,
          if_neg fun h => hsquare (fits_mul_self_of_fits_mul (hzero'.resolve_right hbase) (fits_of_fits_mul hone h)),
          Option.bind_none]
    · have hbase : base ≠ 0 := fun h => hacc' (hfits h)
      have hone : 1 ≤ (base * base) ^ (exponent / 2) := one_le_pow₀ (Order.one_le_iff_pos.2 (mul_self_pos.2 hbase))
      rw [if_neg hacc', if_neg fun h => hacc' (fits_of_fits_mul hone h), Option.bind_none]

/-- **The power of an integer** for an exponent of 32 bits, if it fits. -/
theorem intPower?_eq (base : Int) {exponent : Nat} (h : exponent < 2 ^ 32) :
    intPower? base exponent = if Fits (base ^ exponent) then some (base ^ exponent) else none := by
  have hbound : ¬ Nat.pow 2 32 ≤ exponent := Nat.not_le.2 h
  rw [intPower?, if_neg hbound, squarings?_eq 32 (.inl one_ne_zero) (by decide) h, one_mul]

/-- Beyond 64, only the powers of 0, 1 and -1 fit. -/
theorem not_fits_pow {base : Int} (hbase : 1 < |base|) {exponent : Nat} (h : 64 ≤ exponent) :
    ¬ Fits (base ^ exponent) := by
  intro hfits
  have hle : (2 : Int) ^ 64 ≤ |base ^ exponent| := by
    rw [abs_pow]
    calc (2 : Int) ^ 64 ≤ 2 ^ exponent := pow_le_pow_right₀ (by decide) h
      _ ≤ |base| ^ exponent := pow_le_pow_left₀ (by decide) hbase exponent
  rw [fits_iff] at hfits
  rcases abs_cases (base ^ exponent) with ⟨h, -⟩ | ⟨h, -⟩ <;> omega

theorem fits_pow_of_abs_le_one {base : Int} (hbase : |base| ≤ 1) (exponent : Nat) : Fits (base ^ exponent) := by
  have hle : |base ^ exponent| ≤ 1 := by
    rw [abs_pow]
    exact pow_le_one₀ (abs_nonneg base) hbase
  rw [abs_le] at hle
  rw [fits_iff]
  omega

/-- **Powers are integers where they fit, up to exponents of 32 bits**; beyond these, where the base is not 0, 1 or -1,
as then none fits. -/
theorem keptIntegral_pow_iff {a b : Int64} (hb : 0 ≤ b) :
    KeptIntegral (a.toInt ^ b.toInt.toNat) (pow (.int a) (.int b)) ↔ b.toInt < 2 ^ 32 ∨ 1 < |a.toInt| := by
  have hnonneg : 0 ≤ b.toInt := Int64.le_iff_toInt_le.1 hb
  rw [pow, if_neg (Int64.not_lt.2 hb)]
  by_cases hsmall : b.toInt.toNat < 2 ^ 32
  · rw [intPower?_eq _ hsmall]
    refine iff_of_true ?_ (.inl (by omega))
    by_cases hfits : Fits (a.toInt ^ b.toInt.toNat)
    · rw [if_pos hfits]
      exact .of_fits hfits
    · rw [if_neg hfits]
      exact .inr ⟨hfits, _, rfl⟩
  · have hnone : intPower? a.toInt b.toInt.toNat = none := if_pos (Nat.not_lt.1 hsmall)
    rw [hnone]
    constructor
    · rintro (⟨-, i, hi, -⟩ | ⟨hfits, -⟩)
      · cases hi
      · exact .inr (not_le.1 fun h => hfits (fits_pow_of_abs_le_one h _))
    · rintro (h | h)
      · omega
      · exact .inr ⟨not_fits_pow h (by omega), _, rfl⟩

/-! ## Arithmetic -/

/-- **Integers stay integers where the result fits**, and become floats where it does not; powers do so up to exponents
of 32 bits. -/
theorem arithmetic_integral (a b : Int64) :
    KeptIntegral (a.toInt + b.toInt) (add (.int a) (.int b)) ∧
    KeptIntegral (a.toInt - b.toInt) (sub (.int a) (.int b)) ∧
    KeptIntegral (a.toInt * b.toInt) (mul (.int a) (.int b)) ∧
    KeptIntegral (-a.toInt) (negate (.int a)) ∧
    (0 ≤ b → (KeptIntegral (a.toInt ^ b.toInt.toNat) (pow (.int a) (.int b)) ↔
      b.toInt < 2 ^ 32 ∨ 1 < |a.toInt|)) :=
  ⟨keptIntegral_ofExact _ _, keptIntegral_ofExact _ _, keptIntegral_ofExact _ _, keptIntegral_ofExact _ _,
    keptIntegral_pow_iff⟩

/-- The power 1 of one to the exponent `2 ^ 32` fits, but is a float. -/
theorem power_of_one_is_float :
    ¬ KeptIntegral ((1 : Int64).toInt ^ (4294967296 : Int64).toInt.toNat) (pow (.int 1) (.int 4294967296)) := by
  rw [keptIntegral_pow_iff (by decide)]
  decide

/-! ## Remainders -/

/-- A floored remainder: the divisor divides what it leaves, and it is nearer to zero and on the same side. -/
structure Floored (a b r : Int) : Prop where
  dvd : b ∣ a - r
  small : |r| < |b|
  side : r = 0 ∨ (r < 0 ↔ b < 0)

/-- **There is one floored remainder**: the quotient is rounded to the floor. -/
theorem Floored.eq_sub {a b r : Int} (h : Floored a b r) : r = a - b * ⌊(a : ℚ) / b⌋ := by
  obtain ⟨k, hk⟩ := h.dvd
  have hb : b ≠ 0 := by
    rintro rfl
    exact absurd h.small (not_lt.2 (abs_nonneg r))
  have hbq : (b : ℚ) ≠ 0 := Int.cast_ne_zero.2 hb
  have hquotient : (a : ℚ) / b = k + r / b := by
    rw [eq_add_of_sub_eq hk, Int.cast_add, Int.cast_mul, add_div, mul_div_cancel_left₀ _ hbq]
  have hfraction : (r : ℚ) / b < 1 :=
    calc (r : ℚ) / b ≤ |(r : ℚ) / b| := le_abs_self _
      _ = (|r| : Int) / (|b| : Int) := by rw [abs_div, Int.cast_abs, Int.cast_abs]
      _ < 1 := (div_lt_one (Int.cast_pos.2 (abs_pos.2 hb))).2 (Int.cast_lt.2 h.small)
  have hnonneg : 0 ≤ (r : ℚ) / b := by
    rcases h.side with rfl | hside
    · rw [Int.cast_zero, zero_div]
    rcases lt_or_ge b 0 with hneg | hpos
    · exact div_nonneg_of_nonpos (Int.cast_nonpos.2 (hside.2 hneg).le) (Int.cast_nonpos.2 hneg.le)
    · exact div_nonneg (Int.cast_nonneg (not_lt.1 (mt hside.1 (not_lt.2 hpos)))) (Int.cast_nonneg hpos)
  have hfloor : ⌊(a : ℚ) / b⌋ = k := by
    rw [hquotient, Int.floor_intCast_add, Int.floor_eq_zero_iff.2 ⟨hnonneg, hfraction⟩, add_zero]
  rw [hfloor, ← hk, sub_sub_cancel]

theorem strays_iff {r b : Int64} : strays r b = true ↔ r.toInt ≠ 0 ∧ ¬ (r.toInt < 0 ↔ b.toInt < 0) := by
  have hzero : r = 0 ↔ r.toInt = 0 := Int64.toInt_inj.symm
  have hneg : ∀ x : Int64, x < 0 ↔ x.toInt < 0 := fun _ => Int64.lt_iff_toInt_lt
  simp [strays, hzero, hneg, decide_eq_decide]

/-- The remainder of the truncated division is nearer to zero than the divisor, on the side of the dividend. -/
theorem abs_tmod_lt (a : Int) {b : Int} (hb : b ≠ 0) : |a.tmod b| < |b| := by
  rw [Int.abs_eq_natAbs, Int.abs_eq_natAbs, Int.natAbs_tmod]
  exact Int.ofNat_lt.2 (Nat.mod_lt _ (Int.natAbs_pos.2 hb))

theorem dvd_sub_tmod (a b : Int) : b ∣ a - a.tmod b := ⟨a.tdiv b, by rw [Int.tmod_def, sub_sub_cancel]⟩

/-- Moving a remainder that strays by the divisor does not leave the 64 bits. -/
theorem fits_add_of_strays {r b : Int64} (h : strays r b = true) : Fits (r.toInt + b.toInt) := by
  obtain ⟨-, hside⟩ := strays_iff.1 h
  have hr := fits_iff.1 (fits_toInt r)
  have hb := fits_iff.1 (fits_toInt b)
  rw [fits_iff]
  omega

theorem toInt_add_of_fits {a b : Int64} (h : Fits (a.toInt + b.toInt)) : (a + b).toInt = a.toInt + b.toInt := by
  rw [fits_iff] at h
  rw [Int64.toInt_add]
  exact Int.bmod_eq_of_le (by omega) (by omega)

/-- The remainder of two integers is the floored one. -/
theorem floored_modulo (a : Int64) {b : Int64} (hb : b ≠ 0) :
    Floored a.toInt b.toInt (if strays (a % b) b then a % b + b else a % b).toInt := by
  have hb' : b.toInt ≠ 0 := fun h => hb (Int64.toInt_inj.1 h)
  have hmod : (a % b).toInt = a.toInt.tmod b.toInt := Int64.toInt_mod a b
  have hsmall : |(a % b).toInt| < |b.toInt| := hmod ▸ abs_tmod_lt a.toInt hb'
  have hdvd : b.toInt ∣ a.toInt - (a % b).toInt := hmod ▸ dvd_sub_tmod a.toInt b.toInt
  split
  · rename_i hstrays
    obtain ⟨hne, hside⟩ := strays_iff.1 hstrays
    rw [toInt_add_of_fits (fits_add_of_strays hstrays)]
    refine ⟨?_, ?_, .inr ?_⟩
    · rw [← sub_sub]
      exact dvd_sub_self_right.2 hdvd
    · rw [Int.abs_eq_natAbs, Int.abs_eq_natAbs] at *
      omega
    · rw [Int.abs_eq_natAbs, Int.abs_eq_natAbs] at *
      omega
  · rename_i hstrays
    have hside := mt strays_iff.2 hstrays
    exact ⟨hdvd, hsmall, by tauto⟩

end Number

namespace Primitive

open Number (Fits Floored strays fits_toInt floored_modulo fits_add_of_strays)

/-- **The remainder of integers is that of the division rounded to the floor**, neither of its two steps leaves the 64
bits, and a divisor that is zero is refused, whatever the dividend. -/
theorem remainder_floored (a b : Int64) (n : Number) :
    (b ≠ 0 →
      Fits (a.toInt.tmod b.toInt) ∧ (strays (a % b) b = true → Fits ((a % b).toInt + b.toInt)) ∧
      ∃ r : Int64, Primitive.modulo.run [.int a, .int b] = .ok (.int r) ∧
        r.toInt = a.toInt - b.toInt * ⌊(a.toInt : ℚ) / b.toInt⌋ ∧ Floored a.toInt b.toInt r.toInt) ∧
    ∀ z : Number, z = .int 0 ∨ z = .float 0.0 ∨ z = .float (-0.0) →
      ∃ e : EvalError, Primitive.modulo.run [.number n, .number z] = .error e ∧ e.kind = .eval ∧
        e.message = "evaluation error: mod: division by zero" := by
  constructor
  · intro hb
    have hfloored := floored_modulo a hb
    have hzero : (Number.int b).isZero = false := beq_false_of_ne hb
    refine ⟨Int64.toInt_mod a b ▸ fits_toInt _, fits_add_of_strays, _, ?_, hfloored.eq_sub, hfloored⟩
    show (if (Number.int b).isZero = true then _ else _) = _
    rw [hzero]
    rfl
  · intro z hz
    have hzero : z.isZero = true := by rcases hz with rfl | rfl | rfl <;> decide
    refine ⟨.divisionByZero (.primitive .modulo), ?_, rfl, by decide⟩
    show (if z.isZero = true then _ else _) = _
    rw [hzero]
    rfl

/-- Both ends of the integers: the truncated remainder is -1, which strays. -/
theorem remainder_of_ends :
    Int64.maxValue ≠ 0 ∧ strays (Int64.minValue % Int64.maxValue) Int64.maxValue = true ∧
    ∃ r : Int64, Primitive.modulo.run [.int .minValue, .int .maxValue] = .ok (.int r) ∧
      r.toInt = Int64.minValue.toInt - Int64.maxValue.toInt *
        ⌊(Int64.minValue.toInt : ℚ) / Int64.maxValue.toInt⌋ ∧
      Floored Int64.minValue.toInt Int64.maxValue.toInt r.toInt :=
  ⟨by decide, by decide, ((remainder_floored .minValue .maxValue (.int 0)).1 (by decide)).2.2⟩

end Primitive
end LazyFormula
