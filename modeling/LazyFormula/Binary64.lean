/-!
# Exact values of floats

A finite float is a whole number of units `2 ^ exponent`. The operations that have to be exact (rounding to an
integer, the remainder of a division) decode it to that form and work in whole numbers; `Binary64.nearest` leads back,
rounding a quotient of whole numbers once.
-/
namespace LazyFormula

/-- **A finite float**, `± significand · 2 ^ exponent`; the sign is apart, so that zero has one. -/
structure Binary64 where
  negative : Bool
  significand : Nat
  exponent : Int
deriving DecidableEq, Repr

namespace Binary64

/-- The exact value of a float; infinities and NaN have none. -/
def ofFloat? (x : Float) : Option Binary64 :=
  let bits := x.toBits.toNat
  let negative := bits / Nat.pow 2 63 == 1
  let field : Nat := bits / Nat.pow 2 52 % Nat.pow 2 11
  let fraction := bits % Nat.pow 2 52
  if field = 2047 then none
  else if field = 0 then some ⟨negative, fraction, -1074⟩
  else some ⟨negative, fraction + Nat.pow 2 52, (field : Int) - 1075⟩

/-- A quotient rounded to a whole number, a half to the even one. -/
def divideEven (numerator denominator : Nat) : Nat :=
  let below := numerator / denominator
  let twice := 2 * (numerator % denominator)
  if twice < denominator then below else if denominator < twice then below + 1 else below + below % 2

/-- The greatest `l` with `2 ^ l` not above `numerator / denominator`. -/
def leadingBit (numerator denominator : Nat) : Int :=
  let l : Int := numerator.log2 - denominator.log2
  if denominator * Nat.pow 2 l.toNat ≤ numerator * Nat.pow 2 (-l).toNat then l else l - 1

/-- The bits of the float nearest to `numerator / denominator`. A significand of 53 bits in units of the exponent's
place makes the bits of all floats one ascending row, so a significand that rounds up to `2 ^ 53` moves on to the next
exponent by itself, and from the last one to infinity. -/
def nearestBits (numerator denominator : Nat) : Nat :=
  let exponent := max (leadingBit numerator denominator - 52) (-1074)
  let significand := divideEven (numerator * Nat.pow 2 (-exponent).toNat) (denominator * Nat.pow 2 exponent.toNat)
  min (significand + (exponent + 1074).toNat * Nat.pow 2 52) (2047 * Nat.pow 2 52)

/-- **The float nearest to `numerator / denominator`**, of two the one with an even significand. -/
def nearest (numerator denominator : Nat) : Float :=
  if numerator = 0 then 0.0 else .ofBits (.ofNat (nearestBits numerator denominator))

/-- The float nearest to an integer. -/
def nearestInt (n : Int) : Float := if n < 0 then -nearest n.natAbs 1 else nearest n.natAbs 1

/-- The magnitude is `numerator / denominator`. -/
def numerator (v : Binary64) : Nat := v.significand * Nat.pow 2 v.exponent.toNat

/-- The magnitude is `numerator / denominator`. -/
def denominator (v : Binary64) : Nat := Nat.pow 2 (-v.exponent).toNat

/-- A magnitude with the sign of the value. -/
def signed (v : Binary64) (n : Nat) : Int := if v.negative then -n else n

/-- The greatest integer that is not above the value. -/
def floor (v : Binary64) : Int := v.signed v.numerator / (v.denominator : Int)

/-- The least integer that is not below the value. -/
def ceil (v : Binary64) : Int := -(-v.signed v.numerator / (v.denominator : Int))

/-- The nearest integer, the even one of two that are equally near. -/
def nearestEven (v : Binary64) : Int := v.signed (divideEven v.numerator v.denominator)

/-- The float of an exact value that has one. -/
def toFloat (v : Binary64) : Float :=
  if v.negative then -nearest v.numerator v.denominator else nearest v.numerator v.denominator

/-- The value of `a` less the multiple of `b` that leaves the sign of `a` and less than the magnitude of `b`. -/
def remainder (a b : Binary64) : Binary64 :=
  let unit := min a.exponent b.exponent
  let units (v : Binary64) := v.significand * Nat.pow 2 (v.exponent - unit).toNat
  ⟨a.negative, units a % units b, unit⟩

end Binary64

/-- The float above all others. -/
def infinity : Float := 1.0 / 0.0

/-- The float that is no number. -/
def notANumber : Float := 0.0 / 0.0

/-- A float rounded to an integral one, a half to the even neighbour; the sign stays, also on zero. -/
def roundEven (x : Float) : Float :=
  match Binary64.ofFloat? x with
  | none => x
  | some v =>
    let rounded := Binary64.nearest (Binary64.divideEven v.numerator v.denominator) 1
    if v.negative then -rounded else rounded

/-- **The remainder of a division truncated toward zero**, exact. -/
def floatRemainder (x y : Float) : Float :=
  match Binary64.ofFloat? x, Binary64.ofFloat? y with
  | some a, some b => if b.significand = 0 then notANumber else (a.remainder b).toFloat
  | some _, none => if y.isNaN then notANumber else x
  | none, _ => notANumber

/-- `m · a ^ n` by repeated squaring, every product rounded; `steps` bounds the binary digits of `n`. -/
def powerLoop : Nat → Nat → Float → Float → Float
  | 0, _, _, m => m
  | steps + 1, n, a, m =>
    let m := if n % 2 = 1 then m * a else m
    if n / 2 = 0 then m else powerLoop steps (n / 2) (a * a) m

/-- **A power of ten** as repeated squaring gives it; a negative exponent divides at the end. -/
def powerOfTen (n : Int) : Float :=
  let p := powerLoop (n.natAbs.log2 + 1) n.natAbs 10.0 1.0
  if n < 0 then 1.0 / p else p

end LazyFormula
