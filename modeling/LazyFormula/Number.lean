import LazyFormula.Decimal.Layout
/-!
# Numbers

A number is a 64 bit integer or a float. Sums, differences, products and powers of integers stay integers as long as
the exact result fits, of powers up to exponents of 32 bits, and fall back to floats when it does not; the two
representations compare by value, mixed pairs through the float nearest to the integer.
-/
namespace LazyFormula

/-- **A number.** -/
inductive Number where
  | int (i : Int64)
  | float (x : Float)
deriving DecidableEq

instance : Inhabited Number := ⟨.int 0⟩

namespace Number

/-- Whether an exact integer has a 64 bit representation. -/
def Fits (n : Int) : Prop := -Int.pow 2 63 ≤ n ∧ n < Int.pow 2 63

instance (n : Int) : Decidable (Fits n) := inferInstanceAs (Decidable (_ ∧ _))

theorem fits_toInt (i : Int64) : Fits i.toInt := ⟨i.le_toInt, i.toInt_lt⟩

theorem toInt_ofInt_of_fits {n : Int} (h : Fits n) : (Int64.ofInt n).toInt = n := Int64.toInt_ofInt_of_le h.1 h.2

/-- The float of a number; an integer that has none takes the nearest one. -/
def toFloat : Number → Float
  | .int i => Binary64.nearestInt i.toInt
  | .float x => x

/-- **An exact integer result**, or the float computed in its place when it does not fit. -/
def ofExact (exact : Int) (inFloats : Float) : Number :=
  if Fits exact then .int (.ofInt exact) else .float inFloats

def isZero : Number → Bool
  | .int i => i == 0
  | .float x => x == 0.0

def add : Number → Number → Number
  | .int a, .int b => ofExact (a.toInt + b.toInt) ((int a).toFloat + (int b).toFloat)
  | a, b => .float (a.toFloat + b.toFloat)

def sub : Number → Number → Number
  | .int a, .int b => ofExact (a.toInt - b.toInt) ((int a).toFloat - (int b).toFloat)
  | a, b => .float (a.toFloat - b.toFloat)

def mul : Number → Number → Number
  | .int a, .int b => ofExact (a.toInt * b.toInt) ((int a).toFloat * (int b).toFloat)
  | a, b => .float (a.toFloat * b.toFloat)

/-- True division, which always gives a float. -/
def div (a b : Number) : Number := .float (a.toFloat / b.toFloat)

def negate : Number → Number
  | .int i => ofExact (-i.toInt) (-(int i).toFloat)
  | .float x => .float (-x)

/-- A product, if it fits. -/
def product? (a b : Int) : Option Int := if Fits (a * b) then some (a * b) else none

/-- `acc · base ^ exponent` by repeated squaring, where every product has to fit; `steps` bounds the binary digits of
the exponent. Behind the leading digit the base is not squared again. -/
def squarings? : Nat → Int → Int → Nat → Option Int
  | 0, _, acc, _ => some acc
  | steps + 1, base, acc, exponent =>
    (if exponent % 2 = 1 then product? acc base else some acc).bind fun acc =>
      if exponent / 2 = 0 then some acc
      else (product? base base).bind fun square => squarings? steps square acc (exponent / 2)

/-- The power of an integer, as far as it can be computed in 64 bits. Exponents have 32 bits. -/
def intPower? (base : Int) (exponent : Nat) : Option Int :=
  if Nat.pow 2 32 ≤ exponent then none else squarings? 32 base 1 exponent

/-- A power; a negative exponent is a matter of floats. -/
def pow : Number → Number → Number
  | .int a, .int b =>
    match if b < 0 then none else intPower? a.toInt b.toInt.toNat with
    | some p => .int (.ofInt p)
    | none => .float ((int a).toFloat.pow (int b).toFloat)
  | a, b => .float (a.toFloat.pow b.toFloat)

def abs : Number → Number
  | .int i => ofExact i.toInt.natAbs (int i).toFloat.abs
  | .float x => .float x.abs

/-- Whether a remainder lacks the sign of the divisor; zero lacks none. -/
def strays (r b : Int64) : Bool := r != 0 && decide (r < 0) != decide (b < 0)

/-- The remainder that takes the sign of the divisor, of a divisor that is not zero: the one of the truncated division,
moved by the divisor where the signs differ. -/
def modulo : Number → Number → Number
  | .int a, .int b =>
    let r := a % b
    .int (if strays r b then r + b else r)
  | a, b =>
    let r := floatRemainder a.toFloat b.toFloat
    .float (if r != 0.0 && decide (r < 0.0) != decide (b.toFloat < 0.0) then r + b.toFloat else r)

/-- Equality by value. -/
def same : Number → Number → Bool
  | .int a, .int b => a == b
  | a, b => a.toFloat == b.toFloat

/-- The order of two floats; NaN has none. -/
def compareFloats (x y : Float) : Option Ordering :=
  if x < y then some .lt else if x == y then some .eq else if y < x then some .gt else none

/-- **The order of two numbers**, by value; NaN is not ordered. -/
def compare? : Number → Number → Option Ordering
  | .int a, .int b => some (compare a.toInt b.toInt)
  | a, b => compareFloats a.toFloat b.toFloat

/-- An integral value as an integer if it fits; `x` is that value as a float. -/
def ofIntegral (value : Option Int) (x : Float) : Number :=
  match value with
  | some n => if n.natAbs < Nat.pow 2 63 then .int (.ofInt n) else .float x
  | none => .float x

def floor : Number → Number
  | .int i => .int i
  | .float x => ofIntegral ((Binary64.ofFloat? x).map (·.floor)) x

def ceil : Number → Number
  | .int i => .int i
  | .float x => ofIntegral ((Binary64.ofFloat? x).map (·.ceil)) x

/-- The nearest integer, of two the even one. -/
def round : Number → Number
  | .int i => .int i
  | .float x => ofIntegral ((Binary64.ofFloat? x).map (·.nearestEven)) x

/-- Rounding to a count of decimal places: the number is scaled, rounded and scaled back, in floats. -/
def roundPlaces (x : Number) (places : Int) : Number :=
  .float (roundEven (x.toFloat * powerOfTen places) / powerOfTen places)

/-- Floats in texts: positional from `10 ^ -4` to below `10 ^ 16`, an exponent without a plus sign, and of two equally
near decimals the greater one. -/
def layout : FloatLayout := ⟨.up, (-4, 15), "", "NaN", "inf", "-inf"⟩

/-- **The text of a number.** An integral float keeps its `.0`, so the two representations can be told apart. -/
def text : Number → String
  | .int i => toString i.toInt
  | .float x => layout.render x

/-- **Reading a number**: an integer if the text is one that fits, else a float. -/
def read? (cs : List Char) : Option Number :=
  match (Decimal.readInt? cs).filter (decide <| Fits ·) with
  | some n => some (.int (.ofInt n))
  | none => (Decimal.readFloat? cs).map .float

end Number
end LazyFormula
