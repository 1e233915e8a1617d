import LazyFormula.Decimal
/-!
# The shortest decimal of a float

A float is written with the fewest digits that read back to it, and of the decimals with so few digits with the one
nearest to its value. On the grid of the decimals with a given last place only the two neighbours of the value can be
nearest, so these two are tried, from the coarsest grid to the finest.
-/
namespace LazyFormula

/-- Which of two equally near decimals is taken. -/
inductive Tie where
  | up
  | even
deriving DecidableEq, Repr

/-- The choice between `below` and the number after it. -/
def Tie.choose (tie : Tie) (below : Nat) : Nat :=
  match tie with
  | .up => below + 1
  | .even => below + below % 2

namespace Decimal

/-- The place of the first digit of `numerator / denominator`: the greatest `p` with `10 ^ p` not above it. -/
def leadingPlace (numerator denominator : Nat) : Int :=
  if denominator ≤ numerator then digitCount (numerator / denominator) - 1
  else -digitCount ((denominator - 1) / numerator)

/-- The neighbour of a value on the grid of `10 ^ place` that reads back as `x`, the nearer one if both do. -/
def onGrid? (tie : Tie) (x : Float) (numerator denominator : Nat) (place : Int) : Option Decimal :=
  let numerator := numerator * Nat.pow 10 (-place).toNat
  let denominator := denominator * Nat.pow 10 place.toNat
  let below : Decimal := ⟨numerator / denominator, place⟩
  let above : Decimal := ⟨numerator / denominator + 1, place⟩
  let twice := 2 * (numerator % denominator)
  match below.toFloat.toBits == x.toBits, above.toFloat.toBits == x.toBits with
  | true, true =>
    some (if twice < denominator then below else if denominator < twice then above
      else ⟨tie.choose below.digits, place⟩)
  | true, false => some below
  | false, true => some above
  | false, false => none

/-- The value itself: a whole number of units `2 ^ -k` is a whole number of units `10 ^ -k`. -/
def exact (v : Binary64) : Decimal := ⟨v.numerator * Nat.pow 5 (-v.exponent).toNat, -(-v.exponent).toNat⟩

/-- **The shortest decimal** that reads back as the magnitude of `x`, whose exact value is `v`. -/
def shortest (tie : Tie) (x : Float) (v : Binary64) : Decimal :=
  let top := leadingPlace v.numerator v.denominator
  ((List.range 17).findSome? fun (n : Nat) => onGrid? tie x.abs v.numerator v.denominator (top - n)).getD (exact v)

end Decimal
end LazyFormula
