import LazyFormula.Decimal.Shortest
/-!
# Layouts of float texts

All written forms of a float have the same digits. What differs is which magnitudes are written without an exponent,
whether an exponent shows its plus sign, which of two equally near decimals is taken, and what stands for the floats
without digits.
-/
namespace LazyFormula

/-- **A written form of floats.** -/
structure FloatLayout where
  tie : Tie
  /-- The least and the greatest place of a first digit written without an exponent. -/
  positional : Int × Int
  /-- What stands before an exponent that is not negative. -/
  plus : String
  notANumber : String
  infinity : String
  negativeInfinity : String

namespace FloatLayout

/-- The digits of a decimal that is not zero, without the zeros at the end, and the place of the first one. -/
def digitsAndPlace (d : Decimal) : List Char × Int :=
  let digits := Nat.toDigits 10 d.digits
  ((digits.reverse.dropWhile (· == '0')).reverse, d.exponent + digits.length - 1)

/-- Digits with their first one at a place, without an exponent. There is always a digit on both sides of the point. -/
def positionalText (digits : List Char) (place : Int) : List Char :=
  if place < 0 then '0' :: '.' :: List.replicate (-place - 1).toNat '0' ++ digits
  else
    let whole := place.toNat + 1
    if digits.length ≤ whole then digits ++ List.replicate (whole - digits.length) '0' ++ ['.', '0']
    else digits.take whole ++ '.' :: digits.drop whole

/-- Digits with their first one at a place, with an exponent. -/
def scientificText (l : FloatLayout) (digits : List Char) (place : Int) : List Char :=
  let fraction := if digits.length ≤ 1 then [] else '.' :: digits.drop 1
  let exponent := if place < 0 then toString place else l.plus ++ toString place
  digits.take 1 ++ fraction ++ 'e' :: exponent.toList

/-- A decimal that is not zero. -/
def magnitudeText (l : FloatLayout) (d : Decimal) : List Char :=
  let (digits, place) := digitsAndPlace d
  if l.positional.1 ≤ place && place ≤ l.positional.2 then positionalText digits place
  else l.scientificText digits place

/-- **The text of a float.** -/
def render (l : FloatLayout) (x : Float) : String :=
  match Binary64.ofFloat? x with
  | none => if x.isNaN then l.notANumber else if 0.0 < x then l.infinity else l.negativeInfinity
  | some v =>
    let magnitude := if v.significand = 0 then ['0', '.', '0'] else l.magnitudeText (Decimal.shortest l.tie x v)
    .ofList (if v.negative then '-' :: magnitude else magnitude)

end FloatLayout
end LazyFormula
