import LazyFormula.Binary64
/-!
# Decimals

A decimal numeral is a whole number of units `10 ^ exponent`. Reading one is rounding that exact value to the nearest
float, the one with an even significand of two that are equally near.
-/
namespace LazyFormula

/-- **A decimal**, `digits · 10 ^ exponent`. -/
structure Decimal where
  digits : Nat
  exponent : Int
deriving DecidableEq, Repr

/-- The number of decimal digits of a number; zero has one. -/
def digitCount (n : Nat) : Nat := (Nat.toDigits 10 n).length

namespace Decimal

/-- **The float nearest to a decimal.** A value from `10 ^ 310` on is infinite and one below `10 ^ -330` zero, so no
power of ten beyond those has to be computed. -/
def toFloat (d : Decimal) : Float :=
  let top := digitCount d.digits + d.exponent
  if d.digits = 0 || top < -330 then 0.0
  else if 310 < top then infinity
  else Binary64.nearest (d.digits * Nat.pow 10 d.exponent.toNat) (Nat.pow 10 (-d.exponent).toNat)

/-- The number that a row of decimal digits denotes. -/
def ofDigits (cs : List Char) : Nat := cs.foldl (fun n c => 10 * n + (c.toNat - '0'.toNat)) 0

/-- A sign, if the text starts with one: whether it is a minus, and the rest. -/
def splitSign : List Char → Bool × List Char
  | '-' :: cs => (true, cs)
  | '+' :: cs => (false, cs)
  | cs => (false, cs)

/-- A text of at least one decimal digit and nothing else. -/
def isDigits (cs : List Char) : Bool := !cs.isEmpty && cs.all Char.isDigit

/-- An integer numeral: decimal digits behind at most one sign. -/
def readInt? (cs : List Char) : Option Int :=
  let (negative, cs) := splitSign cs
  if isDigits cs then some (if negative then -ofDigits cs else ofDigits cs) else none

/-- The exponent part of a numeral, `e` or `E` and an integer; no part at all is zero. -/
def readExponent? : List Char → Option Int
  | [] => some 0
  | c :: cs => if c = 'e' || c = 'E' then readInt? cs else none

/-- The part of a numeral behind its whole digits: a point with digits, an exponent, or both. -/
def readFraction? (whole : List Char) : List Char → Option Decimal
  | '.' :: cs =>
    let (fraction, rest) := cs.span Char.isDigit
    if whole.isEmpty && fraction.isEmpty then none
    else (readExponent? rest).map fun e => ⟨ofDigits (whole ++ fraction), e - fraction.length⟩
  | cs => if whole.isEmpty then none else (readExponent? cs).map fun e => ⟨ofDigits whole, e⟩

/-- An unsigned numeral: digits with at most one point among or around them, and at most one exponent. -/
def read? (cs : List Char) : Option Decimal :=
  let (whole, rest) := cs.span Char.isDigit
  readFraction? whole rest

/-- The names of the floats that have no digits, in any letter case. -/
def readName? (cs : List Char) : Option Float :=
  match String.ofList (cs.map Char.toLower) with
  | "inf" | "infinity" => some infinity
  | "nan" => some notANumber
  | _ => none

/-- **A float numeral**: a numeral or a name behind at most one sign. -/
def readFloat? (cs : List Char) : Option Float :=
  let (negative, cs) := splitSign cs
  ((readName? cs).or ((read? cs).map toFloat)).map fun x => if negative then -x else x

end Decimal
end LazyFormula
