/-!
# Ranges of characters

A class of characters is listed as ascending ranges of code points.
-/
namespace LazyFormula
namespace Text

/-- Whether a character lies in one of the ranges, both ends included. -/
def inRanges (ranges : List (Nat × Nat)) (c : Char) : Bool :=
  ranges.any fun (low, high) => low ≤ c.toNat && c.toNat ≤ high

end Text
end LazyFormula
