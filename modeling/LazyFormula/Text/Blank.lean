/-!
# White space

The characters that separate the words of every text read here: those with the Unicode property White_Space.
The zero-width space U+200B and the separators U+001C to U+001F are not among them.
-/
namespace LazyFormula
namespace Text

/-- **A white space character.** -/
def isBlank (c : Char) : Bool :=
  match c.toNat with
  | 0x20 | 0x85 | 0xa0 | 0x1680 | 0x2028 | 0x2029 | 0x202f | 0x205f | 0x3000 => true
  | n => (0x09 ≤ n && n ≤ 0x0d) || (0x2000 ≤ n && n ≤ 0x200a)

/-- A text without the white space at its ends. -/
def trim (cs : List Char) : List Char :=
  ((cs.dropWhile isBlank).reverse.dropWhile isBlank).reverse

/-- **The words of a text**: the runs of characters between white space, in order; a run is never empty. -/
def words (cs : List Char) : List (List Char) :=
  (cs.splitOnP isBlank).filter (!·.isEmpty)

end Text
end LazyFormula
