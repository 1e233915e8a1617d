import LazyFormula.Text.Escaped
/-!
# Quoted texts

How messages show a text that they quote: between double quotes, with the quote and the backslash behind a
backslash, the usual names for the tab, the two line ends and the null character, and `\u{…}` for every other
character that could not be seen.
-/
namespace LazyFormula
namespace Text

/-- The lower case hexadecimal digits of a number. -/
def hex (n : Nat) : List Char := Nat.toDigits 16 n

/-- One character inside quotes. -/
def quoteChar : Char → List Char
  | '"' => ['\\', '"']
  | '\\' => ['\\', '\\']
  | '\n' => ['\\', 'n']
  | '\r' => ['\\', 'r']
  | '\t' => ['\\', 't']
  | '\x00' => ['\\', '0']
  | c => if isEscaped c then ['\\', 'u', '\x7b'] ++ hex c.toNat ++ ['\x7d'] else [c]

/-- **A text as messages quote it.** -/
def quoted (s : String) : String := .ofList ('"' :: s.toList.flatMap quoteChar ++ ['"'])

end Text
end LazyFormula
