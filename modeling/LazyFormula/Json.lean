import LazyFormula.Decimal.Layout
/-!
# JSON texts

Values leave the library as JSON, on one line or indented. A float is written so that it reads back, with its own
layout; the floats that JSON has no numeral for are null.
-/
namespace LazyFormula

/-- **A JSON document.** Members stand in the order in which they are written. -/
inductive Json where
  | null
  | bool (b : Bool)
  | int (i : Int)
  | float (x : Float)
  | string (s : String)
  | array (items : List Json)
  | object (members : List (String × Json))

namespace Json

/-- Floats in JSON: positional from `10 ^ -5` to below `10 ^ 16`, an exponent with its sign, and of two equally near
decimals the even one. -/
def layout : FloatLayout := ⟨.even, (-5, 15), "+", "null", "null", "null"⟩

/-- A number in four hexadecimal digits, or more if it needs them. -/
def fourDigits (n : Nat) : List Char :=
  let digits := Nat.toDigits 16 n
  List.replicate (4 - digits.length) '0' ++ digits

/-- One character of a string. -/
def escape : Char → List Char
  | '"' => ['\\', '"']
  | '\\' => ['\\', '\\']
  | '\n' => ['\\', 'n']
  | '\r' => ['\\', 'r']
  | '\t' => ['\\', 't']
  | '\x08' => ['\\', 'b']
  | '\x0c' => ['\\', 'f']
  | c => if c.toNat < 0x20 then '\\' :: 'u' :: fourDigits c.toNat else [c]

def stringText (s : String) : String := .ofList ('"' :: s.toList.flatMap escape ++ ['"'])

mutual
/-- **The text of a document on one line**, without spaces. -/
def compact : Json → String
  | .null => "null"
  | .bool b => if b then "true" else "false"
  | .int i => toString i
  | .float x => layout.render x
  | .string s => stringText s
  | .array items => "[" ++ compactItems items ++ "]"
  | .object members => "\x7b" ++ compactMembers members ++ "\x7d"

def compactItems : List Json → String
  | [] => ""
  | [item] => item.compact
  | item :: items => item.compact ++ "," ++ compactItems items

def compactMembers : List (String × Json) → String
  | [] => ""
  | [(name, value)] => stringText name ++ ":" ++ value.compact
  | (name, value) :: members => stringText name ++ ":" ++ value.compact ++ "," ++ compactMembers members
end

/-- A line end and the indentation of a level, two spaces each. -/
def newline (level : Nat) : String := .ofList ('\n' :: List.replicate (2 * level) ' ')

mutual
/-- **The text of a document, indented**: every item and member on a line of its own. -/
def indented (level : Nat) : Json → String
  | .null => "null"
  | .bool b => if b then "true" else "false"
  | .int i => toString i
  | .float x => layout.render x
  | .string s => stringText s
  | .array [] => "[]"
  | .array (item :: items) => "[" ++ indentedItems level (item :: items) ++ newline level ++ "]"
  | .object [] => "\x7b\x7d"
  | .object (m :: members) => "\x7b" ++ indentedMembers level (m :: members) ++ newline level ++ "\x7d"

def indentedItems (level : Nat) : List Json → String
  | [] => ""
  | [item] => newline (level + 1) ++ item.indented (level + 1)
  | item :: items => newline (level + 1) ++ item.indented (level + 1) ++ "," ++ indentedItems level items

def indentedMembers (level : Nat) : List (String × Json) → String
  | [] => ""
  | [(name, value)] => newline (level + 1) ++ stringText name ++ ": " ++ value.indented (level + 1)
  | (name, value) :: members =>
    newline (level + 1) ++ stringText name ++ ": " ++ value.indented (level + 1) ++ "," ++ indentedMembers level members
end

end Json
end LazyFormula
