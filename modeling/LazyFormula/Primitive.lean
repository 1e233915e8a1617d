/-!
# Builtin actions

What the builtins of a root do. The primitives compute a value from their arguments alone; the other actions call
their arguments or belong to a host.
-/
namespace LazyFormula

/-- The orders that numbers are compared by. -/
inductive Comparison where
  | greater
  | less
  | greaterOrEqual
  | lessOrEqual
deriving DecidableEq, Repr

namespace Comparison

def name : Comparison → String
  | .greater => ">"
  | .less => "<"
  | .greaterOrEqual => ">="
  | .lessOrEqual => "<="

/-- Whether a comparison holds of two numbers in that order; numbers that are not ordered satisfy none. -/
def holds : Comparison → Option Ordering → Bool
  | .greater, o => o == some .gt
  | .less, o => o == some .lt
  | .greaterOrEqual, o => o == some .gt || o == some .eq
  | .lessOrEqual, o => o == some .lt || o == some .eq

end Comparison

/-- The functions of one real argument. The names that end in a `d` count angles in degrees. -/
inductive RealFunction where
  | sqrt | exp
  | sin | cos | tan | asin | acos | atan
  | sind | cosd | tand | asind | acosd | atand
deriving DecidableEq, Repr

/-- The size of one degree. -/
def radiansPerDegree : Float := 3.141592653589793 / 180.0

/-- The size of one radian in degrees. -/
def degreesPerRadian : Float := 57.2957795130823208767981548141051703

namespace RealFunction

def name : RealFunction → String
  | .sqrt => "sqrt" | .exp => "exp"
  | .sin => "sin" | .cos => "cos" | .tan => "tan" | .asin => "asin" | .acos => "acos" | .atan => "atan"
  | .sind => "sind" | .cosd => "cosd" | .tand => "tand" | .asind => "asind" | .acosd => "acosd" | .atand => "atand"

/-- The value at a float. -/
def apply : RealFunction → Float → Float
  | .sqrt, x => x.sqrt
  | .exp, x => x.exp
  | .sin, x => x.sin
  | .cos, x => x.cos
  | .tan, x => x.tan
  | .asin, x => x.asin
  | .acos, x => x.acos
  | .atan, x => x.atan
  | .sind, x => (x * radiansPerDegree).sin
  | .cosd, x => (x * radiansPerDegree).cos
  | .tand, x => (x * radiansPerDegree).tan
  | .asind, x => x.asin * degreesPerRadian
  | .acosd, x => x.acos * degreesPerRadian
  | .atand, x => x.atan * degreesPerRadian

end RealFunction

/-- **The primitives**: builtins whose value depends on their arguments alone. -/
inductive Primitive where
  | add | multiply | subtract | divide | power | expt | modulo
  | compare (c : Comparison)
  | numericEqual
  | abs | round | max | min
  | real (f : RealFunction)
  | log | atan2 | atan2d | floor | ceil
  | list | cons | car | cdr | append | length
  | isNull | isList | isNumber | isSymbol | isProcedure
  | not | identical | equal | begin
deriving DecidableEq, Repr

/-- The name a primitive is bound to, which its errors start with. -/
def Primitive.name : Primitive → String
  | .add => "+" | .multiply => "*" | .subtract => "-" | .divide => "/"
  | .power => "^" | .expt => "expt" | .modulo => "mod"
  | .compare c => c.name
  | .numericEqual => "="
  | .abs => "abs" | .round => "round" | .max => "max" | .min => "min"
  | .real f => f.name
  | .log => "log" | .atan2 => "atan2" | .atan2d => "atan2d" | .floor => "floor" | .ceil => "ceil"
  | .list => "list" | .cons => "cons" | .car => "car" | .cdr => "cdr" | .append => "append" | .length => "length"
  | .isNull => "null?" | .isList => "list?" | .isNumber => "number?" | .isSymbol => "symbol?"
  | .isProcedure => "procedure?"
  | .not => "not" | .identical => "eq?" | .equal => "equal?" | .begin => "begin"

/-- **What a builtin does.** -/
inductive Action where
  | primitive (p : Primitive)
  /-- Calls its first argument with each item of its second one. -/
  | map
  /-- A host's: counts its calls and gives back its first argument. -/
  | count
  /-- A host's: always fails. -/
  | fail
  /-- A host's: calls its first argument with the others. -/
  | forward
deriving DecidableEq, Repr

def Action.name : Action → String
  | .primitive p => p.name
  | .map => "map"
  | .count => "count"
  | .fail => "fail"
  | .forward => "call"

end LazyFormula
