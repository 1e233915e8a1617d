import LazyFormula.EvalError
/-!
# Running primitives

A primitive checks the number of its arguments first and then their kinds, from left to right.
-/
namespace LazyFormula
namespace Primitive

/-- The outcome of a primitive. -/
abbrev Outcome := Except EvalError

/-! ## Arguments -/

variable (caller : Action)

/-- The only argument. -/
def one : List Value → Outcome Value
  | [a] => .ok a
  | args => .error (.argumentCount caller (.exactly 1) args.length)

/-- Both arguments. -/
def two : List Value → Outcome (Value × Value)
  | [a, b] => .ok (a, b)
  | args => .error (.argumentCount caller (.exactly 2) args.length)

def number : Value → Outcome Number
  | .number n => .ok n
  | v => .error (.notNumber caller v)

def items : Value → Outcome (List Value)
  | .list vs => .ok vs
  | v => .error (.notList caller v)

def oneNumber (args : List Value) : Outcome Number := one caller args >>= number caller

def twoNumbers (args : List Value) : Outcome (Number × Number) := do
  let (a, b) ← two caller args
  return (← number caller a, ← number caller b)

def oneList (args : List Value) : Outcome (List Value) := one caller args >>= items caller

/-! ## Arithmetic -/

/-- A number combined with the arguments that follow it, from left to right. -/
def fold (op : Number → Number → Number) (first : Number) (args : List Value) : Outcome Value := do
  return .number (← args.foldlM (fun acc v => return op acc (← number caller v)) first)

def difference : List Value → Outcome Value
  | [] => .error (.argumentCount caller .atLeastOne 0)
  | [x] => do return .number (← number caller x).negate
  | x :: rest => do fold caller .sub (← number caller x) rest

/-- A quotient; each divisor is checked before the next argument is looked at. -/
def quotient (acc : Number) (v : Value) : Outcome Number := do
  let divisor ← number caller v
  if divisor.isZero then .error (.divisionByZero caller) else return acc.div divisor

def ratio : List Value → Outcome Value
  | [] => .error (.argumentCount caller .atLeastOne 0)
  | [x] => do return .number (← quotient caller (.int 1) x)
  | x :: rest => do return .number (← rest.foldlM (quotient caller) (← number caller x))

def modulus (args : List Value) : Outcome Value := do
  let (a, b) ← twoNumbers caller args
  if b.isZero then .error (.divisionByZero caller) else return .number (a.modulo b)

/-- The first of some numbers that a comparison puts before all others; the arguments are the numbers or one list of
them. -/
def extremum (better : Comparison) (args : List Value) : Outcome Value := do
  let candidates := match args with
    | [.list vs] => vs
    | _ => args
  let best ← candidates.foldlM (fun best v => do
    let n ← number caller v
    return match best with
      | some b => some (if better.holds (n.compare? b) then n else b)
      | none => some n) none
  match best with
  | some n => return .number n
  | none => .error (.argumentCount caller .atLeastOne 0)

/-- Rounding to an integer, or to a count of decimal places that has 32 bits. -/
def rounded : List Value → Outcome Value
  | [x] => do return .number (← number caller x).round
  | [x, places] => do
    let x ← number caller x
    match ← number caller places with
    | .float _ => .error .digitCountNotInteger
    | .int n =>
      if -Int.pow 2 31 ≤ n.toInt ∧ n.toInt < Int.pow 2 31 then return .number (x.roundPlaces n.toInt)
      else .error (.digitCountOutOfRange n)
  | args => .error (.argumentCount caller .oneOrTwo args.length)

/-- The natural logarithm, or the one to a base. -/
def logarithm : List Value → Outcome Value
  | [x] => do return .float (← number caller x).toFloat.log
  | [x, base] => do
    let x ← number caller x
    let base ← number caller base
    return .float (x.toFloat.log / base.toFloat.log)
  | args => .error (.argumentCount caller .oneOrTwo args.length)

/-! ## All primitives -/

/-- Lists are never identical, the empty ones apart. -/
def isIdentical : Value → Value → Bool
  | .list as, .list bs => as.isEmpty && bs.isEmpty
  | a, b => a.same b

def isNil : Value → Bool
  | .list vs => vs.isEmpty
  | _ => false

/-- A test of one value. -/
def test (p : Value → Bool) (args : List Value) : Outcome Value := do return .bool (p (← one caller args))

/-- A relation of two values. -/
def relate (r : Value → Value → Bool) (args : List Value) : Outcome Value := do
  let (a, b) ← two caller args
  return .bool (r a b)

/-- A function of two numbers. -/
def combine (f : Number → Number → Number) (args : List Value) : Outcome Value := do
  let (a, b) ← twoNumbers caller args
  return .number (f a b)

/-- A function of one number. -/
def convert (f : Number → Number) (args : List Value) : Outcome Value := do
  return .number (f (← oneNumber caller args))

/-- The angle of a point, in radians. -/
def angle (y x : Number) : Float := y.toFloat.atan2 x.toFloat

end Primitive

/-- **The value of a primitive.** -/
def Primitive.run (p : Primitive) (args : List Value) : Primitive.Outcome Value :=
  let caller := Action.primitive p
  match p with
  | .add => fold caller .add (.int 0) args
  | .multiply => fold caller .mul (.int 1) args
  | .subtract => difference caller args
  | .divide => ratio caller args
  | .power | .expt => combine caller .pow args
  | .modulo => modulus caller args
  | .compare c => do
    let (a, b) ← twoNumbers caller args
    return .bool (c.holds (a.compare? b))
  | .numericEqual | .equal => relate caller Value.same args
  | .abs => convert caller .abs args
  | .round => rounded caller args
  | .max => extremum caller .greater args
  | .min => extremum caller .less args
  | .real f => convert caller (fun n => .float (f.apply n.toFloat)) args
  | .log => logarithm caller args
  | .atan2 => combine caller (fun y x => .float (angle y x)) args
  | .atan2d => combine caller (fun y x => .float (angle y x * degreesPerRadian)) args
  | .floor => convert caller .floor args
  | .ceil => convert caller .ceil args
  | .list => return .list args
  | .cons => do
    let (head, tail) ← two caller args
    return .list (head :: (← items caller tail))
  | .car => do
    match ← oneList caller args with
    | head :: _ => return head
    | [] => .error .firstOfEmpty
  | .cdr => do return .list (← oneList caller args).tail
  | .append => do return .list (← args.mapM (items caller)).flatten
  | .length => do return .int (.ofNat (← oneList caller args).length)
  | .isNull => test caller isNil args
  | .isList => test caller (fun | .list _ => true | _ => false) args
  | .isNumber => test caller (fun v => v.number?.isSome) args
  | .isSymbol => test caller (fun | .symbol _ => true | _ => false) args
  | .isProcedure => test caller Value.isCallable args
  | .not => test caller (fun v => !v.truthy) args
  | .identical => relate caller isIdentical args
  | .begin => return args.getLast?.getD .unspecified

end LazyFormula
