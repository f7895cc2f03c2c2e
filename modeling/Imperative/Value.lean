import Imperative.Text.Decimal
import Imperative.Tree

/-!
# Values

What a variable can hold while a program runs: an integer of 64 bits, a double, or no
value at all.  Integer arithmetic is exact or refused, and never wraps around; as soon as
one operand is a double, both are, and division always is one of doubles.  An operand
without a value is refused by every operator.
-/

namespace Imperative

/-- A run-time value. -/
inductive Value where
  | int (n : Int64)
  | float (x : Float)
  /-- What a variable of type `var` holds before its first assignment, and what a procedure
  without a return type gives. -/
  | none
  deriving Repr, Inhabited

/-- Why an operation has no result. -/
inductive ValueError where
  | divisionByZero | overflow | missing
  deriving DecidableEq, Repr

namespace Value

/-- What a declaration gives to a variable of the type. -/
def zero : DataType → Value
  | .integer => int 0
  | .float => float 0
  | .universal => none

/-- Whether a test succeeds.  What is not a number is not zero, so it does. -/
def isTruthy : Value → Bool
  | int n => n != 0
  | float x => x != 0
  | none => false

/-- The value as a double, rounded to the nearest one. -/
def toFloat? : Value → Option Float
  | int n => some n.toFloat
  | float x => some x
  | none => Option.none

/-- Takes an exact integer result back into 64 bits, or refuses it. -/
def ofInt (n : Int) : Except ValueError Value :=
  if Int64.minValue.toInt ≤ n ∧ n ≤ Int64.maxValue.toInt then .ok (int (Int64.ofInt n))
  else .error .overflow

/-- A sign applied to a value. -/
def unary : UnaryOp → Value → Except ValueError Value
  | _, none => .error .missing
  | .plus, v => .ok v
  | .minus, int n => ofInt (-n.toInt)
  | .minus, float x => .ok (float (-x))

/-- Two values as doubles. -/
def bothFloats (lhs rhs : Value) : Except ValueError (Float × Float) :=
  match lhs.toFloat?, rhs.toFloat? with
  | some x, some y => .ok (x, y)
  | _, _ => .error .missing

/-- Integer arithmetic if both operands are integers, else arithmetic of doubles. -/
def arithmetic (exact : Int → Int → Int) (rounded : Float → Float → Float)
    (lhs rhs : Value) : Except ValueError Value :=
  match lhs, rhs with
  | int m, int n => ofInt (exact m.toInt n.toInt)
  | _, _ => do
    let (x, y) ← bothFloats lhs rhs
    return float (rounded x y)

/-- Division of doubles, refused for a divisor that is zero. -/
def divide (lhs rhs : Value) : Except ValueError Value := do
  let (x, y) ← bothFloats lhs rhs
  if y == 0 then .error .divisionByZero else return float (x / y)

/-- An operator applied to two values. -/
def binary : BinaryOp → Value → Value → Except ValueError Value
  | .add => arithmetic (· + ·) (· + ·)
  | .sub => arithmetic (· - ·) (· - ·)
  | .mul => arithmetic (· * ·) (· * ·)
  | .div => divide

/-- The printed form of a value. -/
def display : Value → String
  | int n => toString n.toInt
  | float x => (Text.Double.ofBits x.toBits).text
  | none => "None"

end Value

end Imperative
