import Raidex.Basic

/-!
# Raidex.Number

The numbers of a limit order: Python's `int` and `float`, and what arithmetic on them raises.

A `float` is a binary64 number. An `int` that meets a `float` in an operation is rounded to one,
which raises where it is too large; comparisons are exact. `float('inf')` and `float('nan')` are
values as any other.
-/

namespace Raidex

abbrev Double := Float.Model

inductive Number where
  | int (n : Int)
  | float (f : Double)
  deriving DecidableEq

namespace Double

open Float.Model (UnpackedFloat)

/-- `float(n)`. -/
def ofInt (n : Int) : Except PyError Double :=
  if (Float.Model.ofInt n).isInf then .error .overflowError else .ok (Float.Model.ofInt n)

/-- `f / g`. -/
def divide (f g : Double) : Except PyError Double :=
  if g == Float.Model.ofInt 0 then .error .zeroDivisionError else .ok (f / g)

/-- `int(f)`: rounds towards zero. -/
def truncate (f : Double) : Except PyError Int :=
  match f.unpack with
  | .notANumber => .error .valueError
  | .infinity _ => .error .overflowError
  | .zero _ => .ok 0
  | .finite sign mantissa exponent _ =>
    let magnitude : Int := mantissa * 2 ^ exponent.toNat / 2 ^ (-exponent).toNat
    match sign with
    | .positive => .ok magnitude
    | .negative => .ok (-magnitude)

/-- The exact comparison of an `int` with a `float`; nothing compares with `nan`. -/
def compareInt (n : Int) (f : Double) : Option Ordering :=
  match f.unpack with
  | .notANumber => none
  | .infinity .positive => some .lt
  | .infinity .negative => some .gt
  | .zero _ => some (compare n 0)
  | .finite sign mantissa exponent _ =>
    let magnitude : Int := mantissa * 2 ^ exponent.toNat
    let scaled := n * 2 ^ (-exponent).toNat
    match sign with
    | .positive => some (compare scaled magnitude)
    | .negative => some (compare scaled (-magnitude))

end Double

namespace Number

def toFloat : Number → Except PyError Double
  | .int n => Double.ofInt n
  | .float f => .ok f

def compare : Number → Number → Option Ordering
  | .int a, .int b => some (Ord.compare a b)
  | .int a, .float g => Double.compareInt a g
  | .float f, .int b => (Double.compareInt b f).map Ordering.swap
  | .float f, .float g => f.compare g

/-- `a <= b` -/
def le (a b : Number) : Bool := (compare a b).any Ordering.isLE

/-- `a < b` -/
def lt (a b : Number) : Bool := compare a b == some .lt

/-- `a == b` -/
def equals (a b : Number) : Bool := compare a b == some .eq

/-- `a > 0` -/
def positive (a : Number) : Bool := compare a (.int 0) == some .gt

/-- `a + b` -/
def add : Number → Number → Except PyError Number
  | .int a, .int b => .ok (.int (a + b))
  | a, b => do return .float ((← a.toFloat) + (← b.toFloat))

/-- `a - n` -/
def subInt : Number → Int → Except PyError Number
  | .int a, n => .ok (.int (a - n))
  | .float f, n => do return .float (f - (← Double.ofInt n))

/-- `a * f` -/
def mulFloat (a : Number) (f : Double) : Except PyError Double := do
  return (← a.toFloat) * f

end Number

/-- `float(a) / b` -/
def quotient (a b : Int) : Except PyError Double := do
  Double.divide (← Double.ofInt a) (← Double.ofInt b)

/-- What a quotient can divide by can be subtracted. -/
theorem Number.subInt_ok {a b : Int} {q : Double} (h : quotient a b = .ok q) (c : Number) :
    ∃ d, c.subInt b = .ok d := by
  cases c with
  | int n => exact ⟨_, rfl⟩
  | float f =>
    cases hb : Double.ofInt b with
    | ok g => exact ⟨_, by rw [subInt, hb]; rfl⟩
    | error e =>
      rw [quotient, hb] at h
      cases ha : Double.ofInt a <;> rw [ha] at h <;> cases h

end Raidex
