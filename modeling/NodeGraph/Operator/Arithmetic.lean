import NodeGraph.Value.Coercion

/-!
# Arithmetic

Integral operands give integers with 64-bit wrap-around; any other operand turns the operation
into float arithmetic, and so do a zero divisor and an exponent that is negative or too large.
-/

namespace NodeGraph

/-- Binary arithmetic operators. -/
inductive Arithmetic where
  | add
  | sub
  | mul
  | div
  | mod
  | min
  | max
  | pow
deriving DecidableEq, Repr

namespace Arithmetic

/-- The operators in catalog order. -/
def all : List Arithmetic := [add, sub, mul, div, mod, min, max, pow]

def name : Arithmetic → String
  | add => "Add"
  | sub => "Subtract"
  | mul => "Multiply"
  | div => "Divide"
  | mod => "Modulo"
  | min => "Min"
  | max => "Max"
  | pow => "Power"

/-- A power with 64-bit wrap-around, by repeated squaring; `bits` bounds the length of the exponent. -/
def wrappingPower (base : Int64) : (bits exponent : Nat) → Int64
  | 0, _ => 1
  | bits + 1, exponent =>
    if exponent = 0 then 1
    else
      let half := wrappingPower (base * base) bits (exponent / 2)
      if exponent % 2 = 1 then half * base else half

/-- The integer result, where there is one. Division and remainder round toward zero and need a
divisor; a power needs an exponent of 32 bits. -/
def onInts? (op : Arithmetic) (a b : Int64) : Option Int64 :=
  match op with
  | add => some (a + b)
  | sub => some (a - b)
  | mul => some (a * b)
  | div => if b = 0 then none else some (a / b)
  | mod => if b = 0 then none else some (a % b)
  | min => some (if a ≤ b then a else b)
  | max => some (if a ≤ b then b else a)
  | pow =>
    let exponent := b.toInt
    if 0 ≤ exponent ∧ exponent < UInt32.size then some (wrappingPower a 32 exponent.toNat) else none

/-- The lesser of two floats; a number wins over NaN. -/
def lesser (x y : Float) : Float :=
  if x.isNaN then y else if y.isNaN then x else if y < x then y else x

/-- The greater of two floats; a number wins over NaN. -/
def greater (x y : Float) : Float :=
  if x.isNaN then y else if y.isNaN then x else if x < y then y else x

/-- The float result. -/
def onFloats (op : Arithmetic) (x y : Float) : Float :=
  match op with
  | add => x + y
  | sub => x - y
  | mul => x * y
  | div => x / y
  | mod => remainder x y
  | min => lesser x y
  | max => greater x y
  | pow => x.pow y

/-- Applies the operator: in integers when both operands are integral and there is an integer
result, otherwise in floats. -/
def apply (op : Arithmetic) (a b : Value) : Value :=
  let onInts := if a.isIntegral && b.isIntegral then op.onInts? a.toInt b.toInt else none
  match onInts with
  | some i => .int i
  | none => .float (op.onFloats a.toFloat b.toFloat)

end Arithmetic

end NodeGraph
