import NodeGraph.Value.Coercion

/-!
# Comparison

Two texts compare character by character, integral operands as integers, and all other pairs as
floats. Where NaN leaves a pair unordered, it counts as different and nothing else.
-/

namespace NodeGraph

/-- Comparison operators. -/
inductive Comparison where
  | less
  | lessEq
  | equal
  | notEqual
  | greaterEq
  | greater
deriving DecidableEq, Repr

/-- Order of two floats; `none` when one of them is NaN. -/
def compareFloats? (x y : Float) : Option Ordering :=
  if x < y then some .lt else if x == y then some .eq else if y < x then some .gt else none

/-- Order of two values, by the rule that their kinds select. -/
def Value.compare? : Value → Value → Option Ordering
  | .text s, .text t => some (compare s t)
  | a, b =>
    if a.isIntegral && b.isIntegral then some (compare a.toInt.toInt b.toInt.toInt)
    else compareFloats? a.toFloat b.toFloat

namespace Comparison

/-- The operators in catalog order. -/
def all : List Comparison := [less, lessEq, equal, notEqual, greaterEq, greater]

def name : Comparison → String
  | less => "Less"
  | lessEq => "Less or Equal"
  | equal => "Equal"
  | notEqual => "Not Equal"
  | greaterEq => "Greater or Equal"
  | greater => "Greater"

/-- Whether the operator accepts this order of its operands. -/
def accepts : Comparison → Ordering → Bool
  | less, o => o == .lt
  | lessEq, o => o != .gt
  | equal, o => o == .eq
  | notEqual, o => o != .eq
  | greaterEq, o => o != .lt
  | greater, o => o == .gt

/-- Applies the operator. -/
def apply (op : Comparison) (a b : Value) : Value :=
  match a.compare? b with
  | some order => .bool (op.accepts order)
  | none => .bool (op == notEqual)

end Comparison

end NodeGraph
