import NodeGraph.Number.Binary

/-!
# Shortest decimal that reads back

Among the decimals that round to a given binary64 value, `Binary.shortest` picks one with the
fewest digits, and of those the one nearest to the value. All comparisons are exact.
-/

namespace NodeGraph

/-- The number `digits * 10 ^ exponent`. -/
structure Decimal where
  digits : Nat
  exponent : Int
deriving DecidableEq, Repr

/-- Which of two decimals of the same length wins when both are equally near. -/
inductive Tie where
  | toEven
  | up
deriving DecidableEq, Repr

namespace Decimal

/-- The power `10 ^ n`. -/
def powerOfTen (n : Nat) : Nat := Nat.pow 10 n

/-- Order of `d` and `n * 2 ^ j`, compared in integers. -/
def compareBinary (d : Decimal) (n : Nat) (j : Int) : Ordering :=
  compare ((d.digits * powerOfTen d.exponent.toNat) <<< (-j).toNat)
    ((n * powerOfTen (-d.exponent).toNat) <<< j.toNat)

/-- Moves trailing zeros of the digits into the exponent; `fuel` bounds their number. -/
def stripZeros : Nat → Decimal → Decimal
  | 0, d => d
  | fuel + 1, d =>
    if d.digits ≠ 0 ∧ d.digits % 10 = 0 then stripZeros fuel ⟨d.digits / 10, d.exponent + 1⟩ else d

end Decimal

namespace Binary

/-- Whether a decimal lies in the interval of reals that round to this value, to nearest and ties
to even. The interval reaches halfway to each neighbour and has its ends exactly when the mantissa
is even. -/
def readsBack (b : Binary) (d : Decimal) : Bool :=
  let low := if b.narrowBelow then 4 * b.mantissa - 1 else 4 * b.mantissa - 2
  let high := 4 * b.mantissa + 2
  let closed := b.mantissa % 2 == 0
  let atLow := d.compareBinary low (b.exponent - 2)
  let atHigh := d.compareBinary high (b.exponent - 2)
  (atLow == .gt || (closed && atLow == .eq)) && (atHigh == .lt || (closed && atHigh == .eq))

/-- The value as a decimal, without any rounding. -/
def exact (b : Binary) : Decimal :=
  if b.exponent < 0 then ⟨b.mantissa * Nat.pow 5 b.exponent.natAbs, b.exponent⟩
  else ⟨b.mantissa <<< b.exponent.toNat, 0⟩

/-- The least power of ten above a positive value. The logarithm gives it up to one or two, and
exact comparison decides. -/
def magnitude (b : Binary) : Int :=
  let guess := ((Nat.log2 b.mantissa + b.exponent) * 30103).fdiv 100000
  let above (k : Int) := Decimal.compareBinary ⟨1, k⟩ b.mantissa b.exponent == .gt
  ([guess - 1, guess, guess + 1].find? above).getD (guess + 2)

/-- The neighbour of the value on the grid of multiples of `10 ^ scale` that is at most the value. -/
def gridBelow (b : Binary) (scale : Int) : Nat :=
  ((b.mantissa * Decimal.powerOfTen (-scale).toNat) <<< b.exponent.toNat) /
    (Decimal.powerOfTen scale.toNat <<< (-b.exponent).toNat)

/-- The decimal on the grid of `10 ^ scale` that reads back and is nearest to the value, if any. -/
def onGrid (b : Binary) (tie : Tie) (scale : Int) : Option Decimal :=
  let below := b.gridBelow scale
  let low : Decimal := ⟨below, scale⟩
  let high : Decimal := ⟨below + 1, scale⟩
  match b.readsBack low, b.readsBack high with
  | false, false => none
  | true, false => some low
  | false, true => some high
  | true, true =>
    -- twice the value against the sum of the two candidates
    match Decimal.compareBinary ⟨2 * below + 1, scale⟩ (2 * b.mantissa) b.exponent, tie with
    | .gt, _ => some low
    | .lt, _ => some high
    | .eq, .up => some high
    | .eq, .toEven => some (if below % 2 = 0 then low else high)

/-- A decimal of the fewest digits that reads back to this positive value, nearest to it, without
trailing zeros. Seventeen digits always suffice; the exact value stands in should they not. -/
def shortest (b : Binary) (tie : Tie) : Decimal :=
  let top := b.magnitude
  let found := (List.range 17).findSome? fun n => b.onGrid tie (top - (n + 1 : Nat))
  (found.getD b.exact).stripZeros 800

end Binary

end NodeGraph
