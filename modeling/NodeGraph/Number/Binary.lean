import NodeGraph.Number.Word

/-!
# Binary64 values as exact numbers

The magnitude of a finite float is `mantissa * 2 ^ exponent`, a natural scaled by a power of two.
Printing, truncation and remainder are computed on this form in exact integer arithmetic.
-/

namespace NodeGraph

/-- The magnitude of a finite binary64 value, `mantissa * 2 ^ exponent`. -/
structure Binary where
  mantissa : Nat
  exponent : Int
deriving DecidableEq, Repr

namespace Binary

/-- The mantissas of normal numbers have 53 bits; this is the least of them. -/
def leastNormal : Nat := 0x10000000000000

/-- Magnitude encoded by a bit pattern. The sign bit is ignored, and so is the difference between
a number and the infinities and NaN: those are told apart before this is asked. -/
def ofBits (bits : UInt64) : Binary :=
  let field := ((bits >>> 52) &&& 0x7FF).toNat
  let fraction := (bits &&& 0xFFFFFFFFFFFFF).toNat
  if field = 0 then ⟨fraction, -1074⟩ else ⟨leastNormal + fraction, (field : Int) - 1075⟩

/-- Magnitude of a finite float. -/
def ofFloat (x : Float) : Binary := ofBits x.toBits

/-- The neighbour below is half as far away as the neighbour above: the value is a power of two
above the least normal number. -/
def narrowBelow (b : Binary) : Bool := b.mantissa == leastNormal && decide (-1074 < b.exponent)

/-- Bit pattern of a magnitude that some binary64 value has: the mantissa is moved to the left
until it fills 53 bits or the exponent reaches the least one. -/
def toBits (b : Binary) : UInt64 :=
  if b.mantissa = 0 then 0
  else
    let room := 52 - (Nat.log2 b.mantissa : Int)
    let shift := (min room (b.exponent + 1074)).toNat
    let mantissa := b.mantissa <<< shift
    if mantissa < leastNormal then UInt64.ofNat mantissa
    else UInt64.ofNat ((b.exponent - shift + 1075).toNat * leastNormal + (mantissa - leastNormal))

/-- Integer part of a magnitude. -/
def floor (b : Binary) : Nat :=
  if b.exponent < 0 then b.mantissa >>> b.exponent.natAbs else b.mantissa <<< b.exponent.toNat

/-- Exact remainder of two magnitudes: both are integers on the finer of the two scales. -/
def remainder (a b : Binary) : Binary :=
  let scale := min a.exponent b.exponent
  ⟨(a.mantissa <<< (a.exponent - scale).toNat) % (b.mantissa <<< (b.exponent - scale).toNat), scale⟩

end Binary

/-- Whether the sign bit of a float is set; it can be for zero too. -/
def signBit (x : Float) : Bool := x.toBits >>> 63 == 1

/-- The integer part of a float, clamped to 64 bits; zero for NaN. -/
def truncate (x : Float) : Int64 :=
  if x.isNaN then 0
  else
    let limit := if signBit x then Int64.minValue else Int64.maxValue
    if x.isInf then limit
    else
      let whole : Int := (Binary.ofFloat x).floor
      (int64? (if signBit x then -whole else whole)).getD limit

/-- Remainder of the division that rounds toward zero; it takes the sign of the dividend. It is
exact, so no rounding is involved: NaN when the dividend is infinite or the divisor zero, and the
dividend itself when only the divisor is infinite. -/
def remainder (x y : Float) : Float :=
  if x.isNaN || y.isNaN || x.isInf || y == 0.0 then 0.0 / 0.0
  else if y.isInf then x
  else
    let bits := ((Binary.ofFloat x).remainder (Binary.ofFloat y)).toBits
    Float.ofBits (if signBit x then bits ||| 0x8000000000000000 else bits)

end NodeGraph
