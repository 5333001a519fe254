/-!
# Decimal numerals

A `Numeral` is a decimal number as it is written: digits before and behind the point and an
exponent. It has two float values. `Numeral.nearest` is the float nearest to the number.
`Numeral.scaled?` collects digits in 64 bits and scales once by a power of ten; it is what a JSON
number stands for, and it refuses numbers that overflow.
-/

namespace NodeGraph

/-- A decimal number as written. The digits are ASCII digits; a missing fraction is empty. -/
structure Numeral where
  negative : Bool
  whole : List Char
  fraction : List Char
  exponent : Option Int
deriving DecidableEq, Repr

namespace Numeral

/-- Takes an optional sign off the front; `true` for a minus. -/
def splitSign : List Char → Bool × List Char
  | '-' :: rest => (true, rest)
  | '+' :: rest => (false, rest)
  | rest => (false, rest)

/-- The digits at the front, and what follows them. -/
def splitDigits (cs : List Char) : List Char × List Char :=
  (cs.takeWhile Char.isDigit, cs.dropWhile Char.isDigit)

/-- Value of a nonempty run of digits that makes up the whole text. -/
def natural? (cs : List Char) : Option Nat :=
  if cs ≠ [] ∧ cs.all Char.isDigit then some (Nat.ofDigitChars 10 cs 0) else none

/-- Value of an optional sign and digits that make up the whole text. -/
def integer? (cs : List Char) : Option Int :=
  let (negative, digits) := splitSign cs
  (natural? digits).map fun n => if negative then -(n : Int) else n

/-- A numeral that makes up the whole text: an optional sign, digits with at most one point among
or around them, and an optional exponent. -/
def ofText? (cs : List Char) : Option Numeral :=
  let (negative, body) := splitSign cs
  let (whole, rest) := splitDigits body
  let (fraction, rest) := match rest with
    | '.' :: rest => splitDigits rest
    | rest => ([], rest)
  if whole = [] ∧ fraction = [] then none
  else match rest with
    | [] => some ⟨negative, whole, fraction, none⟩
    | mark :: rest =>
      if mark = 'e' ∨ mark = 'E' then
        (integer? rest).map fun e => ⟨negative, whole, fraction, some e⟩
      else none

/-- A float with its sign turned over when `negative`. -/
def signed (negative : Bool) (x : Float) : Float := if negative then -x else x

/-- The float nearest to the number, ties to even; an infinity beyond the greatest. Numbers that
are far out of range are decided by their size alone. -/
def nearest (n : Numeral) : Float :=
  let digits := Nat.ofDigitChars 10 (n.whole ++ n.fraction) 0
  let exponent := n.exponent.getD 0 - n.fraction.length
  let size := exponent + (Nat.toDigits 10 digits).length
  signed n.negative <|
    if digits = 0 ∨ size < -330 then 0.0
    else if 310 < size then 1.0 / 0.0
    else Float.ofScientific digits (decide (exponent < 0)) exponent.natAbs

/-- Appends digits to a significand while it stays below `2 ^ 64`; also counts those taken. -/
def absorb (significand : Nat) : List Char → Nat × Nat
  | [] => (significand, 0)
  | c :: rest =>
    let next := 10 * significand + (c.toNat - '0'.toNat)
    if next < UInt64.size then
      let (result, taken) := absorb next rest
      (result, taken + 1)
    else (significand, 0)

/-- The power of ten `10 ^ n` as a float. -/
def powerOfTen (n : Nat) : Float := Float.ofScientific 1 false n

/-- Scales by a power of ten in one multiplication or division, after steps of `10 ^ 308` where
the exponent is lower. No value when the product is not finite. -/
def scale? (x : Float) (exponent : Int) : Option Float :=
  if exponent.natAbs ≤ 308 then
    if 0 ≤ exponent then
      let product := x * powerOfTen exponent.toNat
      if product.isInf then none else some product
    else some (x / powerOfTen exponent.natAbs)
  else if x == 0.0 then some x
  else if 0 ≤ exponent then none
  else scale? (x / powerOfTen 308) (exponent + 308)
termination_by exponent.natAbs
decreasing_by omega

/-- The significand collected in 64 bits, and the power of ten it is to be scaled by. Whole digits
that no longer fit count as zeros, and digits of the fraction that do not fit are dropped. -/
def collect (n : Numeral) : Nat × Int :=
  let (significand, taken) := absorb 0 n.whole
  let (significand, places) := absorb significand n.fraction
  (significand, (n.whole.length - taken : Nat) - (places : Int))

/-- The float made of the collected significand and its scale. An exponent beyond 32 bits stands
for zero, or for an overflow when it is positive and the significand is not zero. -/
def scaled? (n : Numeral) : Option Float :=
  let (significand, shift) := n.collect
  let exponent := n.exponent.getD 0
  (signed n.negative ·) <$>
    if 0x80000000 ≤ exponent.natAbs then
      if significand ≠ 0 ∧ 0 < exponent then none else some 0.0
    else scale? (Float.ofNat significand) (exponent + shift)

/-- The integer written, if there is neither fraction nor exponent; `-0` is no integer. -/
def integral? (n : Numeral) : Option Int :=
  let magnitude := Nat.ofDigitChars 10 n.whole 0
  if n.fraction ≠ [] ∨ n.exponent ≠ none ∨ (n.negative ∧ magnitude = 0) then none
  else some (if n.negative then -(magnitude : Int) else magnitude)

end Numeral

end NodeGraph
