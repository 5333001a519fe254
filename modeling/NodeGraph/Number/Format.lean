import NodeGraph.Number.Shortest

/-!
# Writing floats

A `FloatFormat` holds the decisions of one written form: which magnitudes are written
positionally, whether a whole number keeps a fraction, and the texts of the values that are not
finite. `FloatFormat.write` lays the shortest digits out accordingly.
-/

namespace NodeGraph

/-- The decisions of one written form of floats. -/
structure FloatFormat where
  /-- Exponents of the leading digit, from the first up to but not including the second, that are
  written positionally; `none` when all are. -/
  positional : Option (Int × Int)
  /-- A whole number is written with `.0`. -/
  keepsFraction : Bool
  tie : Tie
  nan : String
  infinity : String
  negativeInfinity : String

namespace FloatFormat

/-- Digits of a positional number: the point stands behind, inside or in front of them. -/
def positionalText (form : FloatFormat) (d : Decimal) : List Char :=
  let digits := Nat.toDigits 10 d.digits
  if 0 ≤ d.exponent then
    digits ++ List.replicate d.exponent.toNat '0' ++ if form.keepsFraction then ['.', '0'] else []
  else
    let places := d.exponent.natAbs
    if places < digits.length then
      digits.take (digits.length - places) ++ '.' :: digits.drop (digits.length - places)
    else '0' :: '.' :: List.replicate (places - digits.length) '0' ++ digits

/-- Exponent of the leading digit. -/
def leadingExponent (d : Decimal) : Int :=
  d.exponent + ((Nat.toDigits 10 d.digits).length - 1 : Nat)

/-- One digit, the point and the others where there are any, and a signed exponent. -/
def scientificText (d : Decimal) : List Char :=
  let exponent := leadingExponent d
  let mantissa := match Nat.toDigits 10 d.digits with
    | first :: second :: rest => first :: '.' :: second :: rest
    | digits => digits
  mantissa ++ 'e' :: (if exponent < 0 then '-' else '+') :: Nat.toDigits 10 exponent.natAbs

/-- The text of a decimal in this form. -/
def decimalText (form : FloatFormat) (d : Decimal) : List Char :=
  match form.positional with
  | none => form.positionalText d
  | some (first, last) =>
    if first ≤ leadingExponent d ∧ leadingExponent d < last then form.positionalText d
    else scientificText d

/-- Text of a float: the sign, which zero has too, and the shortest digits that read back. -/
def write (form : FloatFormat) (x : Float) : String :=
  if x.isNaN then form.nan
  else if x.isInf then (if signBit x then form.negativeInfinity else form.infinity)
  else
    let magnitude := Binary.ofFloat x
    let d := if magnitude.mantissa = 0 then ⟨0, 0⟩ else magnitude.shortest form.tie
    let text := form.decimalText d
    String.ofList (if signBit x then '-' :: text else text)

end FloatFormat

end NodeGraph
