import NodeGraph.Number.Format
import NodeGraph.Number.Numeral
import NodeGraph.Text.Blank
import NodeGraph.Value.Basic

/-!
# Coercions of values

Every value can be taken as a float, an integer, a truth value or a text. Texts are read with the
blanks around them removed; a text that holds no number counts as zero.
-/

namespace NodeGraph

namespace Text

/-- The special float named by a text, in letters of either case. -/
def specialFloat? (cs : List Char) : Option Float :=
  let (negative, word) := Numeral.splitSign cs
  let word := word.map Char.toLower
  if word = "inf".toList ∨ word = "infinity".toList then some (Numeral.signed negative (1.0 / 0.0))
  else if word = "nan".toList then some (0.0 / 0.0)
  else none

/-- The float a text stands for: the one nearest to the numeral it holds, zero when there is none. -/
def toFloat (s : String) : Float :=
  let cs := trim s.toList
  ((specialFloat? cs).orElse fun _ => (Numeral.ofText? cs).map Numeral.nearest).getD 0.0

/-- The integer a text holds, zero when there is none or when it does not fit 64 bits. -/
def toInt (s : String) : Int64 :=
  ((Numeral.integer? (trim s.toList)).bind int64?).getD 0

end Text

namespace Value

/-- The value as a float. -/
def toFloat : Value → Float
  | .empty => 0.0
  | .bool b => if b then 1.0 else 0.0
  | .int i => Float.ofInt i.toInt
  | .float x => x
  | .text s => Text.toFloat s

/-- The value as an integer; floats lose their fraction and are clamped to 64 bits. -/
def toInt : Value → Int64
  | .empty => 0
  | .bool b => if b then 1 else 0
  | .int i => i
  | .float x => truncate x
  | .text s => Text.toInt s

/-- Whether a condition with this value holds. Zero, NaN, the empty text and `false` do not. -/
def isTruthy : Value → Bool
  | .empty => false
  | .bool b => b
  | .int i => i != 0
  | .float x => !(x == 0.0) && !x.isNaN
  | .text s => s != "" && s != "false"

/-- Displayed floats are positional at every size, whole numbers bare; of two nearest decimals the
upper is taken. -/
def displayFormat : FloatFormat where
  positional := none
  keepsFraction := false
  tie := .up
  nan := "NaN"
  infinity := "inf"
  negativeInfinity := "-inf"

/-- The value as displayed text; no value is shown as the empty text. -/
def display : Value → String
  | .empty => ""
  | .bool b => if b then "true" else "false"
  | .int i => i.toInt.repr
  | .float x => displayFormat.write x
  | .text s => s

end Value

end NodeGraph
