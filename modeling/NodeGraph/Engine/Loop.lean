import NodeGraph.Number.Word

/-!
# Counting loops

The indices of a counting loop. An ascending loop visits `start`, `start + step`, … while below
`finish`; a descending one visits `start - 1`, `start - 1 - step`, … while at or above `finish`.
Where the next index would not fit 64 bits, the loop ends.
-/

namespace NodeGraph

/-- Where a counting loop stands between two passes over its body. -/
structure CountingFrame where
  /-- Index of the next pass; `none` when it would not fit 64 bits. -/
  next : Option Int64
  finish : Int64
  /-- Distance between two indices. -/
  step : Int64
  descending : Bool
deriving DecidableEq, Repr

namespace CountingFrame

/-- The frame before the first pass, or `none` when the step makes no progress: it is zero, or
negative in an ascending loop. The least integer, whose distance does not fit, counts as the
greatest distance. -/
def initial? (start finish step : Int64) (descending : Bool) : Option CountingFrame :=
  if step = 0 ∨ (!descending ∧ step < 0) then none
  else if descending then
    some ⟨int64? (start.toInt - 1), finish, (int64? step.toInt.natAbs).getD Int64.maxValue, true⟩
  else some ⟨some start, finish, step, false⟩

/-- Whether an index lies before the end of the loop. -/
def contains (f : CountingFrame) (index : Int64) : Bool :=
  if f.descending then f.finish ≤ index else index < f.finish

/-- Index of the next pass and the frame after it, or `none` when the loop is done. -/
def advance? (f : CountingFrame) : Option (Int64 × CountingFrame) :=
  match f.next with
  | none => none
  | some index =>
    if f.contains index then
      let next := if f.descending then index.toInt - f.step.toInt else index.toInt + f.step.toInt
      some (index, { f with next := int64? next })
    else none

end CountingFrame

end NodeGraph
