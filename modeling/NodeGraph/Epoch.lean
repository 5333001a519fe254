/-!
# Epochs

A graph numbers its epochs. What was read or computed is stamped with the number of its epoch and
is trusted only while that epoch is the current one, so opening an epoch makes all of it stale at
once. When the numbers run out they start again at zero; then every stamp has to be discarded,
since an old one could equal a new number.
-/

namespace NodeGraph

/-- The current epoch of a graph, known by its number. -/
structure Epoch where
  number : Int := 0
deriving DecidableEq, Repr

namespace Epoch

/-- Stamp of what must never be trusted. -/
def stale : Int := -1

/-- The last number of an epoch counter with 64 bits. -/
def lastNumber : Int := Int64.maxValue.toInt

/-- How the next epoch was opened. -/
inductive Advance where
  | stepped
  /-- The numbers started again at zero, so earlier stamps mean nothing. -/
  | wrapped
deriving DecidableEq, Repr

/-- Opens the next epoch. Beyond `last`, where there is a last number, and below zero the count
starts again at zero. -/
def advance (e : Epoch) (last : Option Int) : Advance × Epoch :=
  let next := e.number + 1
  if next < 0 ∨ last.any (· < next) then (.wrapped, ⟨0⟩) else (.stepped, ⟨next⟩)

/-- Whatever the count was before, it is not negative after it has advanced. -/
theorem advance_nonneg (e : Epoch) (last : Option Int) : 0 ≤ (e.advance last).2.number := by
  simp only [advance]
  split
  · exact Int.le_refl 0
  · simp_all

/-- A count that stays below a last number never passes it. -/
theorem advance_le {e : Epoch} {last : Int} (h : 0 ≤ last) :
    (e.advance (some last)).2.number ≤ last := by
  simp only [advance]
  split
  · exact h
  · simp_all

/-- Whether a stamp was taken in this epoch. -/
def isCurrent (e : Epoch) (stamp : Int) : Bool := stamp != stale && stamp == e.number

@[simp]
theorem isCurrent_stale (e : Epoch) : e.isCurrent stale = false := by simp [isCurrent]

end Epoch

end NodeGraph
