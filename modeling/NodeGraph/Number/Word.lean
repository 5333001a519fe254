/-!
# Integers of 64 bits

Which integers have a 64-bit form. A conversion that does not fit gives nothing instead of wrapping
around.
-/

namespace NodeGraph

/-- The integer as 64 bits with sign, if it fits. -/
def int64? (i : Int) : Option Int64 :=
  if Int64.minValue.toInt ≤ i ∧ i ≤ Int64.maxValue.toInt then some (Int64.ofInt i) else none

/-- A 64-bit integer is the form of its own value and of no other integer. -/
theorem int64?_eq_some_iff {i : Int} {x : Int64} : int64? i = some x ↔ x.toInt = i := by
  unfold int64?
  constructor
  · intro h
    split at h
    case isTrue fits =>
      obtain rfl := Option.some.inj h
      rcases fits with ⟨low, high⟩
      rw [Int64.toInt_minValue] at low
      rw [Int64.toInt_maxValue] at high
      exact Int64.toInt_ofInt_of_le low (Int.lt_of_le_sub_one high)
    case isFalse => cases h
  · rintro rfl
    rw [if_pos ⟨Int64.minValue_le_toInt x, Int64.toInt_le x⟩, Int64.ofInt_toInt]

end NodeGraph
