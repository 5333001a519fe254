import Mathlib.Data.Int.ModEq
import Mathlib.Algebra.Ring.Int.Defs
import NodeGraph.Operator.Arithmetic

/-!
# Arithmetic on integral operands

The integer that an operator gives for integral operands is the result in unbounded integers,
wrapped around to 64 bits (`Arithmetic.onInts?_eq`). Repeated squaring wraps around at each step and
still gives the wrapped power. There is an integer exactly where there is a result in unbounded
integers, but for powers whose exponent does not fit 32 bits.
-/

namespace NodeGraph

/-- To be congruent modulo 2⁶⁴ determines a 64-bit integer. -/
theorem toInt_modEq_iff {i : Int64} {z : Int} : i.toInt ≡ z [ZMOD 2 ^ 64] ↔ i = Int64.ofInt z := by
  constructor
  · intro congruent
    have wrapped : z.bmod (2 ^ 64) = i.toInt.bmod (2 ^ 64) := by
      rw [← Int.emod_bmod z, ← Int.emod_bmod i.toInt]
      exact congrArg (Int.bmod · (2 ^ 64)) congruent.symm
    have own := (Int64.ofInt_eq_iff_bmod_eq_toInt _ _).mp (Int64.ofInt_toInt i)
    exact ((Int64.ofInt_eq_iff_bmod_eq_toInt _ _).mpr (wrapped.trans own)).symm
  · rintro rfl
    rw [Int64.toInt_ofInt]
    exact Int.bmod_emod

/-- Wrapping around at every step does not show in the quotient, the least integer divided by -1
included. -/
theorem int64_div_eq (a b : Int64) : a / b = Int64.ofInt (a.toInt.tdiv b.toInt) := by
  rw [eq_comm, Int64.ofInt_eq_iff_bmod_eq_toInt, Int64.toInt_div]

theorem int64_mod_eq (a b : Int64) : a % b = Int64.ofInt (a.toInt.tmod b.toInt) := by
  rw [← Int64.toInt_mod, Int64.ofInt_toInt]

namespace Value

/-- The integer that an integral value stands for. -/
def integer? : Value → Option Int
  | .int i => some i.toInt
  | .bool b => some (if b then 1 else 0)
  | .empty => some 0
  | .float _ | .text _ => none

theorem integer?_eq_some_iff {v : Value} {x : Int} :
    v.integer? = some x ↔ v.isIntegral = true ∧ v.toInt.toInt = x := by
  cases v with
  | bool b => cases b <;> simp [integer?, isIntegral, toInt]
  | _ => simp [integer?, isIntegral, toInt]

end Value

namespace Arithmetic

/-- The result in unbounded integers, where there is one. Quotients are rounded toward zero, and
remainders have the sign of the dividend. -/
def unbounded? (op : Arithmetic) (x y : Int) : Option Int :=
  match op with
  | add => some (x + y)
  | sub => some (x - y)
  | mul => some (x * y)
  | div => if y = 0 then none else some (x.tdiv y)
  | mod => if y = 0 then none else some (x.tmod y)
  | min => some (Min.min x y)
  | max => some (Max.max x y)
  | pow => if 0 ≤ y then some (x ^ y.toNat) else none

/-- Repeated squaring is exact but for the wrapping around. -/
theorem wrappingPower_ofInt (x : Int) (bits exponent : Nat) (fits : exponent < 2 ^ bits) :
    wrappingPower (Int64.ofInt x) bits exponent = Int64.ofInt (x ^ exponent) := by
  induction bits generalizing x exponent with
  | zero =>
    obtain rfl : exponent = 0 := by omega
    rw [pow_zero]
    rfl
  | succ bits ih =>
    have halved : exponent / 2 < 2 ^ bits := by omega
    have squared := ih (x * x) (exponent / 2) halved
    rw [Int64.ofInt_mul] at squared
    have power : x ^ exponent = (x * x) ^ (exponent / 2) * x ^ (exponent % 2) := by
      rw [← pow_two, ← pow_mul, ← pow_add, Nat.div_add_mod]
    unfold wrappingPower
    split
    next zero =>
      rw [zero, pow_zero]
      rfl
    next =>
      dsimp only
      rw [squared, power]
      split
      next odd => rw [odd, pow_one, Int64.ofInt_mul]
      next even =>
        have even : exponent % 2 = 0 := by omega
        rw [even, pow_zero, mul_one]

/-- The integer result is the result in unbounded integers, wrapped around. Exponents that do not
fit 32 bits give none. -/
theorem onInts?_eq (op : Arithmetic) (a b : Int64) :
    op.onInts? a b = if op = pow ∧ 2 ^ 32 ≤ b.toInt then none
      else (op.unbounded? a.toInt b.toInt).map Int64.ofInt := by
  have zero : b.toInt = 0 ↔ b = 0 := by
    rw [← Int64.toInt_zero, Int64.toInt_inj]
  cases op with
  | add => simp [onInts?, unbounded?, Int64.ofInt_add]
  | sub => simp [onInts?, unbounded?, Int64.ofInt_sub]
  | mul => simp [onInts?, unbounded?, Int64.ofInt_mul]
  | div =>
    by_cases none : b = 0 <;> simp [onInts?, unbounded?, zero, none, int64_div_eq]
  | mod =>
    by_cases none : b = 0 <;> simp [onInts?, unbounded?, zero, none, int64_mod_eq]
  | min =>
    simp only [onInts?, unbounded?, Int64.le_iff_toInt_le, Int.min_def]
    split <;> simp
  | max =>
    simp only [onInts?, unbounded?, Int64.le_iff_toInt_le, Int.max_def]
    split <;> simp
  | pow =>
    have size : (UInt32.size : Int) = 2 ^ 32 := rfl
    simp only [onInts?, unbounded?, size, true_and]
    by_cases large : 2 ^ 32 ≤ b.toInt
    · rw [if_pos large, if_neg (by omega)]
    · by_cases negative : b.toInt < 0
      · rw [if_neg large, if_neg (by omega), if_neg (by omega), Option.map_none]
      · have power := wrappingPower_ofInt a.toInt 32 b.toInt.toNat (by omega)
        rw [Int64.ofInt_toInt] at power
        rw [if_neg large, if_pos (by omega), if_pos (by omega), power, Option.map_some]

/-- A quotient rounded toward zero. Without a divisor there is none to be given. -/
def quotient? (a b : Int64) : Option Int64 := if b = 0 then none else some (a / b)

/-- What remains of the dividend. Without a divisor there is none to be given. -/
def remainder? (a b : Int64) : Option Int64 := if b = 0 then none else some (a % b)

/-- The integer result, if there is one, told with quotients and remainders that may fail: nothing
at all is given as soon as one is asked for that does not exist. -/
def checkedOnInts? (op : Arithmetic) (a b : Int64) : Option (Option Int64) :=
  match op with
  | div => if b = 0 then some none else (quotient? a b).map some
  | mod => if b = 0 then some none else (remainder? a b).map some
  | op => some (op.onInts? a b)

/-- Applies the operator, where nothing fails that is asked for on the way. -/
def applyChecked? (op : Arithmetic) (a b : Value) : Option Value :=
  let onFloats := Value.float (op.onFloats a.toFloat b.toFloat)
  if a.isIntegral && b.isIntegral then
    (op.checkedOnInts? a.toInt b.toInt).map fun onInts => (onInts.map .int).getD onFloats
  else some onFloats

/-- No quotient or remainder is asked for that does not exist. -/
theorem checkedOnInts?_eq (op : Arithmetic) (a b : Int64) :
    op.checkedOnInts? a b = some (op.onInts? a b) := by
  cases op with
  | div => by_cases none : b = 0 <;> simp [checkedOnInts?, quotient?, onInts?, none]
  | mod => by_cases none : b = 0 <;> simp [checkedOnInts?, remainder?, onInts?, none]
  | add | sub | mul | min | max | pow => rfl

theorem applyChecked?_eq (op : Arithmetic) (a b : Value) :
    op.applyChecked? a b = some (op.apply a b) := by
  unfold applyChecked? apply
  rw [checkedOnInts?_eq]
  cases a.isIntegral && b.isIntegral with
  | false => rfl
  | true => cases op.onInts? a.toInt b.toInt <;> rfl

section Integers

variable {op : Arithmetic} {a b : Value} {x y : Int}

theorem apply_eq_int_iff (left : a.integer? = some x) (right : b.integer? = some y) {i : Int64} :
    op.apply a b = .int i ↔
      ¬ (op = pow ∧ 2 ^ 32 ≤ y) ∧ ∃ z, op.unbounded? x y = some z ∧ i = Int64.ofInt z := by
  obtain ⟨integral, rfl⟩ := Value.integer?_eq_some_iff.mp left
  obtain ⟨integral', rfl⟩ := Value.integer?_eq_some_iff.mp right
  have result := op.onInts?_eq a.toInt b.toInt
  unfold apply
  rw [integral, integral']
  dsimp only [Bool.and_self, if_true]
  rw [result]
  by_cases large : op = pow ∧ 2 ^ 32 ≤ b.toInt.toInt
  · rw [if_pos large]
    constructor
    · rintro ⟨⟩
    · rintro ⟨small, _⟩
      exact absurd large small
  · rw [if_neg large]
    cases op.unbounded? a.toInt.toInt b.toInt.toInt with
    | none =>
      constructor
      · rintro ⟨⟩
      · rintro ⟨_, _, ⟨⟩, _⟩
    | some z =>
      constructor
      · intro result
        exact ⟨large, z, rfl, (Value.int.inj result).symm⟩
      · rintro ⟨_, _, ⟨⟩, rfl⟩
        rfl

/-- A result in unbounded integers is given wrapped around. -/
theorem apply_of_unbounded? (left : a.integer? = some x) (right : b.integer? = some y) {z : Int}
    (exact : op.unbounded? x y = some z) (small : op = pow → y < 2 ^ 32) :
    op.apply a b = .int (Int64.ofInt z) := by
  refine (apply_eq_int_iff left right).mpr ⟨?_, z, exact, rfl⟩
  rintro ⟨power, large⟩
  have bound := small power
  omega

theorem isSome_unbounded?_iff : (op.unbounded? x y).isSome ↔
    ¬ ((op = div ∨ op = mod) ∧ y = 0) ∧ ¬ (op = pow ∧ y < 0) := by
  cases op with
  | div => by_cases none : y = 0 <;> simp [unbounded?, none]
  | mod => by_cases none : y = 0 <;> simp [unbounded?, none]
  | pow =>
    by_cases negative : y < 0
    · simp [unbounded?, negative]
    · have nonneg : 0 ≤ y := by omega
      simp [unbounded?, nonneg]
  | add | sub | mul | min | max => simp [unbounded?]

/-- There is an integer where there is a result in unbounded integers, but for powers whose exponent
does not fit 32 bits. -/
theorem exists_int_iff (left : a.integer? = some x) (right : b.integer? = some y) :
    (∃ i, op.apply a b = .int i) ↔ (op.unbounded? x y).isSome ∧ ¬ (op = pow ∧ 2 ^ 32 ≤ y) := by
  rw [Option.isSome_iff_exists]
  constructor
  · rintro ⟨i, result⟩
    obtain ⟨small, z, exact, _⟩ := (apply_eq_int_iff left right).mp result
    exact ⟨⟨z, exact⟩, small⟩
  · rintro ⟨⟨z, exact⟩, small⟩
    exact ⟨_, (apply_eq_int_iff left right).mpr ⟨small, z, exact, rfl⟩⟩

/-- The quotient times the divisor, and the remainder added, is the dividend again. -/
theorem apply_div_mul_add_mod (left : a.integer? = some x) (right : b.integer? = some y)
    (divisor : y ≠ 0) :
    add.apply (mul.apply (div.apply a b) b) (mod.apply a b) = .int (Int64.ofInt x) := by
  have quotient : div.apply a b = .int (Int64.ofInt (x.tdiv y)) :=
    apply_of_unbounded? left right (if_neg divisor) nofun
  have remainder : mod.apply a b = .int (Int64.ofInt (x.tmod y)) :=
    apply_of_unbounded? left right (if_neg divisor) nofun
  have product : mul.apply (.int (Int64.ofInt (x.tdiv y))) b =
      .int (Int64.ofInt ((Int64.ofInt (x.tdiv y)).toInt * y)) :=
    apply_of_unbounded? rfl right rfl nofun
  have sum (i j : Int64) : add.apply (.int i) (.int j) = .int (Int64.ofInt (i.toInt + j.toInt)) :=
    apply_of_unbounded? rfl rfl rfl nofun
  rw [quotient, remainder, product, sum, Int64.ofInt_add, Int64.ofInt_toInt, Int64.ofInt_toInt,
    Int64.ofInt_mul, Int64.ofInt_toInt, ← Int64.ofInt_mul, ← Int64.ofInt_add,
    Int.tdiv_mul_add_tmod]

/-- An integer that an operator gives for integral operands is the result in unbounded integers,
modulo 2⁶⁴. Sums, differences, products, minima and maxima are always given as integers, quotients
and remainders where there is a divisor. Quotient and remainder make up the dividend, and nothing
fails for any operands. -/
theorem integral_results_exact (left : a.integer? = some x) (right : b.integer? = some y) :
    (∀ op i, apply op a b = .int i →
      ∃ z, unbounded? op x y = some z ∧ ∀ j : Int64, j.toInt ≡ z [ZMOD 2 ^ 64] ↔ j = i) ∧
    (∀ op ∈ [add, sub, mul, min, max], ∃ i, apply op a b = .int i) ∧
    (∀ op ∈ [div, mod], (∃ i, apply op a b = .int i) ↔ y ≠ 0) ∧
    (y ≠ 0 → add.apply (mul.apply (div.apply a b) b) (mod.apply a b) = .int (Int64.ofInt x)) ∧
    ∀ op, applyChecked? op a b = some (apply op a b) := by
  refine ⟨?_, ?_, ?_, apply_div_mul_add_mod left right, fun op => applyChecked?_eq op a b⟩
  · intro op i result
    obtain ⟨_, z, exact, rfl⟩ := (apply_eq_int_iff left right).mp result
    exact ⟨z, exact, fun j => toInt_modEq_iff⟩
  · intro op member
    rw [exists_int_iff left right, isSome_unbounded?_iff]
    cases op <;> simp at member ⊢
  · intro op member
    rw [exists_int_iff left right, isSome_unbounded?_iff]
    cases op <;> simp at member ⊢

/-- The least integer divided by -1 wraps around to itself and leaves no remainder. -/
theorem integral_results_exact_least :
    (Value.int Int64.minValue).integer? = some (-2 ^ 63) ∧ (Value.int (-1)).integer? = some (-1) ∧
      (∃ i, apply div (.int Int64.minValue) (.int (-1)) = .int i ∧
        ∃ z, unbounded? div (-2 ^ 63) (-1) = some z ∧ z = 2 ^ 63 ∧ i.toInt ≡ z [ZMOD 2 ^ 64]) ∧
      add.apply (mul.apply (div.apply (.int Int64.minValue) (.int (-1))) (.int (-1)))
        (mod.apply (.int Int64.minValue) (.int (-1))) = .int (Int64.ofInt (-2 ^ 63)) ∧
      applyChecked? div (.int Int64.minValue) (.int 0) =
        some (apply div (.int Int64.minValue) (.int 0)) := by
  have left : (Value.int Int64.minValue).integer? = some (-2 ^ 63) := by decide
  have right : (Value.int (-1)).integer? = some (-1) := by decide
  have zero : (Value.int 0).integer? = some 0 := by decide
  obtain ⟨wraps, _, divides, restores, _⟩ := integral_results_exact left right
  obtain ⟨i, quotient⟩ := (divides div (by simp)).mpr (by decide)
  obtain ⟨z, exact, unique⟩ := wraps div i quotient
  have value : unbounded? div (-2 ^ 63) (-1) = some (2 ^ 63) := by decide
  obtain rfl := Option.some.inj (exact.symm.trans value)
  exact ⟨left, right, ⟨i, quotient, _, value, rfl, (unique i).mpr rfl⟩, restores (by decide),
    (integral_results_exact left zero).2.2.2.2 div⟩

/-- Which results are integers. Where there is none in unbounded integers there is none, and where
there is one it is given, unless it is a power whose exponent does not fit 32 bits. -/
theorem integral_results_iff (left : a.integer? = some x) (right : b.integer? = some y)
    (op : Arithmetic) :
    ((unbounded? op x y).isSome ↔ ¬ ((op = div ∨ op = mod) ∧ y = 0) ∧ ¬ (op = pow ∧ y < 0)) ∧
    ((∃ i, apply op a b = .int i) ↔ (unbounded? op x y).isSome ∧ ¬ (op = pow ∧ 2 ^ 32 ≤ y)) :=
  ⟨isSome_unbounded?_iff, exists_int_iff left right⟩

/-- A truth value to the greatest power that is given as an integer. -/
theorem integral_results_iff_power : (Value.bool true).integer? = some 1 ∧
    (Value.int 4294967295).integer? = some 4294967295 ∧
      ∃ i, apply pow (.bool true) (.int 4294967295) = .int i := by
  have left : (Value.bool true).integer? = some 1 := rfl
  have right : (Value.int 4294967295).integer? = some 4294967295 := by decide
  obtain ⟨defined, given⟩ := integral_results_iff left right pow
  exact ⟨left, right, given.mpr ⟨defined.mpr (by decide), by decide⟩⟩

/-- The next power of one is one too, and is not given as an integer. -/
theorem power_of_one_is_no_integer : (Value.int 1).integer? = some 1 ∧
    (Value.int 4294967296).integer? = some 4294967296 ∧
      unbounded? pow 1 4294967296 = some 1 ∧
      ∀ i, apply pow (.int 1) (.int 4294967296) ≠ .int i := by
  have left : (Value.int 1).integer? = some 1 := by decide
  have right : (Value.int 4294967296).integer? = some 4294967296 := by decide
  refine ⟨left, right, ?_, ?_⟩
  · rw [unbounded?, if_pos (by decide), one_pow]
  · intro i result
    obtain ⟨small, _⟩ := (apply_eq_int_iff left right).mp result
    exact small ⟨rfl, by decide⟩

end Integers

end Arithmetic

end NodeGraph
