import NodeGraph.Number.Shortest
import NodeGraph.Proofs.Number.Rounding

/-!
# The shortest decimal of a float

The comparisons that the search for the shortest decimal makes in integers are comparisons of the
numbers (`Decimal.compareBinary_eq_gt_iff`). What the search ends with is the number itself, or a
decimal of few digits at most halfway to the next float (`Binary.shortest_cases`).
-/

namespace NodeGraph

/-- The number that a decimal stands for. -/
def Decimal.value (d : Decimal) : ℚ := d.digits * 10 ^ d.exponent

/-- The greatest float but one. -/
def lastButOne : Nat := (2 ^ 53 - 2) * 2 ^ 971

/-- Halfway between the two greatest floats. -/
def halfwayToGreatest : Nat := (4 * (2 ^ 53 - 2) + 2) * 2 ^ 969

/-- Numbers that can be read without an overflow, however many of their digits are cut off. The
greatest of them need digits that end early enough. -/
def Moderate (value : ℚ) (exponent : Int) : Prop :=
  value ≤ lastButOne ∨ value ≤ halfwayToGreatest ∧ 292 ≤ exponent

theorem Moderate.mono {value value' : ℚ} {exponent exponent' : Int}
    (moderate : Moderate value exponent) (le : value' ≤ value) (later : exponent ≤ exponent') :
    Moderate value' exponent' := by
  rcases moderate with below | ⟨halfway, early⟩
  · exact .inl (le.trans below)
  · exact .inr ⟨le.trans halfway, early.trans later⟩

namespace Binary

/-- The number that a mantissa and an exponent stand for. -/
def value (b : Binary) : ℚ := b.mantissa * 2 ^ b.exponent

/-- Halfway to the next number of 53 bits. -/
def halfwayAbove (b : Binary) : ℚ := (4 * b.mantissa + 2 : Nat) * 2 ^ (b.exponent - 2)

end Binary

namespace Decimal

/-- Both sides of a comparison are the numbers compared, times one and the same number. -/
theorem exists_scale (d : Decimal) (n : Nat) (j : Int) : ∃ scale : ℚ, 0 < scale ∧
    (((d.digits * powerOfTen d.exponent.toNat) <<< (-j).toNat : Nat) : ℚ) = d.value * scale ∧
    (((n * powerOfTen (-d.exponent).toNat) <<< j.toNat : Nat) : ℚ) = n * 2 ^ j * scale := by
  have ten : (0 : ℚ) < 10 ^ (-d.exponent).toNat := pow_pos (by norm_num) _
  have two : (0 : ℚ) < 2 ^ (-j).toNat := pow_pos two_pos _
  refine ⟨10 ^ (-d.exponent).toNat * 2 ^ (-j).toNat, mul_pos ten two, ?_, ?_⟩
  · rw [value, zpow_eq_div (by norm_num) d.exponent, powerOfTen, Nat.pow_eq, Nat.shiftLeft_eq]
    push_cast
    field_simp
  · rw [zpow_eq_div two_ne_zero j, powerOfTen, Nat.pow_eq, Nat.shiftLeft_eq]
    push_cast
    field_simp

theorem compareBinary_eq_gt_iff {d : Decimal} {n : Nat} {j : Int} :
    d.compareBinary n j = .gt ↔ (n : ℚ) * 2 ^ j < d.value := by
  obtain ⟨scale, positive, left, right⟩ := exists_scale d n j
  rw [compareBinary, Nat.compare_eq_gt, ← Nat.cast_lt (α := ℚ), left, right,
    mul_lt_mul_iff_left₀ positive]

theorem compareBinary_eq_lt_iff {d : Decimal} {n : Nat} {j : Int} :
    d.compareBinary n j = .lt ↔ d.value < n * 2 ^ j := by
  obtain ⟨scale, positive, left, right⟩ := exists_scale d n j
  rw [compareBinary, Nat.compare_eq_lt, ← Nat.cast_lt (α := ℚ), left, right,
    mul_lt_mul_iff_left₀ positive]

theorem value_stripZeros (fuel : Nat) (d : Decimal) : (d.stripZeros fuel).value = d.value := by
  induction fuel generalizing d with
  | zero => rfl
  | succ fuel ih =>
    rw [stripZeros]
    split
    case isTrue trailing =>
      obtain ⟨tens, eq⟩ := Nat.dvd_of_mod_eq_zero trailing.2
      rw [ih, value, value, eq, Nat.mul_div_cancel_left _ (by decide),
        zpow_add₀ (by norm_num : (10 : ℚ) ≠ 0)]
      push_cast
      ring
    case isFalse => rfl

theorem exponent_le_stripZeros (fuel : Nat) (d : Decimal) :
    d.exponent ≤ (d.stripZeros fuel).exponent := by
  induction fuel generalizing d with
  | zero => exact le_refl _
  | succ fuel ih =>
    rw [stripZeros]
    split
    case isTrue => exact (Int.le_add_one (le_refl _)).trans (ih _)
    case isFalse => exact le_refl _

theorem value_pos_iff {d : Decimal} : 0 < d.value ↔ d.digits ≠ 0 := by
  have ten : (0 : ℚ) < 10 ^ d.exponent := zpow_pos (by norm_num) _
  rw [value, mul_pos_iff_of_pos_right ten, Nat.cast_pos, Nat.pos_iff_ne_zero]

end Decimal

namespace Binary

variable {b : Binary} {d : Decimal} {tie : Tie} {scale : Int}

theorem value_pos (nonzero : b.mantissa ≠ 0) : 0 < b.value :=
  mul_pos (Nat.cast_pos.mpr (Nat.pos_of_ne_zero nonzero)) (two_zpow_pos _)

theorem value_exact (b : Binary) : b.exact.value = b.value := by
  unfold exact
  split
  case isTrue negative =>
    obtain ⟨k, eq⟩ : ∃ k : Nat, b.exponent = -k := ⟨b.exponent.natAbs, by omega⟩
    have ten : (10 : ℚ) ^ k = 5 ^ k * 2 ^ k := by
      rw [← mul_pow]
      norm_num
    rw [Decimal.value, value, eq, Int.natAbs_neg, Int.natAbs_natCast, zpow_neg, zpow_neg,
      zpow_natCast, zpow_natCast, ten, Nat.pow_eq]
    push_cast
    field_simp
  case isFalse nonneg =>
    obtain ⟨k, eq⟩ : ∃ k : Nat, b.exponent = k := ⟨b.exponent.toNat, by omega⟩
    rw [Decimal.value, value, eq, Int.toNat_natCast, Nat.shiftLeft_eq, zpow_zero, zpow_natCast]
    push_cast
    ring

/-- A decimal that reads back is not zero, and at most halfway to the next number. -/
theorem bounds_of_readsBack (nonzero : b.mantissa ≠ 0) (back : b.readsBack d = true) :
    0 < d.value ∧ d.value ≤ b.halfwayAbove := by
  simp only [readsBack, Bool.and_eq_true, Bool.or_eq_true, beq_iff_eq] at back
  obtain ⟨low, high⟩ := back
  constructor
  · generalize least : (if b.narrowBelow = true then _ else _) = n at low
    have positive : 0 < n := by
      split at least <;> omega
    have below : ¬ d.value < n * 2 ^ (b.exponent - 2) := by
      rw [← Decimal.compareBinary_eq_lt_iff]
      intro less
      rw [less] at low
      simp at low
    exact lt_of_lt_of_le (mul_pos (Nat.cast_pos.mpr positive) (two_zpow_pos _)) (not_lt.mp below)
  · rw [← not_lt]
    intro above
    rw [halfwayAbove, ← Decimal.compareBinary_eq_gt_iff] at above
    rw [above] at high
    simp at high

theorem onGrid_eq_some (found : b.onGrid tie scale = some d) :
    b.readsBack d = true ∧ d.exponent = scale := by
  unfold onGrid at found
  dsimp only at found
  split at found
  case h_1 => cases found
  case h_2 low _ =>
    cases found
    exact ⟨low, rfl⟩
  case h_3 _ high =>
    cases found
    exact ⟨high, rfl⟩
  case h_4 low high =>
    -- whichever is nearer, both candidates read back
    split at found
    case h_1 =>
      cases found
      exact ⟨low, rfl⟩
    case h_2 =>
      cases found
      exact ⟨high, rfl⟩
    case h_3 =>
      cases found
      exact ⟨high, rfl⟩
    case h_4 =>
      obtain rfl := Option.some.inj found
      split
      next => exact ⟨low, rfl⟩
      next => exact ⟨high, rfl⟩

/-- The search for the digits of the greatest numbers starts from the power of ten above them. -/
theorem le_magnitude (large : ((10 ^ 308 : Nat) : ℚ) ≤ b.value) : 309 ≤ b.magnitude := by
  unfold magnitude
  dsimp only
  cases found : [((b.mantissa.log2 + b.exponent) * 30103).fdiv 100000 - 1,
      ((b.mantissa.log2 + b.exponent) * 30103).fdiv 100000,
      ((b.mantissa.log2 + b.exponent) * 30103).fdiv 100000 + 1].find? fun k =>
        Decimal.compareBinary ⟨1, k⟩ b.mantissa b.exponent == .gt with
  | some k =>
    have greater := List.find?_some found
    rw [beq_iff_eq, Decimal.compareBinary_eq_gt_iff, Decimal.value, Nat.cast_one, one_mul]
      at greater
    have above := lt_of_le_of_lt large greater
    rw [Nat.cast_pow, Nat.cast_ofNat, ← zpow_natCast] at above
    have exponent : ((308 : Nat) : Int) < k := (zpow_lt_zpow_iff_right₀ (by norm_num)).mp above
    rw [Option.getD_some]
    omega
  | none =>
    have below : b.value < 2 ^ (b.mantissa.log2 + 1 + b.exponent) := by
      rw [value, zpow_add₀ two_ne_zero]
      refine mul_lt_mul_of_pos_right ?_ (two_zpow_pos _)
      exact_mod_cast Nat.lt_log2_self
    have power : (2 : ℚ) ^ 1023 ≤ (10 ^ 308 : Nat) := two_pow_le_natCast.mpr (by decide +kernel)
    have above := lt_of_le_of_lt (power.trans large) below
    rw [← zpow_natCast] at above
    have bits : ((1023 : Nat) : Int) < b.mantissa.log2 + 1 + b.exponent :=
      (zpow_lt_zpow_iff_right₀ one_lt_two).mp above
    rw [Option.getD_none, Int.fdiv_eq_ediv_of_nonneg _ (by decide)]
    omega

/-- What the search ends with: the number itself, or a decimal at most halfway to the next number
whose digits end at most 17 places below the power of ten above the number. -/
theorem shortest_cases (nonzero : b.mantissa ≠ 0) (tie : Tie) :
    0 < (b.shortest tie).value ∧ ((b.shortest tie).value = b.value ∨
      (b.shortest tie).value ≤ b.halfwayAbove ∧
        b.magnitude - 17 ≤ (b.shortest tie).exponent) := by
  unfold shortest
  dsimp only
  rw [Decimal.value_stripZeros]
  cases found : (List.range 17).findSome? fun n => b.onGrid tie (b.magnitude - (n + 1 : Nat)) with
  | none =>
    rw [Option.getD_none, value_exact]
    exact ⟨value_pos nonzero, .inl rfl⟩
  | some d =>
    obtain ⟨n, member, grid⟩ := List.exists_of_findSome?_eq_some found
    obtain ⟨back, exponent⟩ := onGrid_eq_some grid
    obtain ⟨positive, bounded⟩ := bounds_of_readsBack nonzero back
    refine ⟨positive, .inr ⟨bounded, ?_⟩⟩
    refine Int.le_trans ?_ (d.exponent_le_stripZeros 800)
    rw [List.mem_range] at member
    rw [exponent]
    omega

/-- The magnitudes of finite floats but the greatest. -/
structure BelowGreatest (b : Binary) : Prop where
  mantissa_lt : b.mantissa < 2 ^ 53
  exponent_le : b.exponent ≤ 971
  ne_greatest : b ≠ ⟨2 ^ 53 - 1, 971⟩

theorem mul_zpow_le {m n k : Nat} {e : Int} (mantissa : m ≤ n) (exponent : e ≤ k) :
    (m : ℚ) * 2 ^ e ≤ (n * 2 ^ k : Nat) := by
  rw [Nat.cast_mul, Nat.cast_pow, Nat.cast_ofNat, ← zpow_natCast]
  exact mul_le_mul (Nat.cast_le.mpr mantissa) (zpow_le_zpow_right₀ one_le_two exponent)
    (two_zpow_pos e).le (Nat.cast_nonneg n)

/-- Either the exponent is not the greatest one, or the mantissa is not. -/
theorem BelowGreatest.cases (below : b.BelowGreatest) :
    b.exponent ≤ 970 ∨ b.mantissa ≤ 2 ^ 53 - 2 := by
  obtain ⟨mantissa_lt, exponent_le, ne_greatest⟩ := below
  by_contra both
  obtain ⟨exponent, mantissa⟩ := not_or.mp both
  refine ne_greatest ?_
  obtain ⟨m, e⟩ := b
  obtain rfl : m = 2 ^ 53 - 1 := by dsimp only at *; omega
  obtain rfl : e = 971 := by dsimp only at *; omega
  rfl

theorem BelowGreatest.value_le (below : b.BelowGreatest) : b.value ≤ lastButOne := by
  rcases below.cases with exponent | mantissa
  · exact (mul_zpow_le (k := 970) below.mantissa_lt.le exponent).trans
      (Nat.cast_le.mpr (by decide +kernel))
  · exact mul_zpow_le (k := 971) mantissa below.exponent_le

theorem BelowGreatest.halfwayAbove_le (below : b.BelowGreatest) :
    b.halfwayAbove ≤ halfwayToGreatest := by
  have bits := below.mantissa_lt
  have top := below.exponent_le
  rcases below.cases with exponent | mantissa
  · exact (mul_zpow_le (n := 2 ^ 55) (k := 968) (by omega) (by omega)).trans
      (Nat.cast_le.mpr (by decide +kernel))
  · exact mul_zpow_le (k := 969) (by omega) (by omega)

/-- It is at most half as much again to halfway to the next number. -/
theorem halfwayAbove_le_of_value_lt (nonzero : b.mantissa ≠ 0)
    (small : b.value < (10 ^ 308 : Nat)) : b.halfwayAbove ≤ lastButOne := by
  have half : 2 * b.halfwayAbove ≤ 3 * b.value := by
    have mantissa : ((4 * b.mantissa + 2 : Nat) : ℚ) ≤ (6 * b.mantissa : Nat) :=
      Nat.cast_le.mpr (by omega)
    have scaled := mul_le_mul_of_nonneg_right mantissa (two_zpow_pos (b.exponent - 2)).le
    have quarter : (2 : ℚ) ^ b.exponent = 4 * 2 ^ (b.exponent - 2) := by
      rw [zpow_sub₀ two_ne_zero]
      field_simp
      norm_num
    rw [halfwayAbove, value, quarter]
    refine (mul_le_mul_of_nonneg_left scaled two_pos.le).trans (le_of_eq ?_)
    push_cast
    ring
  have bound : (3 : ℚ) * (10 ^ 308 : Nat) ≤ 2 * lastButOne := by
    have integers : 3 * 10 ^ 308 ≤ 2 * lastButOne := by decide +kernel
    exact_mod_cast integers
  linarith

theorem BelowGreatest.moderate_shortest (below : b.BelowGreatest) (nonzero : b.mantissa ≠ 0)
    (tie : Tie) : Moderate (b.shortest tie).value (b.shortest tie).exponent := by
  obtain ⟨-, exact | ⟨halfway, least⟩⟩ := shortest_cases nonzero tie
  · exact .inl (exact.trans_le below.value_le)
  · by_cases small : b.value < (10 ^ 308 : Nat)
    · exact .inl (halfway.trans (halfwayAbove_le_of_value_lt nonzero small))
    · have top := le_magnitude (not_lt.mp small)
      exact .inr ⟨halfway.trans below.halfwayAbove_le, by omega⟩

end Binary

end NodeGraph
