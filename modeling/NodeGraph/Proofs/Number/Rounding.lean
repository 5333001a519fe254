import Mathlib
import NodeGraph.Number.Numeral

/-!
# Bounds of rounded results

Rounding to nearest never passes a number that a float has: what is at most such a bound before it
is rounded is at most the bound afterwards. So a product, and a number read from a decimal, are
bounded by exact arithmetic on their operands, and are no infinity where the bound is finite.
-/

namespace NodeGraph

open Float.Model Float.Model.UnpackedFloat

/-- Numbers of 53 bits above the least exponent. A float has such a number, unless it is too
large. -/
def OnBinaryGrid (q : ℚ) : Prop := ∃ (m : Nat) (e : Int), m < 2 ^ 53 ∧ -1074 ≤ e ∧ q = m * 2 ^ e

/-- The power of two that is too large for a float. -/
def beyondFloats : ℚ := 2 ^ 1024

/-- The form of mantissa and exponent in which a number is packed. -/
structure Canonical (m : Nat) (e : Int) : Prop where
  mantissa_lt : m < 2 ^ 53
  least_le : -1074 ≤ e
  full : e = -1074 ∨ 2 ^ 52 ≤ m

/-- A finite number whose magnitude is at most the bound. -/
def AtMost (bound : ℚ) : UnpackedFloat → Prop
  | .zero _ => True
  | .finite _ m e _ => Canonical m e ∧ (m : ℚ) * 2 ^ e ≤ bound
  | _ => False

section Shift

theorem two_zpow_pos (e : Int) : (0 : ℚ) < 2 ^ e := zpow_pos two_pos e

/-- A power with an exponent of either sign as a quotient of two powers. -/
theorem zpow_eq_div {q : ℚ} (nonzero : q ≠ 0) (e : Int) :
    q ^ e = q ^ e.toNat / q ^ (-e).toNat := by
  rw [eq_div_iff (pow_ne_zero _ nonzero), ← zpow_natCast, ← zpow_natCast, ← zpow_add₀ nonzero]
  congr 1
  omega

theorem two_pow_le_natCast {k n : Nat} : (2 : ℚ) ^ k ≤ n ↔ 2 ^ k ≤ n := by norm_cast

theorem shiftRight_mantissa (em : ExtendedMantissa) (k : Nat) :
    (em >>> k).mantissa = em.mantissa / 2 ^ k := by
  induction k with
  | zero => exact (Nat.div_one _).symm
  | succ k ih =>
    change (em >>> k).mantissa / 2 = _
    rw [ih, Nat.div_div_eq_div_mul, Nat.pow_succ]

/-- Nothing is left behind by shifting a multiple of the power of two. -/
theorem shiftRight_exact {m k : Nat} (multiple : 2 ^ k ∣ m) :
    ((⟨m, false, false⟩ : ExtendedMantissa) >>> k).roundBit = false ∧
      ((⟨m, false, false⟩ : ExtendedMantissa) >>> k).stickyBit = false := by
  induction k with
  | zero => exact ⟨rfl, rfl⟩
  | succ k ih =>
    rw [Nat.pow_succ] at multiple
    obtain ⟨roundBit, stickyBit⟩ := ih (Dvd.dvd.trans (Nat.dvd_mul_right _ _) multiple)
    have even : m / 2 ^ k % 2 = 0 :=
      Nat.mod_eq_zero_of_dvd (Nat.dvd_div_of_mul_dvd multiple)
    change (((⟨m, false, false⟩ : ExtendedMantissa) >>> k).mantissa % 2 != 0) = false ∧
      (((⟨m, false, false⟩ : ExtendedMantissa) >>> k).roundBit ||
        ((⟨m, false, false⟩ : ExtendedMantissa) >>> k).stickyBit) = false
    rw [shiftRight_mantissa, even, roundBit, stickyBit]
    exact ⟨rfl, rfl⟩

theorem roundedMantissa_bounds (em : ExtendedMantissa) :
    em.mantissa ≤ em.roundedMantissa ∧ em.roundedMantissa ≤ em.mantissa + 1 := by
  obtain ⟨m, roundBit, stickyBit⟩ := em
  have parity : m % 2 < 2 := Nat.mod_lt m two_pos
  cases roundBit <;> cases stickyBit <;>
    simp only [ExtendedMantissa.roundedMantissa, ExtendedMantissa.accuracy,
      Accuracy.roundToNearestEven] <;> omega

/-- A shifted mantissa is not rounded beyond a bound that it had before. -/
theorem roundedMantissa_le {m k n : Nat} (le : m ≤ n * 2 ^ k) :
    ((⟨m, false, false⟩ : ExtendedMantissa) >>> k).roundedMantissa ≤ n := by
  have quotient : ((⟨m, false, false⟩ : ExtendedMantissa) >>> k).mantissa = m / 2 ^ k :=
    shiftRight_mantissa _ k
  by_cases multiple : 2 ^ k ∣ m
  · obtain ⟨roundBit, stickyBit⟩ := shiftRight_exact multiple
    generalize (⟨m, false, false⟩ : ExtendedMantissa) >>> k = em at *
    obtain ⟨_, _, _⟩ := em
    subst roundBit stickyBit quotient
    exact Nat.div_le_of_le_mul (by rwa [Nat.mul_comm])
  · have below : m / 2 ^ k < n := by
      rw [Nat.div_lt_iff_lt_mul (Nat.two_pow_pos k)]
      refine Nat.lt_of_le_of_ne le ?_
      rintro rfl
      exact multiple (Nat.dvd_mul_left _ _)
    have rounded := (roundedMantissa_bounds ((⟨m, false, false⟩ : ExtendedMantissa) >>> k)).2
    omega

/-- The exponent that a number is rounded to: it leaves 53 bits, if it can. -/
def roundedExponent (m : Nat) (e : Int) : Int := max ((m.log2 : Int) + e - 52) (-1074)

theorem targetExponent_eq (m : Nat) (e : Int) :
    Format.binary64.targetExponent (totalExponent m e) = roundedExponent m e := by
  simp only [Format.targetExponent, totalExponent, Format.mantissaBits, Format.minExponent,
    roundedExponent]
  omega

theorem shiftToTargetExponent_eq (m : Nat) (e : Int) :
    shiftToTargetExponent Format.binary64 m e .exact =
      ((⟨m, false, false⟩ : ExtendedMantissa) >>> (roundedExponent m e - e).toNat,
        e + (roundedExponent m e - e).toNat) := by
  rw [shiftToTargetExponent, targetExponent_eq]
  rfl

end Shift

section Round

variable {m : Nat} {e : Int} {bound : ℚ}

theorem log2_two_pow_le (hm : m ≠ 0) : (2 : ℚ) ^ ((m.log2 : Int) + e) ≤ m * 2 ^ e := by
  rw [zpow_add₀ two_ne_zero, zpow_natCast]
  exact mul_le_mul_of_nonneg_right (mod_cast Nat.log2_self_le hm) (two_zpow_pos e).le

/-- The mantissa after the first shift of rounding. -/
def firstRounded (m : Nat) (e : Int) : Nat :=
  ((⟨m, false, false⟩ : ExtendedMantissa) >>> (roundedExponent m e - e).toNat).roundedMantissa

theorem firstRounded_le : firstRounded m e ≤ 2 ^ 53 := by
  refine roundedMantissa_le ?_
  rw [← Nat.pow_add]
  refine Nat.le_trans Nat.lt_log2_self.le (Nat.pow_le_pow_right two_pos ?_)
  unfold roundedExponent
  omega

/-- Rounding leaves 53 bits, or ends at the least exponent. -/
theorem full_firstRounded (low : 52 ≤ m.log2 ∨ e ≤ -1074) :
    roundedExponent m e = -1074 ∨ 2 ^ 52 ≤ firstRounded m e := by
  by_cases least : roundedExponent m e = -1074
  · exact .inl least
  · refine .inr (Nat.le_trans ?_ (roundedMantissa_bounds _).1)
    have bits : m.log2 = 52 + (roundedExponent m e - e).toNat := by
      unfold roundedExponent at least ⊢
      omega
    have nonzero : m ≠ 0 := by
      rintro rfl
      rw [Nat.log2_zero] at bits
      omega
    rw [shiftRight_mantissa, Nat.le_div_iff_mul_le (Nat.two_pow_pos _), ← Nat.pow_add, ← bits]
    exact Nat.log2_self_le nonzero

/-- Rounding does not pass a number on the grid. -/
theorem firstRounded_mul_le (low : 52 ≤ m.log2 ∨ e ≤ -1074) (grid : OnBinaryGrid bound)
    (le : (m : ℚ) * 2 ^ e ≤ bound) :
    (firstRounded m e : ℚ) * 2 ^ roundedExponent m e ≤ bound := by
  obtain ⟨M, E, M_lt, least_le, rfl⟩ := grid
  have reach : e + (roundedExponent m e - e).toNat = roundedExponent m e := by
    unfold roundedExponent
    omega
  generalize shift : (roundedExponent m e - e).toNat = k at reach
  -- the bound lies on the grid of the exponent that is rounded to
  have coarse : roundedExponent m e ≤ E := by
    by_contra fine
    have nonzero : m ≠ 0 := by
      rintro rfl
      unfold roundedExponent at fine
      rw [Nat.log2_zero] at low fine
      omega
    have leading : (2 : ℚ) ^ (E + 53) ≤ 2 ^ ((m.log2 : Int) + e) := by
      refine zpow_le_zpow_right₀ one_le_two ?_
      unfold roundedExponent at fine
      omega
    have above : (M : ℚ) * 2 ^ E < 2 ^ (E + 53) := by
      rw [zpow_add₀ two_ne_zero, mul_comm]
      exact mul_lt_mul_of_pos_left (mod_cast M_lt) (two_zpow_pos E)
    exact absurd (leading.trans ((log2_two_pow_le nonzero).trans le)) (not_le.mpr above)
  obtain ⟨d, rfl⟩ : ∃ d : Nat, E = roundedExponent m e + d :=
    ⟨(E - roundedExponent m e).toNat, by omega⟩
  have rounded : firstRounded m e ≤ M * 2 ^ d := by
    unfold firstRounded
    rw [shift]
    refine roundedMantissa_le ?_
    have scaled : (m : ℚ) * 2 ^ e ≤ (M * 2 ^ d * 2 ^ k : Nat) * 2 ^ e := by
      refine le.trans (le_of_eq ?_)
      rw [← reach, zpow_add₀ two_ne_zero, zpow_add₀ two_ne_zero, zpow_natCast, zpow_natCast]
      push_cast
      ring
    exact Nat.cast_le.mp (le_of_mul_le_mul_right scaled (two_zpow_pos e))
  rw [zpow_add₀ two_ne_zero, zpow_natCast, mul_comm (2 ^ roundedExponent m e), ← mul_assoc]
  exact mul_le_mul_of_nonneg_right (mod_cast rounded) (two_zpow_pos _).le

theorem shiftToTargetExponent_of_lt (small : m < 2 ^ 53) (least_le : -1074 ≤ e) :
    shiftToTargetExponent Format.binary64 m e .exact = (⟨m, false, false⟩, e) := by
  have bits : m.log2 ≤ 52 := by
    by_cases zero : m = 0
    · simp [zero]
    · exact Nat.le_of_lt_succ ((Nat.log2_lt zero).mpr small)
  have still : (roundedExponent m e - e).toNat = 0 := by
    unfold roundedExponent
    omega
  rw [shiftToTargetExponent_eq, still]
  simp [HShiftRight.hShiftRight, Nat.repeat]

/-- A mantissa that rounding has carried to 54 bits is shifted once more. -/
theorem shiftToTargetExponent_carry (least_le : -1074 ≤ e) :
    shiftToTargetExponent Format.binary64 (2 ^ 53) e .exact =
      (⟨2 ^ 52, false, false⟩, e + 1) := by
  have once : (roundedExponent (2 ^ 53) e - e).toNat = 1 := by
    unfold roundedExponent
    rw [Nat.log2_two_pow]
    omega
  rw [shiftToTargetExponent_eq, once]
  simp [HShiftRight.hShiftRight, Nat.repeat, ExtendedMantissa.shiftRightOne]

theorem roundWithAccuracy_atMost (s : Sign) (low : 52 ≤ m.log2 ∨ e ≤ -1074)
    (grid : OnBinaryGrid bound) (le : (m : ℚ) * 2 ^ e ≤ bound) :
    AtMost bound (roundWithAccuracy Format.binary64 s m e .exact) := by
  have value := firstRounded_mul_le low grid le
  have full := full_firstRounded low
  have least_le : -1074 ≤ roundedExponent m e := le_max_right _ _
  have reach : e + (roundedExponent m e - e).toNat = roundedExponent m e := by
    unfold roundedExponent
    omega
  rw [roundWithAccuracy, shiftToTargetExponent_eq]
  dsimp only
  rw [reach]
  change AtMost bound (let (em, final) :=
    shiftToTargetExponent Format.binary64 (firstRounded m e) (roundedExponent m e) .exact
    if h : em.mantissa = 0 then .zero s else .finite s em.mantissa final (Nat.pos_of_ne_zero h))
  rcases Nat.lt_or_eq_of_le (firstRounded_le (m := m) (e := e)) with small | carried
  · rw [shiftToTargetExponent_of_lt small least_le]
    dsimp only
    split
    case isTrue => trivial
    case isFalse => exact ⟨⟨small, least_le, full⟩, value⟩
  · rw [carried] at value
    rw [carried, shiftToTargetExponent_carry least_le]
    refine ⟨⟨by decide, by omega, .inr (Nat.le_refl _)⟩, le_of_eq_of_le ?_ value⟩
    rw [zpow_add₀ two_ne_zero]
    push_cast
    ring

end Round

section Packed

theorem finite_congr {s : Sign} {m m' : Nat} {e e' : Int} {pos : 0 < m} {pos' : 0 < m'}
    (mantissa : m = m') (exponent : e = e') :
    UnpackedFloat.finite s m e pos = .finite s m' e' pos' := by
  subst mantissa exponent
  rfl

theorem unpack_normal {s : Sign} {x : BitVec 11} {y : BitVec 52} (positive : x ≠ 0#11)
    (top : x ≠ -1#11) :
    UnpackedFloat.unpack Format.binary64 (packComponents Format.binary64 s x y) =
      .finite s (2 ^ 52 + y.toNat) (x.toNat - 1075) (by omega) := by
  rw [UnpackedFloat.unpack]
  dsimp only
  rw [if_neg (by rwa [unpackExponent_packComponents])]
  rw [if_neg (by rwa [unpackExponent_packComponents])]
  rw [unpackSign_packComponents, Sign.ofBitVec_toBitVec]
  refine finite_congr ?_ ?_
  · rw [unpackMantissa_packComponents, BitVec.toNat_append]
    exact (Nat.two_pow_add_eq_or_of_lt y.isLt 1).symm
  · rw [unpackExponent_packComponents]
    rfl

theorem unpack_subnormal {s : Sign} {y : BitVec 52} (nonzero : y.toNat ≠ 0) :
    UnpackedFloat.unpack Format.binary64 (packComponents Format.binary64 s 0#11 y) =
      .finite s y.toNat (-1074) (Nat.pos_of_ne_zero nonzero) := by
  rw [UnpackedFloat.unpack]
  dsimp only
  rw [if_neg (by rw [unpackExponent_packComponents]; decide)]
  rw [if_pos (by rw [unpackExponent_packComponents])]
  rw [dif_neg (by
    rw [unpackMantissa_packComponents]
    rintro rfl
    exact nonzero rfl)]
  rw [unpackSign_packComponents, Sign.ofBitVec_toBitVec]
  refine finite_congr ?_ ?_
  · rw [unpackMantissa_packComponents]
  · rw [unpackExponent_packComponents]
    rfl

/-- A biased exponent that is neither the least nor the greatest field is kept in 11 bits. -/
theorem unpack_biased {s : Sign} {m : Nat} {e : Int} {pos : 0 < m} (bits : 2 ^ 52 ≤ m)
    (small : m < 2 ^ 53) (least_le : -1074 ≤ e) (top : e ≤ 971) :
    UnpackedFloat.unpack Format.binary64 (packComponents Format.binary64 s
      (BitVec.ofNat 11 (e + 1075).toNat) (BitVec.ofNat 52 m)) = .finite s m e pos := by
  have exponent : (BitVec.ofNat 11 (e + 1075).toNat).toNat = (e + 1075).toNat := by
    rw [BitVec.toNat_ofNat, Nat.mod_eq_of_lt (by omega)]
  rw [unpack_normal]
  · refine finite_congr ?_ ?_
    · rw [BitVec.toNat_ofNat]
      omega
    · rw [exponent]
      omega
  · intro same
    have zero : (e + 1075).toNat = 0 := exponent.symm.trans (congrArg BitVec.toNat same)
    omega
  · intro same
    have full : (e + 1075).toNat = 2047 := exponent.symm.trans (congrArg BitVec.toNat same)
    omega

/-- A canonical number that is not too large is kept by packing. -/
theorem unpack_pack {s : Sign} {m : Nat} {e : Int} {pos : 0 < m} (canonical : Canonical m e)
    (top : e ≤ 971) :
    (Float.Model.pack (.finite s m e pos)).unpack = .finite s m e pos := by
  obtain ⟨small, least_le, full⟩ := canonical
  change UnpackedFloat.unpack Format.binary64
    (UnpackedFloat.pack Format.binary64 (.finite s m e pos)) = _
  have biased : (e + Format.binary64.exponentBias + (52 : Nat)).toNat = (e + 1075).toNat := by
    rw [add_assoc]
    rfl
  rw [UnpackedFloat.pack]
  dsimp only
  rw [if_neg (by rw [biased]; omega)]
  by_cases normal : m.log2 = 52
  · rw [if_pos (by rw [normal]; rfl), biased]
    exact unpack_biased ((Nat.log2_eq_iff pos.ne').mp normal).1 small least_le top
  · have below : m < 2 ^ 52 := by
      by_contra large
      exact normal ((Nat.log2_eq_iff pos.ne').mpr ⟨Nat.not_lt.mp large, small⟩)
    have mantissa : (BitVec.ofNat 52 m).toNat = m := by
      rw [BitVec.toNat_ofNat, Nat.mod_eq_of_lt below]
    rw [if_neg fun same => normal (Nat.succ.inj (same.trans (Nat.add_comm 1 52))), unpack_subnormal]
    · refine finite_congr mantissa ?_
      omega
    · rw [mantissa]
      exact pos.ne'

/-- Packing keeps what is bounded below the greatest floats. -/
theorem AtMost.pack {u : UnpackedFloat} {bound : ℚ} (atMost : AtMost bound u)
    (finite : bound < beyondFloats) : AtMost bound (Float.Model.pack u).unpack := by
  cases u with
  | notANumber => exact atMost.elim
  | infinity s => exact atMost.elim
  | zero s => cases s <;> trivial
  | finite s m e pos =>
    obtain ⟨canonical, le⟩ := atMost
    have top : e ≤ 971 := by
      by_contra beyond
      have full : 2 ^ 52 ≤ m := canonical.full.resolve_left (by omega)
      have least : beyondFloats ≤ m * 2 ^ e := by
        have split : beyondFloats = (2 ^ 52 : Nat) * 2 ^ (972 : Nat) := by
          rw [beyondFloats, Nat.cast_pow, Nat.cast_ofNat, ← pow_add]
        rw [split, ← zpow_natCast]
        exact mul_le_mul (Nat.cast_le.mpr full)
          (zpow_le_zpow_right₀ one_le_two (by omega)) (two_zpow_pos _).le (Nat.cast_nonneg m)
      exact absurd (least.trans le) (not_le.mpr finite)
    rw [unpack_pack canonical top]
    exact ⟨canonical, le⟩

end Packed

section Operations

variable {bound p q : ℚ}

/-- A finite float whose magnitude is at most the bound. -/
def FloatAtMost (bound : ℚ) (x : Float) : Prop := AtMost bound x.toModel.unpack

theorem FloatAtMost.isInf_eq_false {x : Float} (atMost : FloatAtMost bound x) :
    x.isInf = false := by
  change x.toModel.unpack.isInf = false
  unfold FloatAtMost at atMost
  cases unpacked : x.toModel.unpack with
  | infinity s =>
    rw [unpacked] at atMost
    exact atMost.elim
  | notANumber | zero | finite => rfl

theorem AtMost.mul {u v : UnpackedFloat} (left : AtMost p u) (right : AtMost q v)
    (nonneg : 0 ≤ p) (grid : OnBinaryGrid bound) (le : p * q ≤ bound) :
    AtMost bound (UnpackedFloat.mul Format.binary64 u v) := by
  cases u with
  | notANumber => exact left.elim
  | infinity => exact left.elim
  | zero s =>
    cases v with
    | notANumber => exact right.elim
    | infinity => exact right.elim
    | zero | finite => trivial
  | finite s m e pos =>
    cases v with
    | notANumber => exact right.elim
    | infinity => exact right.elim
    | zero => trivial
    | finite s' m' e' pos' =>
      obtain ⟨canonical, atMost⟩ := left
      obtain ⟨canonical', atMost'⟩ := right
      refine roundWithAccuracy_atMost (s * s') ?_ grid ?_
      · by_cases least : e = -1074 ∧ e' = -1074
        · exact .inr (by omega)
        · refine .inl ((Nat.le_log2 (Nat.mul_pos pos pos').ne').mpr ?_)
          rcases not_and_or.mp least with normal | normal
          · exact Nat.le_trans (canonical.full.resolve_left normal) (Nat.le_mul_of_pos_right m pos')
          · exact Nat.le_trans (canonical'.full.resolve_left normal) (Nat.le_mul_of_pos_left m' pos)
      · calc ((m * m' : Nat) : ℚ) * 2 ^ (e + e') = (m * 2 ^ e) * (m' * 2 ^ e') := by
              rw [zpow_add₀ two_ne_zero]
              push_cast
              ring
          _ ≤ p * q := mul_le_mul atMost atMost'
              (mul_nonneg (Nat.cast_nonneg m') (two_zpow_pos e').le) nonneg
          _ ≤ bound := le

theorem FloatAtMost.mul {x y : Float} (left : FloatAtMost p x) (right : FloatAtMost q y)
    (nonneg : 0 ≤ p) (grid : OnBinaryGrid bound) (le : p * q ≤ bound)
    (finite : bound < beyondFloats) : FloatAtMost bound (x * y) :=
  AtMost.pack (AtMost.mul left right nonneg grid le) finite

theorem round_atMost {m : Nat} {e : Int} (s : Sign) (nonzero : m ≠ 0) (grid : OnBinaryGrid bound)
    (le : (m : ℚ) * 2 ^ e ≤ bound) : AtMost bound (UnpackedFloat.round Format.binary64 s m e) := by
  unfold UnpackedFloat.round decreaseExponent
  rw [targetExponent_eq]
  dsimp only
  generalize shift : (e - roundedExponent m e).toNat = k
  refine roundWithAccuracy_atMost s ?_ grid (le_of_eq_of_le ?_ le)
  · by_cases least : e - k ≤ -1074
    · exact .inr least
    · have bits : 52 ≤ m.log2 + k := by
        unfold roundedExponent at shift
        omega
      have leading : 2 ^ 52 ≤ m <<< k := by
        rw [Nat.shiftLeft_eq]
        refine Nat.le_trans (Nat.pow_le_pow_right two_pos bits) ?_
        rw [Nat.pow_add]
        exact Nat.mul_le_mul_right _ (Nat.log2_self_le nonzero)
      exact .inl ((Nat.le_log2 (Nat.ne_zero_of_lt leading)).mpr leading)
  · rw [Nat.shiftLeft_eq, sub_eq_add_neg, zpow_add₀ two_ne_zero, zpow_neg, zpow_natCast]
    push_cast
    field_simp

/-- An integer of 53 bits is a float. -/
theorem toFloat_atMost {n : Nat} (small : n < 2 ^ 53) : FloatAtMost n n.toUInt64.toFloat := by
  have value : n.toUInt64.toNat = n := by
    rw [UInt64.toNat_ofNat']
    exact Nat.mod_eq_of_lt (by omega)
  have grid : OnBinaryGrid n := ⟨n, 0, small, by decide, by rw [zpow_zero, mul_one]⟩
  have finite : (n : ℚ) < beyondFloats :=
    lt_trans (mod_cast small) (pow_lt_pow_right₀ one_lt_two (by decide : 53 < 1024))
  refine AtMost.pack ?_ finite
  change AtMost n (UnpackedFloat.normalize Format.binary64 (n.toUInt64.toNat : Int) 0 .positive)
  rw [value, UnpackedFloat.normalize]
  split
  next negative => exact absurd (Int.compare_eq_lt.mp negative) (by omega)
  next => trivial
  next positive =>
    have nonzero : n ≠ 0 := by
      have := Int.compare_eq_gt.mp positive
      omega
    exact round_atMost .positive nonzero grid (by rw [zpow_zero, mul_one, Int.toNat_natCast])

/-- Whether a finite number is within an integer can be told in integers. -/
instance decidableAtMost (bound : Nat) : (u : UnpackedFloat) → Decidable (AtMost bound u)
  | .zero _ => .isTrue trivial
  | .notANumber => .isFalse id
  | .infinity _ => .isFalse id
  | .finite _ m e _ =>
    decidable_of_iff (m < 2 ^ 53 ∧ -1074 ≤ e ∧ (e = -1074 ∨ 2 ^ 52 ≤ m) ∧
      m * 2 ^ e.toNat ≤ bound * 2 ^ (-e).toNat) <| by
    have value : (m : ℚ) * 2 ^ e ≤ bound ↔ m * 2 ^ e.toNat ≤ bound * 2 ^ (-e).toNat := by
      rw [zpow_eq_div two_ne_zero, ← mul_div_assoc, div_le_iff₀ (pow_pos two_pos _)]
      norm_cast
    constructor
    · rintro ⟨small, least_le, full, le⟩
      exact ⟨⟨small, least_le, full⟩, value.mpr le⟩
    · rintro ⟨⟨small, least_le, full⟩, le⟩
      exact ⟨small, least_le, full, value.mp le⟩

instance (bound : Nat) (x : Float) : Decidable (FloatAtMost bound x) :=
  decidableAtMost bound x.toModel.unpack

/-- The powers of ten that are tabulated are no greater than they should be. -/
theorem exactlyRepresentablePowersOfTen_atMost :
    ∀ k : Fin 23, FloatAtMost (10 ^ k.val : Nat) Float.exactlyRepresentablePowersOfTen[k] := by
  decide +kernel

/-- A power of ten that is too large has no bound among the floats. -/
theorem lt_of_mul_pow_le {n k : Nat} (nonzero : n ≠ 0) (le : ((n * 10 ^ k : Nat) : ℚ) ≤ bound)
    (finite : bound < beyondFloats) : k < 1024 := by
  by_contra large
  have digits : 2 ^ k ≤ n * 10 ^ k :=
    Nat.le_trans (Nat.pow_le_pow_left (by decide) k)
      (Nat.le_mul_of_pos_left _ (Nat.pos_of_ne_zero nonzero))
  have beyond : beyondFloats ≤ (n * 10 ^ k : Nat) :=
    (pow_le_pow_right₀ one_le_two (Nat.not_lt.mp large)).trans (two_pow_le_natCast.mpr digits)
  exact absurd (beyond.trans le) (not_le.mpr finite)

/-- A decimal without a fraction is multiplied out, with enough bits, before it is rounded. -/
theorem scaled_atMost {n k : Nat} (grid : OnBinaryGrid bound)
    (le : ((n * 10 ^ k : Nat) : ℚ) ≤ bound) (finite : bound < beyondFloats) :
    AtMost bound (UnpackedFloat.ofScientific Format.binary64 n (k : Int)) := by
  unfold UnpackedFloat.ofScientific
  split
  case isTrue => trivial
  case isFalse nonzero =>
    have small := lt_of_mul_pow_le nonzero le finite
    have bits : 52 ≤ (n <<< 53 * 10 ^ k).log2 := by
      have positive : 0 < n * 10 ^ k :=
        Nat.mul_pos (Nat.pos_of_ne_zero nonzero) (Nat.pow_pos (by decide))
      have large : 2 ^ 52 ≤ n <<< 53 * 10 ^ k := by
        rw [Nat.shiftLeft_eq, Nat.mul_right_comm]
        omega
      exact (Nat.le_log2 (Nat.ne_zero_of_lt large)).mpr large
    rw [if_neg (by change ¬ ((k : Int) > 2 ^ 11); omega),
      if_neg (by change ¬ ((k : Int) < -(2 ^ 11 + (n.log2 : Int))); omega),
      if_pos (Int.natCast_nonneg k)]
    refine roundWithAccuracy_atMost _ (.inl bits) grid (le_of_eq_of_le ?_ le)
    change ((n <<< 53 * 10 ^ k : Nat) : ℚ) * 2 ^ (-53 + 0 : Int) = _
    rw [Nat.shiftLeft_eq, Nat.mul_right_comm, Nat.cast_mul _ (2 ^ 53), mul_assoc]
    norm_num

/-- What is read from a decimal without a fraction is within each bound that the decimal is
within. -/
theorem ofScientific_atMost {n k : Nat} (grid : OnBinaryGrid bound)
    (le : ((n * 10 ^ k : Nat) : ℚ) ≤ bound) (finite : bound < beyondFloats) :
    FloatAtMost bound (Float.ofScientific n false k) := by
  unfold Float.ofScientific
  split
  case isTrue exact =>
    obtain ⟨small, tabulated⟩ := exact
    have factors : (n : ℚ) * (10 ^ k : Nat) ≤ bound := le_of_eq_of_le (Nat.cast_mul _ _).symm le
    dsimp only
    rw [if_neg Bool.false_ne_true]
    exact FloatAtMost.mul (toFloat_atMost small)
      (exactlyRepresentablePowersOfTen_atMost ⟨k, by omega⟩) (Nat.cast_nonneg n) grid factors finite
  case isFalse => exact AtMost.pack (scaled_atMost grid le finite) finite

end Operations

section Integers

/-- The greatest float. -/
def greatestFloat : Nat := (2 ^ 53 - 1) * 2 ^ 971

/-- An integer on the grid of floats that is not below the given one. -/
def gridAbove (n : Nat) : Nat :=
  let shift := n.log2 - 52
  (n + (2 ^ shift - 1)) / 2 ^ shift * 2 ^ shift

theorem le_gridAbove (n : Nat) : n ≤ gridAbove n := by
  unfold gridAbove
  dsimp only
  generalize power : 2 ^ (n.log2 - 52) = p
  have positive : 0 < p := power ▸ Nat.two_pow_pos _
  have whole := Nat.div_add_mod' (n + (p - 1)) p
  have rest := Nat.mod_lt (n + (p - 1)) positive
  omega

theorem onBinaryGrid_mul_two_pow {m k : Nat} (small : m < 2 ^ 53) :
    OnBinaryGrid (m * 2 ^ k : Nat) :=
  ⟨m, k, small, by omega, by rw [Nat.cast_mul, Nat.cast_pow, zpow_natCast, Nat.cast_ofNat]⟩

theorem onBinaryGrid_gridAbove (n : Nat) : OnBinaryGrid (gridAbove n) := by
  have bits : n ≤ 2 ^ 53 * 2 ^ (n.log2 - 52) := by
    rw [← Nat.pow_add]
    exact Nat.le_trans Nat.lt_log2_self.le (Nat.pow_le_pow_right two_pos (by omega))
  unfold gridAbove
  dsimp only
  generalize n.log2 - 52 = k at *
  have positive : 0 < 2 ^ k := Nat.two_pow_pos k
  have quotient : (n + (2 ^ k - 1)) / 2 ^ k ≤ 2 ^ 53 := by
    rw [← Nat.lt_succ_iff, Nat.div_lt_iff_lt_mul positive, Nat.succ_mul]
    omega
  rcases Nat.lt_or_eq_of_le quotient with small | carried
  · exact onBinaryGrid_mul_two_pow small
  · have halved : 2 ^ 53 * 2 ^ k = 2 ^ 52 * 2 ^ (k + 1) := by
      rw [Nat.pow_succ 2 k]
      omega
    rw [carried, halved]
    exact onBinaryGrid_mul_two_pow (by decide)

theorem onBinaryGrid_greatestFloat : OnBinaryGrid greatestFloat := by
  unfold greatestFloat
  exact onBinaryGrid_mul_two_pow (by decide)

theorem natCast_lt_beyondFloats {n : Nat} (le : n ≤ greatestFloat) : (n : ℚ) < beyondFloats := by
  have greatest : greatestFloat < 2 ^ 1024 := by decide +kernel
  exact not_le.mp fun beyond =>
    absurd ((two_pow_le_natCast (k := 1024)).mp beyond) (by omega)

/-- The product of an integer and a power of ten is no infinity where bounds of both, on the grid of
floats, have a product within the greatest float. -/
theorem isInf_mul_eq_false {n bound k : Nat} (le : n ≤ bound) (positive : 0 < bound)
    (fits : gridAbove bound * gridAbove (10 ^ k) ≤ greatestFloat) :
    (Float.ofNat n * Numeral.powerOfTen k).isInf = false := by
  have ten : 0 < 10 ^ k := Nat.pow_pos (by decide)
  have bound_le : gridAbove bound ≤ greatestFloat :=
    Nat.le_trans (Nat.le_mul_of_pos_right _ (Nat.lt_of_lt_of_le ten (le_gridAbove _))) fits
  have power_le : gridAbove (10 ^ k) ≤ greatestFloat :=
    Nat.le_trans (Nat.le_mul_of_pos_left _ (Nat.lt_of_lt_of_le positive (le_gridAbove _))) fits
  have left : FloatAtMost (gridAbove bound) (Float.ofNat n) := by
    refine ofScientific_atMost (onBinaryGrid_gridAbove _) ?_ (natCast_lt_beyondFloats bound_le)
    rw [Nat.pow_zero, Nat.mul_one]
    exact Nat.cast_le.mpr (Nat.le_trans le (le_gridAbove bound))
  have right : FloatAtMost (gridAbove (10 ^ k)) (Numeral.powerOfTen k) := by
    refine ofScientific_atMost (onBinaryGrid_gridAbove _) ?_ (natCast_lt_beyondFloats power_le)
    rw [Nat.one_mul]
    exact Nat.cast_le.mpr (le_gridAbove _)
  refine (FloatAtMost.mul left right (Nat.cast_nonneg _) onBinaryGrid_greatestFloat ?_
    (natCast_lt_beyondFloats (Nat.le_refl _))).isInf_eq_false
  rw [← Nat.cast_mul]
  exact Nat.cast_le.mpr fits

end Integers

end NodeGraph
