import NodeGraph.Proofs.Json.Records
import NodeGraph.Proofs.Number.Numerals

/-!
# Floats in JSON

The text of a finite float is that of a numeral, and its value is moderate, so it is read back as a
float (`Value.exists_readJson_float`). The texts of the other floats are no numerals and are refused
(`Value.readJson_float_of_not_finite`).
-/

namespace NodeGraph

open Float.Model Float.Model.UnpackedFloat

section Finite

variable {x : Float}

theorem isFinite_eq (x : Float) : x.isFinite = !(x.isNaN || x.isInf) := by
  change x.toModel.unpack.isFinite = !(x.toModel.unpack.isNaN || x.toModel.unpack.isInf)
  cases x.toModel.unpack <;> rfl

/-- The field of the exponent, as it is taken out of the bits. -/
theorem toNat_unpackExponent (bits : UInt64) :
    (@unpackExponent Format.binary64 bits.toBitVec).toNat =
      ((bits >>> 52) &&& 0x7FF).toNat := by
  have mask : (0x7FF : UInt64).toNat = 2 ^ 11 - 1 := rfl
  rw [UInt64.toNat_and, mask, Nat.and_two_pow_sub_one_eq_mod, UInt64.toNat_shiftRight]
  rfl

/-- The greatest field is that of the infinities and NaN. -/
theorem unpackExponent_ne (finite : x.isFinite = true) :
    @unpackExponent Format.binary64 x.toBits.toBitVec ≠ -1#11 := by
  intro greatest
  change (UnpackedFloat.unpack Format.binary64 x.toBits.toBitVec).isFinite = true at finite
  rw [UnpackedFloat.unpack] at finite
  dsimp only at finite
  rw [if_pos greatest] at finite
  split at finite <;> cases finite

theorem Binary.ofFloat_bounds (finite : x.isFinite = true) :
    (Binary.ofFloat x).mantissa < 2 ^ 53 ∧ (Binary.ofFloat x).exponent ≤ 971 := by
  have field : ((x.toBits >>> 52) &&& 0x7FF).toNat < 2047 := by
    have bits := (@unpackExponent Format.binary64 x.toBits.toBitVec).isLt
    have other : (@unpackExponent Format.binary64 x.toBits.toBitVec).toNat ≠ 2047 :=
      fun greatest => unpackExponent_ne finite (BitVec.eq_of_toNat_eq greatest)
    rw [← toNat_unpackExponent]
    change _ < 2 ^ 11 at bits
    omega
  have fraction : (x.toBits &&& 0xFFFFFFFFFFFFF).toNat < 2 ^ 52 := by
    have mask : (0xFFFFFFFFFFFFF : UInt64).toNat = 2 ^ 52 - 1 := rfl
    rw [UInt64.toNat_and, mask, Nat.and_two_pow_sub_one_eq_mod]
    exact Nat.mod_lt _ (Nat.two_pow_pos _)
  unfold ofFloat ofBits leastNormal
  dsimp only
  split
  case isTrue => exact ⟨by dsimp only; omega, by dsimp only; omega⟩
  case isFalse => exact ⟨by dsimp only; omega, by dsimp only; omega⟩

end Finite

section Text

open FloatFormat Json

/-- The numeral of a decimal whose point stands behind, inside or in front of the digits. -/
def Decimal.positional (negative : Bool) (d : Decimal) : Numeral :=
  let digits := Nat.toDigits 10 d.digits
  if 0 ≤ d.exponent then
    ⟨negative, digits ++ List.replicate d.exponent.toNat '0', ['0'], none⟩
  else
    let places := d.exponent.natAbs
    if places < digits.length then
      ⟨negative, digits.take (digits.length - places), digits.drop (digits.length - places), none⟩
    else ⟨negative, ['0'], List.replicate (places - digits.length) '0' ++ digits, none⟩

/-- The numeral of a decimal with one digit in front of the point and an exponent. -/
def Decimal.scientific (negative : Bool) (d : Decimal) : Numeral :=
  ⟨negative, (Nat.toDigits 10 d.digits).take 1, (Nat.toDigits 10 d.digits).drop 1,
    some (leadingExponent d)⟩

/-- The numeral that a decimal is written as. -/
def Decimal.numeral (negative : Bool) (d : Decimal) : Numeral :=
  if -5 ≤ leadingExponent d ∧ leadingExponent d < 16 then d.positional negative
  else d.scientific negative

variable (negative : Bool) (d : Decimal)

theorem fractionText_eq_cons {digits : List Char} (nonempty : digits ≠ []) :
    fractionText digits = '.' :: digits := by
  cases digits with
  | nil => exact absurd rfl nonempty
  | cons => rfl

theorem numeralText_positional : numeralText (d.positional negative) =
    (if negative then ['-'] else []) ++ Value.jsonFormat.positionalText d := by
  unfold Decimal.positional positionalText
  dsimp only
  split
  case isTrue => simp [numeralText, fractionText, exponentText, Value.jsonFormat]
  case isFalse fractional =>
    split
    case isTrue inside =>
      have nonempty : (Nat.toDigits 10 d.digits).drop
          ((Nat.toDigits 10 d.digits).length - d.exponent.natAbs) ≠ [] := by
        rw [← List.length_pos_iff, List.length_drop]
        omega
      simp [numeralText, fractionText_eq_cons nonempty, exponentText]
    case isFalse =>
      have nonempty : List.replicate (d.exponent.natAbs - (Nat.toDigits 10 d.digits).length) '0' ++
          Nat.toDigits 10 d.digits ≠ [] := List.append_ne_nil_of_right_ne_nil _ Nat.toDigits_ne_nil
      simp [numeralText, fractionText_eq_cons nonempty, exponentText]

theorem numeralText_scientific : numeralText (d.scientific negative) =
    (if negative then ['-'] else []) ++ scientificText d := by
  unfold Decimal.scientific scientificText
  dsimp only
  match Nat.toDigits 10 d.digits with
  | [] => rfl
  | [first] => rfl
  | first :: second :: rest => simp [numeralText, fractionText, exponentText]

theorem numeralText_numeral : numeralText (d.numeral negative) =
    (if negative then ['-'] else []) ++ Value.jsonFormat.decimalText d := by
  have bounds : Value.jsonFormat.positional = some (-5, 16) := rfl
  unfold Decimal.numeral decimalText
  rw [bounds]
  dsimp only
  split
  case isTrue => exact numeralText_positional negative d
  case isFalse => exact numeralText_scientific negative d

/-- The digits of a number, cut in two behind the first of them or later. -/
theorem grammatical_cut {n j : Nat} (cut : 0 < j) (exponent : Option Int) :
    Grammatical ⟨negative, (Nat.toDigits 10 n).take j, (Nat.toDigits 10 n).drop j, exponent⟩ where
  whole_ne_nil := by
    have nonempty : Nat.toDigits 10 n ≠ [] := Nat.toDigits_ne_nil
    simp only [ne_eq, List.take_eq_nil_iff, nonempty, or_false]
    omega
  whole_digits c member := isDigit_toDigits n c (List.mem_of_mem_take member)
  no_leading_zero c rest same := by
    have digits := List.take_append_drop j (Nat.toDigits 10 n)
    dsimp only at same
    rw [same] at digits
    exact toDigits_ne_zero_cons n _ _ digits.symm
  fraction_digits c member := isDigit_toDigits n c (List.mem_of_mem_drop member)

/-- The digits of a number with zeros behind them, but not behind a zero. -/
theorem grammatical_whole {n k : Nat} (proper : n = 0 → k = 0) :
    Grammatical ⟨negative, Nat.toDigits 10 n ++ List.replicate k '0', ['0'], none⟩ where
  whole_ne_nil := List.append_ne_nil_of_left_ne_nil Nat.toDigits_ne_nil _
  whole_digits c member := by
    rcases List.mem_append.mp member with digit | zero
    · exact isDigit_toDigits n c digit
    · rw [List.eq_of_mem_replicate zero]
      rfl
  no_leading_zero c rest same := by
    dsimp only at same
    match digits : Nat.toDigits 10 n with
    | [] => exact Nat.toDigits_ne_nil digits
    | [first] =>
      rw [digits] at same
      obtain rfl : first = '0' := (List.cons.inj same).1
      have zero := Nat.ofDigitChars_ten_toDigits (n := n)
      rw [digits] at zero
      rw [proper zero.symm] at same
      cases same
    | first :: second :: more =>
      rw [digits] at same
      obtain rfl : first = '0' := (List.cons.inj same).1
      exact toDigits_ne_zero_cons n _ _ digits
  fraction_digits c member := by
    obtain rfl := List.mem_singleton.mp member
    rfl

theorem grammatical_below (n k : Nat) :
    Grammatical ⟨negative, ['0'], List.replicate k '0' ++ Nat.toDigits 10 n, none⟩ where
  whole_ne_nil := List.cons_ne_nil _ _
  whole_digits c member := by
    obtain rfl := List.mem_singleton.mp member
    rfl
  no_leading_zero c rest same := by cases same
  fraction_digits c member := by
    rcases List.mem_append.mp member with zero | digit
    · rw [List.eq_of_mem_replicate zero]
      rfl
    · exact isDigit_toDigits n c digit

theorem grammatical_numeral (proper : d.digits = 0 → d.exponent = 0) :
    Grammatical (d.numeral negative) := by
  unfold Decimal.numeral
  split
  case isFalse => exact grammatical_cut negative one_pos _
  case isTrue =>
    unfold Decimal.positional
    dsimp only
    split
    case isTrue =>
      refine grammatical_whole negative fun zero => ?_
      rw [proper zero]
      rfl
    case isFalse =>
      split
      case isTrue => exact grammatical_cut negative (by omega) none
      case isFalse => exact grammatical_below negative _ _

end Text

section Accepted

open FloatFormat Json

/-- The digits in front of the point are at most as many as the leading digit says. -/
theorem length_whole_positional (negative : Bool) {d : Decimal} (short : leadingExponent d < 16) :
    (d.positional negative).whole.length ≤ 19 := by
  have some : 0 < (Nat.toDigits 10 d.digits).length := Nat.length_toDigits_pos
  unfold leadingExponent at short
  unfold Decimal.positional
  dsimp only
  split
  case isTrue =>
    rw [List.length_append, List.length_replicate]
    omega
  case isFalse =>
    split
    case isTrue =>
      rw [List.length_take]
      omega
    case isFalse => simp

theorem exponent_positional (negative : Bool) (d : Decimal) :
    (d.positional negative).exponent = none := by
  unfold Decimal.positional
  dsimp only
  split
  case isTrue => rfl
  case isFalse => split <;> rfl

theorem ten_zpow_pos (e : Int) : (0 : ℚ) < 10 ^ e := zpow_pos (by norm_num) e

/-- A moderate number is written with an exponent that it can be scaled by at once. -/
theorem leadingExponent_le {d : Decimal} (nonzero : d.digits ≠ 0)
    (moderate : Moderate d.value d.exponent) : leadingExponent d ≤ 308 := by
  have leading : (10 : ℚ) ^ leadingExponent d ≤ d.value := by
    have digits : 10 ^ ((Nat.toDigits 10 d.digits).length - 1) ≤ d.digits := by
      by_cases single : (Nat.toDigits 10 d.digits).length - 1 = 0
      · rw [single]
        exact Nat.one_le_iff_ne_zero.mpr nonzero
      · rw [← Nat.not_lt, ← Nat.length_toDigits_le_iff (by decide) (Nat.pos_of_ne_zero single)]
        omega
    rw [leadingExponent, Decimal.value, zpow_add₀ (by norm_num), zpow_natCast, mul_comm]
    exact mul_le_mul_of_nonneg_right (mod_cast digits) (ten_zpow_pos _).le
  have bound : d.value < (10 ^ 309 : Nat) := by
    rcases moderate with below | ⟨halfway, -⟩
    · exact lt_of_le_of_lt below (Nat.cast_lt.mpr (by decide +kernel))
    · exact lt_of_le_of_lt halfway (Nat.cast_lt.mpr (by decide +kernel))
  have power := lt_of_le_of_lt leading bound
  rw [Nat.cast_pow, Nat.cast_ofNat, ← zpow_natCast] at power
  have exponent : leadingExponent d < ((309 : Nat) : Int) :=
    (zpow_lt_zpow_iff_right₀ (by norm_num)).mp power
  omega

theorem isSome_scaled?_positional (negative : Bool) {d : Decimal} (short : leadingExponent d < 16)
    (grammatical : Grammatical (d.positional negative)) :
    (d.positional negative).scaled?.isSome := by
  refine Numeral.isSome_scaled? grammatical.whole_digits (length_whole_positional negative short)
    ?_ ?_
  · rw [exponent_positional]
    decide
  · intro significand places bits _ _
    rw [exponent_positional]
    -- all digits in front of the point were taken, so the scaling makes it no greater
    have scaled : (significand : ℚ) * 10 ^ ((none.getD 0 : Int) - places) ≤ significand :=
      mul_le_of_le_one_right (Nat.cast_nonneg _)
        (zpow_le_one_of_nonpos₀ (by norm_num) (by rw [Option.getD_none]; omega))
    exact .inl (scaled.trans (Nat.cast_le.mpr (bits.le.trans (by decide +kernel))))

theorem isSome_scaled?_scientific (negative : Bool) {d : Decimal} (nonzero : d.digits ≠ 0)
    (moderate : Moderate d.value d.exponent) : (d.scientific negative).scaled?.isSome := by
  refine Numeral.isSome_scaled? (grammatical_cut negative one_pos none).whole_digits ?_
    (leadingExponent_le nonzero moderate) ?_
  · exact (List.length_take_le _ _).trans (by decide)
  · intro significand places _ taken value
    change places ≤ ((Nat.toDigits 10 d.digits).drop 1).length at taken
    change significand * 10 ^ (((Nat.toDigits 10 d.digits).drop 1).length - places) ≤
      Nat.ofDigitChars 10 ((Nat.toDigits 10 d.digits).take 1 ++ (Nat.toDigits 10 d.digits).drop 1) 0
      at value
    rw [List.length_drop] at taken value
    rw [List.take_append_drop, Nat.ofDigitChars_ten_toDigits] at value
    have scale : leadingExponent d - places =
        ((Nat.toDigits 10 d.digits).length - 1 - places : Nat) + d.exponent := by
      unfold leadingExponent
      omega
    change Moderate (significand * 10 ^ (leadingExponent d - places)) (leadingExponent d - places)
    refine moderate.mono ?_ (by omega)
    rw [scale, zpow_add₀ (by norm_num), zpow_natCast, ← mul_assoc]
    exact mul_le_mul_of_nonneg_right (mod_cast value) (ten_zpow_pos _).le

theorem isSome_scaled?_numeral (negative : Bool) {d : Decimal} (nonzero : d.digits ≠ 0)
    (moderate : Moderate d.value d.exponent) : (d.numeral negative).scaled?.isSome := by
  have grammatical := grammatical_numeral negative d fun zero => absurd zero nonzero
  unfold Decimal.numeral at grammatical ⊢
  split at grammatical
  case isTrue short =>
    rw [if_pos short]
    exact isSome_scaled?_positional negative short.2 grammatical
  case isFalse long =>
    rw [if_neg long]
    exact isSome_scaled?_scientific negative nonzero moderate

/-- The decimal that a finite float is written as. -/
def writtenDecimal (x : Float) : Decimal :=
  if (Binary.ofFloat x).mantissa = 0 then ⟨0, 0⟩ else (Binary.ofFloat x).shortest .toEven

theorem jsonFormat_write {x : Float} (finite : x.isFinite = true) :
    (Value.jsonFormat.write x).toList = numeralText ((writtenDecimal x).numeral (signBit x)) := by
  rw [isFinite_eq, Bool.not_eq_true', Bool.or_eq_false_iff] at finite
  obtain ⟨number, bounded⟩ := finite
  rw [numeralText_numeral, FloatFormat.write, if_neg (by rw [number]; exact Bool.false_ne_true),
    if_neg (by rw [bounded]; exact Bool.false_ne_true), writtenDecimal]
  dsimp only
  rw [String.toList_ofList]
  cases signBit x <;> rfl

/-- The greatest magnitude is written with 17 digits, and the product that they are read as is
rounded to a finite float. -/
theorem isSome_scaled?_greatest (negative : Bool) :
    (((⟨2 ^ 53 - 1, 971⟩ : Binary).shortest .toEven).numeral negative).scaled?.isSome := by
  cases negative <;> decide +kernel

theorem isSome_scaled?_writtenDecimal {x : Float} (finite : x.isFinite = true) :
    ((writtenDecimal x).numeral (signBit x)).scaled?.isSome := by
  obtain ⟨mantissa_lt, exponent_le⟩ := Binary.ofFloat_bounds finite
  unfold writtenDecimal
  split
  case isTrue =>
    cases signBit x <;> decide +kernel
  case isFalse nonzero =>
    by_cases greatest : Binary.ofFloat x = ⟨2 ^ 53 - 1, 971⟩
    · rw [greatest]
      exact isSome_scaled?_greatest (signBit x)
    · have positive := (Binary.shortest_cases nonzero .toEven).1
      exact isSome_scaled?_numeral (signBit x) (Decimal.value_pos_iff.mp positive)
        (Binary.BelowGreatest.moderate_shortest ⟨mantissa_lt, exponent_le, greatest⟩ nonzero _)

end Accepted

namespace Value

open Json

variable {x : Float}

theorem ofText?_float {text : List Char} {document : Json}
    (written : (jsonFormat.write x).toList = text) (reads : Reads text document) :
    ofText? (String.ofList (Value.float x).toJson) = some (.object [(some "Float", document)]) := by
  rw [toJson, written]
  exact ofText?_member reads

/-- A finite float is read back as a float. -/
theorem exists_readJson_float (finite : x.isFinite = true) :
    ∃ y, readJson ofJson? (String.ofList (Value.float x).toJson) = .ok (.float y) := by
  have proper : (writtenDecimal x).digits = 0 → (writtenDecimal x).exponent = 0 := by
    unfold writtenDecimal
    split
    case isTrue => exact fun _ => rfl
    case isFalse nonzero =>
      exact fun zero => absurd zero
        (Decimal.value_pos_iff.mp (Binary.shortest_cases nonzero .toEven).1)
  have found := ofText?_float (jsonFormat_write finite)
    (reads_numeralText (grammatical_numeral (signBit x) _ proper))
  obtain ⟨y, scaled⟩ := Option.isSome_iff_exists.mp (isSome_scaled?_writtenDecimal finite)
  exact ⟨y, readJson_eq_ok found (congrArg (Option.map Value.float) scaled)⟩

/-- A float that is not finite is written in such a way that it is refused. -/
theorem readJson_float_of_not_finite (infinite : x.isFinite = false) :
    readJson ofJson? (String.ofList (Value.float x).toJson) = .error .malformed := by
  have written : (jsonFormat.write x).toList = "null".toList := by
    rw [isFinite_eq, Bool.not_eq_false', Bool.or_eq_true] at infinite
    unfold FloatFormat.write
    split
    case isTrue => rfl
    case isFalse number =>
      rw [if_pos (infinite.resolve_left number)]
      split <;> rfl
  rw [readJson, ofText?_float written reads_null]
  rfl

end Value

end NodeGraph
