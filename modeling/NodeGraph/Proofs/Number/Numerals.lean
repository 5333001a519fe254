import NodeGraph.Proofs.Number.Integers
import NodeGraph.Proofs.Number.Shortest

/-!
# Numbers that are not refused as an overflow

The significand collected from a numeral is at most what its digits stand for, and it is scaled in
one multiplication when the exponent is not negative. A bound of the rounded product, computed for
each power of ten, shows that moderate numbers do not overflow (`Numeral.isSome_scaled?`).
-/

namespace NodeGraph

namespace Numeral

/-- The greatest significand of 64 bits that is within the bound when it is scaled. -/
def greatestSignificand (bound k : Nat) : Nat := min (UInt64.size - 1) (bound / 10 ^ k)

theorem gridAbove_lastButOne : ∀ k : Fin 309, 0 < greatestSignificand lastButOne k ∧
    gridAbove (greatestSignificand lastButOne k) * gridAbove (10 ^ k.val) ≤ greatestFloat := by
  decide +kernel

theorem gridAbove_halfwayToGreatest : ∀ k : Fin 17,
    0 < greatestSignificand halfwayToGreatest (292 + k) ∧
      gridAbove (greatestSignificand halfwayToGreatest (292 + k)) * gridAbove (10 ^ (292 + k.val)) ≤
        greatestFloat := by
  decide +kernel

/-- Below zero the scaling is by divisions, which never overflow. -/
theorem isSome_scale?_of_neg (x : Float) {e : Int} (negative : e < 0) : (scale? x e).isSome := by
  rw [scale?]
  split
  case isTrue =>
    rw [if_neg (Int.not_le.mpr negative)]
    rfl
  case isFalse =>
    split
    case isTrue => rfl
    case isFalse =>
      rw [if_neg (Int.not_le.mpr negative)]
      exact isSome_scale?_of_neg _ (by omega)
termination_by e.natAbs

theorem le_greatestSignificand {n k bound : Nat} (small : n < UInt64.size)
    (le : ((n * 10 ^ k : Nat) : ℚ) ≤ bound) : n ≤ greatestSignificand bound k :=
  Nat.le_min.mpr ⟨Nat.le_sub_one_of_lt small,
    (Nat.le_div_iff_mul_le (Nat.pow_pos (by decide))).mpr (Nat.cast_le.mp le)⟩

/-- A significand of 64 bits is scaled to a moderate number without an overflow. -/
theorem isSome_scale? {n : Nat} {e : Int} (small : n < UInt64.size) (top : e ≤ 308)
    (moderate : Moderate (n * 10 ^ e) e) : (scale? (Float.ofNat n) e).isSome := by
  by_cases negative : e < 0
  · exact isSome_scale?_of_neg _ negative
  obtain ⟨k, rfl⟩ : ∃ k : Nat, e = k := ⟨e.toNat, by omega⟩
  have finite : (Float.ofNat n * powerOfTen k).isInf = false := by
    have scaled : (n : ℚ) * 10 ^ (k : Int) = (n * 10 ^ k : Nat) := by
      rw [zpow_natCast, Nat.cast_mul, Nat.cast_pow, Nat.cast_ofNat]
    rw [scaled] at moderate
    rcases moderate with below | ⟨halfway, high⟩
    · obtain ⟨positive, fits⟩ := gridAbove_lastButOne ⟨k, by omega⟩
      exact isInf_mul_eq_false (le_greatestSignificand small below) positive fits
    · obtain ⟨j, rfl⟩ : ∃ j : Nat, k = 292 + j := ⟨k - 292, by omega⟩
      obtain ⟨positive, fits⟩ := gridAbove_halfwayToGreatest ⟨j, by omega⟩
      exact isInf_mul_eq_false (le_greatestSignificand small halfway) positive fits
  rw [scale?, if_pos (by omega), if_pos (Int.natCast_nonneg k), Int.toNat_natCast]
  dsimp only
  rw [finite]
  rfl

section Digits

theorem ofDigitChars_lt {cs : List Char} (digits : ∀ c ∈ cs, c.isDigit = true) (init : Nat) :
    Nat.ofDigitChars 10 cs init < (init + 1) * 10 ^ cs.length := by
  induction cs generalizing init with
  | nil => simp
  | cons c cs ih =>
    have digit := digits c List.mem_cons_self
    simp only [Char.isDigit, Bool.and_eq_true, decide_eq_true_eq] at digit
    have value : c.toNat - '0'.toNat ≤ 9 := by
      have top : c.toNat ≤ 57 := digit.2
      have zero : '0'.toNat = 48 := rfl
      omega
    rw [Nat.ofDigitChars_cons, List.length_cons, Nat.pow_succ']
    refine Nat.lt_of_lt_of_le (ih (fun d member => digits d (List.mem_cons_of_mem _ member)) _) ?_
    rw [← Nat.mul_assoc]
    exact Nat.mul_le_mul_right _ (by omega)

/-- Digits that make up a number of 64 bits are all taken. -/
theorem absorb_all {cs : List Char} {init : Nat}
    (fits : Nat.ofDigitChars 10 cs init < UInt64.size) :
    absorb init cs = (Nat.ofDigitChars 10 cs init, cs.length) := by
  induction cs generalizing init with
  | nil => rw [absorb, Nat.ofDigitChars_nil, List.length_nil]
  | cons c cs ih =>
    rw [Nat.ofDigitChars_cons] at fits ⊢
    have next : 10 * init + (c.toNat - '0'.toNat) < UInt64.size :=
      Nat.lt_of_le_of_lt (le_ofDigitChars _ cs) fits
    rw [absorb]
    dsimp only
    rw [if_pos next, ih fits]
    rfl

/-- The digits that are taken make up 64 bits, and dropping the others does not make the number
greater. -/
theorem absorb_bounds {init : Nat} (small : init < UInt64.size) (cs : List Char) :
    (absorb init cs).1 < UInt64.size ∧ (absorb init cs).2 ≤ cs.length ∧
      (absorb init cs).1 * 10 ^ (cs.length - (absorb init cs).2) ≤ Nat.ofDigitChars 10 cs init := by
  induction cs generalizing init with
  | nil => exact ⟨small, Nat.le_refl _, by simp [absorb]⟩
  | cons c cs ih =>
    rw [absorb]
    dsimp only
    split
    case isTrue next =>
      obtain ⟨bits, taken, value⟩ := ih next
      rw [Nat.ofDigitChars_cons, List.length_cons, Nat.add_sub_add_right]
      exact ⟨bits, Nat.succ_le_succ taken, value⟩
    case isFalse =>
      exact ⟨small, Nat.zero_le _, mul_pow_le_ofDigitChars init (c :: cs)⟩

/-- With few digits in front of the point, only digits behind it are dropped. -/
theorem collect_bounds {n : Numeral} (digits : ∀ c ∈ n.whole, c.isDigit = true)
    (short : n.whole.length ≤ 19) : ∃ significand places : Nat,
    n.collect = (significand, -(places : Int)) ∧ significand < UInt64.size ∧
      places ≤ n.fraction.length ∧
      significand * 10 ^ (n.fraction.length - places) ≤
        Nat.ofDigitChars 10 (n.whole ++ n.fraction) 0 := by
  have fits : Nat.ofDigitChars 10 n.whole 0 < UInt64.size := by
    refine Nat.lt_of_lt_of_le (ofDigitChars_lt digits 0) ?_
    rw [Nat.zero_add, Nat.one_mul]
    exact Nat.le_trans (Nat.pow_le_pow_right (by decide) short) (by decide)
  obtain ⟨bits, taken, value⟩ := absorb_bounds fits n.fraction
  rw [← Nat.ofDigitChars_append] at value
  refine ⟨_, _, ?_, bits, taken, value⟩
  unfold collect
  rw [absorb_all fits]
  simp

end Digits

/-- A numeral with few digits in front of the point is accepted if its value is moderate. -/
theorem isSome_scaled? {n : Numeral} (digits : ∀ c ∈ n.whole, c.isDigit = true)
    (short : n.whole.length ≤ 19) (top : n.exponent.getD 0 ≤ 308)
    (moderate : ∀ significand places : Nat, significand < UInt64.size → places ≤ n.fraction.length →
      significand * 10 ^ (n.fraction.length - places) ≤
        Nat.ofDigitChars 10 (n.whole ++ n.fraction) 0 →
      Moderate (significand * 10 ^ (n.exponent.getD 0 - places))
        (n.exponent.getD 0 - places)) : n.scaled?.isSome := by
  obtain ⟨significand, places, collected, bits, taken, value⟩ := collect_bounds digits short
  have scaled := isSome_scale? bits (by omega) (moderate significand places bits taken value)
  unfold scaled?
  rw [collected]
  dsimp only
  rw [Option.map_eq_map, Option.isSome_map]
  split
  case isTrue large =>
    rw [if_neg (by omega)]
    rfl
  case isFalse => exact scaled

end Numeral

end NodeGraph
