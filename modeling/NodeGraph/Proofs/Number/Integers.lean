import Mathlib.Algebra.Group.Nat.Defs
import Mathlib.Algebra.Ring.Int.Defs
import Mathlib.Data.List.Induction
import NodeGraph.Number.Numeral
import NodeGraph.Number.Word

/-!
# Written integers

A natural number is written as a run of decimal digits, which grows at its end, and an integer as
such a run behind an optional sign. What is read as an integer is exactly what is written in this
way (`Numeral.integer?_eq_some_iff`), and the digits of an integer of 64 bits can be read one by
one within 64 bits: the reading breaks off at the first digit that no longer fits exactly when the
whole integer does not fit (`Numeral.readStepwise?_eq`).
-/

namespace NodeGraph

/-- Some integers are too small or too large for 64 bits, and those alone have no such form. -/
theorem int64?_eq_none_iff {z : Int} : int64? z = none ↔ ¬ (-2 ^ 63 ≤ z ∧ z < 2 ^ 63) := by
  have low : Int64.minValue.toInt = -2 ^ 63 := rfl
  have high : Int64.maxValue.toInt = 2 ^ 63 - 1 := rfl
  rw [int64?, low, high, ite_eq_right_iff]
  simp only [reduceCtorEq, imp_false]
  omega

namespace Numeral

/-- The text is a run of decimal digits that stands for the number. -/
inductive IsNatural : List Char → Nat → Prop
  | digit {d : Nat} : d < 10 → IsNatural [Nat.digitChar d] d
  | append {cs : List Char} {n d : Nat} :
    IsNatural cs n → d < 10 → IsNatural (cs ++ [Nat.digitChar d]) (10 * n + d)

/-- The text is a run of decimal digits, with or without a sign, that stands for the integer. -/
inductive IsInteger : List Char → Int → Prop
  | bare {cs : List Char} {n : Nat} : IsNatural cs n → IsInteger cs n
  | plus {cs : List Char} {n : Nat} : IsNatural cs n → IsInteger ('+' :: cs) n
  | minus {cs : List Char} {n : Nat} : IsNatural cs n → IsInteger ('-' :: cs) (-n)

section Natural

theorem mul_pow_le_ofDigitChars (init : Nat) (cs : List Char) :
    init * 10 ^ cs.length ≤ Nat.ofDigitChars 10 cs init := by
  rw [Nat.ofDigitChars_eq_ofDigitChars_zero, Nat.mul_comm]
  exact Nat.le_add_right _ _

/-- Digits behind a number do not make it smaller. -/
theorem le_ofDigitChars (init : Nat) (cs : List Char) : init ≤ Nat.ofDigitChars 10 cs init := by
  have shift : 0 < 10 ^ cs.length := Nat.pow_pos (by decide)
  exact Nat.le_trans (Nat.le_mul_of_pos_right _ shift) (mul_pow_le_ofDigitChars init cs)

theorem IsNatural.isDigit {cs : List Char} {n : Nat} (natural : IsNatural cs n) :
    ∀ c ∈ cs, c.isDigit = true := by
  induction natural with
  | digit small =>
    intro c member
    rw [List.mem_singleton.mp member, Nat.isDigit_digitChar, decide_eq_true small]
  | append _ small ih =>
    intro c member
    rcases List.mem_append.mp member with before | last
    · exact ih c before
    · rw [List.mem_singleton.mp last, Nat.isDigit_digitChar, decide_eq_true small]

theorem IsNatural.ne_nil {cs : List Char} {n : Nat} (natural : IsNatural cs n) : cs ≠ [] := by
  cases natural with
  | digit => nofun
  | append => exact List.append_ne_nil_of_right_ne_nil _ nofun

theorem ofDigitChars_digitChar {d : Nat} (small : d < 10) (n : Nat) :
    Nat.ofDigitChars 10 [Nat.digitChar d] n = 10 * n + d := by
  rw [Nat.ofDigitChars_cons_digitChar_of_lt_ten small, Nat.ofDigitChars_nil]

theorem IsNatural.ofDigitChars {cs : List Char} {n : Nat} (natural : IsNatural cs n) :
    Nat.ofDigitChars 10 cs 0 = n := by
  induction natural with
  | digit small => rw [ofDigitChars_digitChar small, Nat.mul_zero, Nat.zero_add]
  | append _ small ih => rw [Nat.ofDigitChars_append, ih, ofDigitChars_digitChar small]

/-- A digit is the character of its own value. -/
theorem exists_digitChar {c : Char} (digit : c.isDigit = true) :
    ∃ d < 10, c = Nat.digitChar d := by
  obtain ⟨low, high⟩ := Char.isDigit_iff_toNat.mp digit
  have zero : '0'.toNat = 48 := rfl
  have nine : '9'.toNat = 57 := rfl
  refine ⟨c.toNat - 48, by omega, Char.toNat_inj.mp ?_⟩
  rw [Nat.toNat_digitChar_of_lt_ten (by omega)]
  omega

/-- A run of digits is read from its end, as it has grown. -/
theorem isNatural_ofDigitChars {cs : List Char} (nonempty : cs ≠ [])
    (digits : ∀ c ∈ cs, c.isDigit = true) : IsNatural cs (Nat.ofDigitChars 10 cs 0) := by
  induction cs using List.reverseRecOn with
  | nil => exact absurd rfl nonempty
  | append_singleton cs c ih =>
    obtain ⟨d, small, rfl⟩ := exists_digitChar (digits c (by simp))
    rw [Nat.ofDigitChars_append, ofDigitChars_digitChar small]
    cases cs with
    | nil => simpa using IsNatural.digit small
    | cons first cs =>
      exact .append (ih nofun fun e member => digits e (List.mem_append_left _ member)) small

theorem natural?_eq_some_iff {cs : List Char} {n : Nat} :
    natural? cs = some n ↔ IsNatural cs n := by
  rw [natural?, Option.ite_none_right_eq_some, List.all_eq_true]
  constructor
  · rintro ⟨⟨nonempty, digits⟩, ⟨⟩⟩
    exact isNatural_ofDigitChars nonempty digits
  · intro natural
    exact ⟨⟨natural.ne_nil, natural.isDigit⟩, congrArg some natural.ofDigitChars⟩

theorem isNatural_toDigits (n : Nat) : IsNatural (Nat.toDigits 10 n) n := by
  have natural := isNatural_ofDigitChars Nat.toDigits_ne_nil fun c member =>
    Nat.isDigit_of_mem_toDigits (b := 10) (n := n) (by decide) (by decide) member
  rwa [Nat.ofDigitChars_ten_toDigits] at natural

end Natural

section Integer

/-- The integer of a sign and a magnitude. -/
def withSign (negative : Bool) (n : Nat) : Int := if negative then -(n : Int) else n

@[simp] theorem withSign_true (n : Nat) : withSign true n = -n := rfl

@[simp] theorem withSign_false (n : Nat) : withSign false n = n := rfl

theorem withSign_add (negative : Bool) (m n : Nat) :
    withSign negative (m + n) = withSign negative m + withSign negative n := by
  cases negative with
  | true => rw [withSign_true, withSign_true, withSign_true, Int.natCast_add, Int.neg_add]
  | false => exact Int.natCast_add m n

theorem withSign_mul (negative : Bool) (m n : Nat) :
    withSign negative (m * n) = m * withSign negative n := by
  cases negative with
  | true => rw [withSign_true, withSign_true, Int.natCast_mul, Int.mul_neg]
  | false => exact Int.natCast_mul m n

theorem integer?_eq_map (cs : List Char) :
    integer? cs = (natural? (splitSign cs).2).map (withSign (splitSign cs).1) := by
  unfold integer?
  obtain ⟨negative, digits⟩ := splitSign cs
  dsimp only
  cases natural? digits <;> rfl

/-- No sign is split off a run of digits. -/
theorem IsNatural.splitSign {cs : List Char} {n : Nat} (natural : IsNatural cs n) :
    Numeral.splitSign cs = (false, cs) := by
  refine splitSign.eq_3 cs ?_ ?_
  · rintro rest rfl
    exact absurd (natural.isDigit '-' List.mem_cons_self) (by decide)
  · rintro rest rfl
    exact absurd (natural.isDigit '+' List.mem_cons_self) (by decide)

/-- A written integer is made up of the sign that is split off and of digits. -/
theorem isInteger_iff {cs : List Char} {z : Int} : IsInteger cs z ↔
    ∃ n, IsNatural (splitSign cs).2 n ∧ withSign (splitSign cs).1 n = z := by
  constructor
  · intro integer
    cases integer with
    | bare natural =>
      rw [natural.splitSign]
      exact ⟨_, natural, rfl⟩
    | plus natural => exact ⟨_, natural, rfl⟩
    | minus natural => exact ⟨_, natural, rfl⟩
  · rintro ⟨n, natural, rfl⟩
    revert natural
    fun_cases splitSign cs with
    | case1 rest => exact .minus
    | case2 rest => exact .plus
    | case3 rest => exact .bare

/-- What is read as an integer is written as one, and the other way round. -/
theorem integer?_eq_some_iff {cs : List Char} {z : Int} :
    integer? cs = some z ↔ IsInteger cs z := by
  simp only [integer?_eq_map, Option.map_eq_some_iff, natural?_eq_some_iff, isInteger_iff]

/-- An integer is displayed as it is written, with a sign only where it is negative. -/
theorem isInteger_repr (z : Int) : IsInteger z.repr.toList z := by
  rw [Int.repr_eq_if]
  by_cases nonneg : 0 ≤ z
  · rw [if_pos nonneg, Nat.toList_repr]
    have natural := IsInteger.bare (isNatural_toDigits z.toNat)
    rwa [Int.toNat_of_nonneg nonneg] at natural
  · rw [if_neg nonneg, String.toList_append, Nat.toList_repr]
    have natural := IsInteger.minus (isNatural_toDigits (-z).toNat)
    rwa [Int.toNat_of_nonneg (by omega), Int.neg_neg] at natural

end Integer

section Stepwise

/-- Appends a digit to an integer of 64 bits, if neither the tens nor their sum with the digit
leaves the 64 bits. A negative integer goes down with each digit, so the least one is in reach. -/
def appendDigit? (negative : Bool) (i : Int64) (c : Char) : Option Int64 := do
  guard (c.isDigit = true)
  let tens ← int64? (10 * i.toInt)
  int64? (tens.toInt + withSign negative (c.toNat - '0'.toNat))

/-- Reads an integer digit by digit, and nothing wider than 64 bits is held on the way. -/
def readStepwise? (cs : List Char) : Option Int64 :=
  let (negative, digits) := splitSign cs
  if digits = [] then none else digits.foldlM (appendDigit? negative) 0

variable {negative : Bool}

/-- A greater magnitude does not fit where a smaller one does not. -/
theorem int64?_withSign_eq_none {m n : Nat} (le : m ≤ n)
    (large : int64? (withSign negative m) = none) : int64? (withSign negative n) = none := by
  rw [int64?_eq_none_iff] at large ⊢
  cases negative <;> simp only [withSign_true, withSign_false] at large ⊢ <;> omega

/-- One digit more is appended exactly when the longer integer fits. -/
theorem appendDigit?_eq {n : Nat} {i : Int64} {c : Char}
    (held : int64? (withSign negative n) = some i) (digit : c.isDigit = true) :
    appendDigit? negative i c =
      int64? (withSign negative (10 * n + (c.toNat - '0'.toNat))) := by
  have tens : 10 * i.toInt = withSign negative (10 * n) := by
    rw [int64?_eq_some_iff.mp held, withSign_mul]
    rfl
  unfold appendDigit?
  rw [digit, tens]
  cases fits : int64? (withSign negative (10 * n)) with
  | none =>
    rw [int64?_withSign_eq_none (Nat.le_add_right _ _) fits]
    rfl
  | some j =>
    rw [withSign_add, ← int64?_eq_some_iff.mp fits]
    rfl

/-- The digits behind an integer that is held are read to their end exactly when the integer that
they make up together fits. -/
theorem foldlM_appendDigit? {n : Nat} {i : Int64} (held : int64? (withSign negative n) = some i)
    (cs : List Char) : cs.foldlM (appendDigit? negative) i =
      if cs.all Char.isDigit then int64? (withSign negative (Nat.ofDigitChars 10 cs n))
      else none := by
  induction cs generalizing n i with
  | nil => exact held.symm
  | cons c cs ih =>
    rw [List.foldlM_cons, List.all_cons, Nat.ofDigitChars_cons]
    cases digit : c.isDigit with
    | false =>
      unfold appendDigit?
      rw [digit]
      rfl
    | true =>
      rw [appendDigit?_eq held digit, Bool.true_and]
      cases longer : int64? (withSign negative (10 * n + (c.toNat - '0'.toNat))) with
      | some j => exact ih longer
      | none =>
        -- the digits that remain do not make the magnitude smaller
        rw [int64?_withSign_eq_none (le_ofDigitChars _ cs) longer, ite_self]
        rfl

/-- To read digit by digit within 64 bits is to read the whole integer and see whether it fits. -/
theorem readStepwise?_eq (cs : List Char) : readStepwise? cs = (integer? cs).bind int64? := by
  have start : int64? (withSign (splitSign cs).1 0) = some 0 :=
    int64?_eq_some_iff.mpr (by cases (splitSign cs).1 <;> rfl)
  rw [integer?_eq_map, natural?]
  unfold readStepwise?
  dsimp only
  rw [foldlM_appendDigit? start]
  by_cases empty : (splitSign cs).2 = []
  · simp [empty]
  · by_cases digits : (splitSign cs).2.all Char.isDigit = true
    · rw [if_neg empty, if_pos digits, if_pos ⟨empty, digits⟩]
      rfl
    · rw [if_neg empty, if_neg digits, if_neg fun both => digits both.2]
      rfl

end Stepwise

end Numeral

end NodeGraph
