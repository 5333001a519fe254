import NodeGraph.Proofs.Number.Integers
import NodeGraph.Proofs.Text.Trimming
import NodeGraph.Value.Coercion

/-!
# Texts taken as integers

A text is taken as the integer that its core is written as, if this fits 64 bits, and as zero
otherwise. Signs and digits are no blanks, so an integer that is displayed between blanks is the
core of the text, and it is read back as it was (`Value.displayed_integers_read_back`).
-/

namespace NodeGraph

open Numeral (IsInteger readStepwise?)

namespace Text

theorem isBlank_digitChar : ∀ d < 10, isBlank (Nat.digitChar d) = false := by
  decide

theorem isBlank_of_isNatural {cs : List Char} {n : Nat} (natural : Numeral.IsNatural cs n) :
    ∀ c ∈ cs, isBlank c = false := by
  intro c member
  obtain ⟨d, small, rfl⟩ := Numeral.exists_digitChar (natural.isDigit c member)
  exact isBlank_digitChar d small

theorem isBlank_of_isInteger {cs : List Char} {z : Int} (integer : IsInteger cs z) :
    ∀ c ∈ cs, isBlank c = false := by
  have behindSign {sign : Char} {digits : List Char} {n : Nat} (visible : isBlank sign = false)
      (natural : Numeral.IsNatural digits n) : ∀ c ∈ sign :: digits, isBlank c = false := by
    intro c member
    rcases List.mem_cons.mp member with rfl | digit
    · exact visible
    · exact isBlank_of_isNatural natural c digit
  cases integer with
  | bare natural => exact isBlank_of_isNatural natural
  | plus natural => exact behindSign rfl natural
  | minus natural => exact behindSign rfl natural

/-- An integer that is written between blanks is the core of the text. -/
theorem isCore_of_isInteger {front cs behind : List Char} {z : Int} (before : AllBlank front)
    (integer : IsInteger cs z) (after : AllBlank behind) :
    IsCore (front ++ (cs ++ behind)) cs where
  framed := ⟨front, behind, before, after, rfl⟩
  begins c first := isBlank_of_isInteger integer c (List.mem_of_mem_head? first)
  ends c last := isBlank_of_isInteger integer c (List.mem_of_mem_getLast? last)

section Core

variable {s : String} {core : List Char}

theorem toInt_eq_core (isCore : IsCore s.toList core) :
    toInt s = ((Numeral.integer? core).bind int64?).getD 0 := by
  rw [toInt, isCore.trim_eq]

/-- An integer that the core is written as, and that fits 64 bits, is the one that is held. -/
theorem toInt_of_isInteger (isCore : IsCore s.toList core) {i : Int64}
    (integer : IsInteger core i.toInt) : toInt s = i := by
  rw [toInt_eq_core isCore, Numeral.integer?_eq_some_iff.mpr integer, Option.bind_some,
    int64?_eq_some_iff.mpr rfl, Option.getD_some]

/-- A core that is written as no integer that fits 64 bits is as good as nothing. -/
theorem toInt_eq_zero (isCore : IsCore s.toList core)
    (none : ∀ z, IsInteger core z → ¬ (-2 ^ 63 ≤ z ∧ z < 2 ^ 63)) : toInt s = 0 := by
  rw [toInt_eq_core isCore]
  cases read : Numeral.integer? core with
  | none => rfl
  | some z =>
    have large := none z (Numeral.integer?_eq_some_iff.mp read)
    rw [Option.bind_some, int64?_eq_none_iff.mpr large, Option.getD_none]

end Core

end Text

open Text

/-- An integer that is displayed between blanks is read back. Every text has one core, and it is
taken as the integer that the core is written as, by an optional sign and decimal digits, if this
fits 64 bits, and as zero otherwise. It makes no difference to read the core digit by digit and to
give up at the first one that does not fit. -/
theorem Value.displayed_integers_read_back :
    (∀ (i : Int64) (front behind : String), AllBlank front.toList → AllBlank behind.toList →
      (text (front ++ (int i).display ++ behind)).toInt = i) ∧
    ∀ s : String, ∃ core, (∀ cs, IsCore s.toList cs ↔ cs = core) ∧
      (∀ z, IsInteger core z → -2 ^ 63 ≤ z → z < 2 ^ 63 → (text s).toInt.toInt = z) ∧
      ((∀ z, IsInteger core z → ¬ (-2 ^ 63 ≤ z ∧ z < 2 ^ 63)) → (text s).toInt = 0) ∧
      (text s).toInt = (readStepwise? core).getD 0 := by
  constructor
  · intro i front behind before after
    have integer := Numeral.isInteger_repr i.toInt
    have isCore : IsCore (front ++ (int i).display ++ behind).toList i.toInt.repr.toList := by
      rw [String.toList_append, String.toList_append, List.append_assoc]
      exact isCore_of_isInteger before integer after
    exact toInt_of_isInteger isCore integer
  · intro s
    have isCore := isCore_trim s.toList
    refine ⟨trim s.toList, fun cs => ?_, ?_, toInt_eq_zero isCore, ?_⟩
    · rw [← trim_eq_iff, eq_comm]
    · intro z integer low high
      obtain ⟨i, rfl⟩ : ∃ i : Int64, i.toInt = z :=
        ⟨Int64.ofInt z, Int64.toInt_ofInt_of_le low high⟩
      exact congrArg Int64.toInt (toInt_of_isInteger isCore integer)
    · rw [Numeral.readStepwise?_eq]
      exact toInt_eq_core isCore

/-- The least integer reads back between blanks of several scripts. A plus and zeros in front do no
harm, and the first integer that does not fit any more counts as zero. -/
theorem Value.displayed_integers_read_back_least :
    AllBlank "\u00a0\t".toList ∧ AllBlank "\u3000\n".toList ∧
      (text ("\u00a0\t" ++ (int Int64.minValue).display ++ "\u3000\n")).toInt = Int64.minValue ∧
      IsCore " +007\n".toList ['+', '0', '0', '7'] ∧ IsInteger ['+', '0', '0', '7'] 7 ∧
      (text " +007\n").toInt.toInt = 7 ∧ (text "9223372036854775808").toInt = 0 := by
  have front : AllBlank "\u00a0\t".toList := by decide
  have behind : AllBlank "\u3000\n".toList := by decide
  have isCore : IsCore " +007\n".toList ['+', '0', '0', '7'] := trim_eq_iff.mp (by decide)
  have integer : IsInteger ['+', '0', '0', '7'] 7 := Numeral.integer?_eq_some_iff.mp (by decide)
  obtain ⟨displayed, taken⟩ := displayed_integers_read_back
  obtain ⟨core, unique, fits, _⟩ := taken " +007\n"
  obtain rfl := (unique _).mp isCore
  obtain ⟨large, only, _, none, _⟩ := taken "9223372036854775808"
  refine ⟨front, behind, displayed _ _ _ front behind, isCore, integer,
    fits 7 integer (by decide) (by decide), none fun z written => ?_⟩
  have same : large = "9223372036854775808".toList :=
    ((only _).mp (trim_eq_iff.mp (by decide))).symm
  have value : Numeral.integer? large = some (2 ^ 63) := by
    rw [same]
    decide
  have read := Numeral.integer?_eq_some_iff.mpr written
  rw [value] at read
  obtain rfl := Option.some.inj read
  decide

end NodeGraph
