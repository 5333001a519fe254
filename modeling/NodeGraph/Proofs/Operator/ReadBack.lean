import NodeGraph.Proofs.Json.Floats
import NodeGraph.Proofs.Operator.Integral

/-!
# Reading results back

A result is written as JSON in such a way that it reads back as a value of the same kind, unless it
is an infinity or NaN. For integral operands these are the quotients and remainders without a
divisor, and the powers that leave the integers and are not finite (`Arithmetic.results_read_back`).
-/

namespace NodeGraph

open Float.Model

namespace Value

/-- Values of one kind. -/
def SameKind : Value → Value → Prop
  | .empty, .empty | .bool _, .bool _ | .int _, .int _ => True
  | .float _, .float _ | .text _, .text _ => True
  | _, _ => False

/-- What is written for the value is read as a value of the same kind. -/
def ReadsBack (v : Value) : Prop :=
  ∃ w, readJson ofJson? (String.ofList v.toJson) = .ok w ∧ w.SameKind v

theorem readsBack_int (i : Int64) : (Value.int i).ReadsBack :=
  ⟨.int i, readJson_toJson nofun, trivial⟩

theorem readsBack_float_iff {x : Float} : (Value.float x).ReadsBack ↔ x.isFinite = true := by
  constructor
  · rintro ⟨w, read, _⟩
    by_contra infinite
    rw [readJson_float_of_not_finite (Bool.eq_false_of_not_eq_true infinite)] at read
    cases read
  · intro finite
    obtain ⟨y, read⟩ := exists_readJson_float finite
    exact ⟨.float y, read, trivial⟩

theorem toFloat_of_integer?_zero {v : Value} (zero : v.integer? = some 0) : v.toFloat = 0.0 := by
  cases v with
  | empty => rfl
  | bool b =>
    cases b with
    | false => rfl
    | true => cases zero
  | int i =>
    have value : i.toInt = 0 := Option.some.inj zero
    rw [toFloat, value]
    decide +kernel
  | float | text => cases zero

end Value

theorem isFinite_unpack_infinity (s : UnpackedFloat.Sign) :
    (Float.Model.pack (.infinity s)).unpack.isFinite = false := by
  cases s <;> decide +kernel

theorem isFinite_unpack_notANumber :
    (Float.Model.pack .notANumber).unpack.isFinite = false := by decide +kernel

/-- A float divided by zero is an infinity or NaN. -/
theorem isFinite_div_zero (x : Float) : (x / 0.0).isFinite = false := by
  have zero : (0.0 : Float).toModel.unpack = .zero .positive := by rfl
  change (Float.Model.pack (UnpackedFloat.div Format.binary64 x.toModel.unpack
    (0.0 : Float).toModel.unpack)).unpack.isFinite = false
  rw [zero]
  cases x.toModel.unpack with
  | notANumber | zero => exact isFinite_unpack_notANumber
  | infinity | finite => exact isFinite_unpack_infinity _

theorem isFinite_remainder_zero (x : Float) : (remainder x 0.0).isFinite = false := by
  have zero : ((0.0 : Float) == 0.0) = true := by decide +kernel
  rw [remainder, zero, Bool.or_true, if_pos rfl]
  exact isFinite_div_zero 0.0

namespace Arithmetic

open Value

theorem apply_eq_int_or_float (op : Arithmetic) (a b : Value) : (∃ i, op.apply a b = .int i) ∨
    op.apply a b = .float (op.onFloats a.toFloat b.toFloat) := by
  unfold apply
  dsimp only
  split
  next i _ => exact .inl ⟨i, rfl⟩
  next => exact .inr rfl

/-- What does not read back is refused. -/
theorem readJson_of_not_readsBack {op : Arithmetic} {a b : Value}
    (lost : ¬ (op.apply a b).ReadsBack) :
    readJson ofJson? (String.ofList (op.apply a b).toJson) = .error .malformed := by
  rcases apply_eq_int_or_float op a b with ⟨i, result⟩ | result
  · rw [result] at lost
    exact absurd (readsBack_int i) lost
  · rw [result, readsBack_float_iff, Bool.not_eq_true] at lost
    rw [result]
    exact readJson_float_of_not_finite lost

variable {op : Arithmetic} {a b : Value} {x y : Int}

/-- Without a divisor a quotient or a remainder is an infinity or NaN. -/
theorem isFinite_onFloats_zero (right : b.integer? = some 0) (divides : op ∈ [div, mod]) :
    (op.onFloats a.toFloat b.toFloat).isFinite = false := by
  rw [toFloat_of_integer?_zero right]
  simp only [List.mem_cons, List.not_mem_nil, or_false] at divides
  rcases divides with rfl | rfl
  · exact isFinite_div_zero a.toFloat
  · exact isFinite_remainder_zero a.toFloat

/-- Which results on integral operands read back from their JSON, and that the others are refused.
Sums, differences, products, minima and maxima read back, quotients and remainders do where there
is a divisor, and powers do where they are integers or finite. What is an integer reads back as the
same integer. -/
theorem results_read_back (left : a.integer? = some x) (right : b.integer? = some y) :
    (∀ op ∈ [add, sub, mul, min, max], (apply op a b).ReadsBack) ∧
    (∀ op ∈ [div, mod], (apply op a b).ReadsBack ↔ y ≠ 0) ∧
    ((apply pow a b).ReadsBack ↔
      (0 ≤ y ∧ y < 2 ^ 32) ∨ (a.toFloat.pow b.toFloat).isFinite = true) ∧
    (∀ op i, apply op a b = .int i →
      readJson ofJson? (String.ofList (apply op a b).toJson) = .ok (.int i)) ∧
    ∀ op, ¬ (apply op a b).ReadsBack →
      readJson ofJson? (String.ofList (apply op a b).toJson) = .error .malformed := by
  have integer (op : Arithmetic) : (∃ i, apply op a b = .int i) → (apply op a b).ReadsBack := by
    rintro ⟨i, result⟩
    rw [result]
    exact readsBack_int i
  have float (op : Arithmetic) (none : ¬ ∃ i, apply op a b = .int i) :
      (apply op a b).ReadsBack ↔ (op.onFloats a.toFloat b.toFloat).isFinite = true := by
    rw [(apply_eq_int_or_float op a b).resolve_left none, readsBack_float_iff]
  refine ⟨?_, ?_, ?_, ?_, fun op => readJson_of_not_readsBack⟩
  · intro op member
    refine integer op ((exists_int_iff left right).mpr ?_)
    rw [isSome_unbounded?_iff]
    cases op <;> simp at member ⊢
  · intro op divides
    have result : (∃ i, apply op a b = .int i) ↔ y ≠ 0 := by
      rw [exists_int_iff left right, isSome_unbounded?_iff]
      cases op <;> simp at divides ⊢
    by_cases divisor : y = 0
    · subst divisor
      have none : ¬ ∃ i, apply op a b = .int i := fun given => result.mp given rfl
      rw [float op none, isFinite_onFloats_zero right divides]
      exact ⟨nofun, fun given => absurd rfl given⟩
    · exact ⟨fun _ => divisor, fun given => integer op (result.mpr given)⟩
  · have result : (∃ i, apply pow a b = .int i) ↔ 0 ≤ y ∧ y < 2 ^ 32 := by
      rw [exists_int_iff left right, isSome_unbounded?_iff]
      simp
    by_cases given : ∃ i, apply pow a b = .int i
    · exact ⟨fun _ => .inl (result.mp given), fun _ => integer pow given⟩
    · rw [float pow given, ← result]
      exact (or_iff_right given).symm
  · intro op i result
    rw [result]
    exact readJson_toJson nofun

/-- The least integer divided by a truth value reads back, and a remainder without a divisor is
refused. -/
theorem results_read_back_least :
    (Value.int Int64.minValue).integer? = some (-2 ^ 63) ∧ (Value.bool true).integer? = some 1 ∧
      (apply div (.int Int64.minValue) (.bool true)).ReadsBack ∧
      Value.empty.integer? = some 0 ∧
      readJson ofJson? (String.ofList (apply mod (.int Int64.minValue) .empty).toJson) =
        .error .malformed := by
  have left : (Value.int Int64.minValue).integer? = some (-2 ^ 63) := by decide
  obtain ⟨_, quotients, _⟩ := results_read_back left (b := .bool true) rfl
  obtain ⟨_, remainders, _, _, refused⟩ := results_read_back left (b := .empty) rfl
  refine ⟨left, rfl, (quotients div (by decide)).mpr (by decide), rfl, refused mod fun back => ?_⟩
  exact (remainders mod (by decide)).mp back rfl

/-- One divided by zero is an infinity. It is written without a number and does not read back. -/
theorem quotient_of_one_refused : (Value.int 1).integer? = some 1 ∧
    (Value.int 0).integer? = some 0 ∧
      String.ofList (apply div (.int 1) (.int 0)).toJson = "\x7b\"Float\":null\x7d" ∧
      ¬ (apply div (.int 1) (.int 0)).ReadsBack := by
  have divisor : (Value.int 0).integer? = some 0 := by decide
  have infinite : (div.onFloats (Value.int 1).toFloat (Value.int 0).toFloat).isFinite = false :=
    isFinite_onFloats_zero divisor (by decide)
  refine ⟨by decide, divisor, by decide +kernel, ?_⟩
  change ¬ (Value.float _).ReadsBack
  rw [readsBack_float_iff, infinite]
  exact Bool.false_ne_true

end Arithmetic

end NodeGraph
