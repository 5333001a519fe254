import NodeGraph.Operator.Comparison
import NodeGraph.Proofs.Operator.Integral
import NodeGraph.Proofs.Text.Bytes

/-!
# The order behind the comparisons

The six comparisons of two values are decided by one order of these values, or by their being
unordered, so they agree with each other for all values. Texts are compared by their bytes and
integral values by their integers, both linear orders, so among these values to be less or equal is
a total preorder, and the other comparisons are read off it (`Comparison.comparisons_agree`).
-/

namespace NodeGraph

namespace Comparison

/-- The comparison comes out as true. -/
def Holds (op : Comparison) (a b : Value) : Prop := op.apply a b = .bool true

/-- To be less or equal is a total preorder among some values, equality is its equivalence, and the
strict comparisons are its strict part and the converse of that. -/
structure OrdersTotally (among : Value → Prop) : Prop where
  refl : ∀ {a}, among a → lessEq.Holds a a
  trans : ∀ {a b c}, among a → among b → among c →
    lessEq.Holds a b → lessEq.Holds b c → lessEq.Holds a c
  total : ∀ {a b}, among a → among b → lessEq.Holds a b ∨ lessEq.Holds b a
  equal_iff : ∀ {a b}, among a → among b →
    (equal.Holds a b ↔ lessEq.Holds a b ∧ lessEq.Holds b a)
  less_iff : ∀ {a b}, among a → among b →
    (less.Holds a b ↔ lessEq.Holds a b ∧ ¬ lessEq.Holds b a)
  greater_iff : ∀ {a b}, among a → among b → (greater.Holds a b ↔ less.Holds b a)
  trichotomy : ∀ {a b}, among a → among b →
    (less.Holds a b ∧ ¬ equal.Holds a b ∧ ¬ greater.Holds a b) ∨
      (¬ less.Holds a b ∧ equal.Holds a b ∧ ¬ greater.Holds a b) ∨
      (¬ less.Holds a b ∧ ¬ equal.Holds a b ∧ greater.Holds a b)

section Pair

variable {a b : Value}

/-- A comparison of an ordered pair comes out as it accepts the order. -/
theorem holds_iff_accepts {order : Ordering} (ordered : a.compare? b = some order)
    (op : Comparison) : op.Holds a b ↔ op.accepts order = true := by
  rw [Holds, apply, ordered, Value.bool.injEq]

/-- Values that are not ordered are different, and nothing else. -/
theorem holds_iff_notEqual (unordered : a.compare? b = none) (op : Comparison) :
    op.Holds a b ↔ op = notEqual := by
  rw [Holds, apply, unordered, Value.bool.injEq, beq_iff_eq]

theorem exists_apply_eq_bool (op : Comparison) (a b : Value) :
    ∃ truth, op.apply a b = .bool truth := by
  unfold apply
  split
  · exact ⟨_, rfl⟩
  · exact ⟨_, rfl⟩

/-- How the comparisons of any two values hang together. -/
theorem holds_together (a b : Value) :
    (notEqual.Holds a b ↔ ¬ equal.Holds a b) ∧
    (lessEq.Holds a b ↔ less.Holds a b ∨ equal.Holds a b) ∧
    (greaterEq.Holds a b ↔ greater.Holds a b ∨ equal.Holds a b) ∧
    ¬ (less.Holds a b ∧ equal.Holds a b) ∧ ¬ (less.Holds a b ∧ greater.Holds a b) ∧
    ¬ (equal.Holds a b ∧ greater.Holds a b) := by
  cases order : a.compare? b with
  | none => simp [holds_iff_notEqual order]
  | some order' => cases order' <;> simp [holds_iff_accepts order, accepts]

end Pair

section Linear

variable {α : Type} [LinearOrder α] {among : Value → Prop}

/-- Where values are compared by keys in a linear order, the comparisons are those of the keys. -/
theorem holds_iff_of_compare {a b : Value} {x y : α} (ordered : a.compare? b = some (compare x y)) :
    (lessEq.Holds a b ↔ x ≤ y) ∧ (less.Holds a b ↔ x < y) ∧
      (equal.Holds a b ↔ x = y) ∧ (greater.Holds a b ↔ y < x) := by
  simp only [holds_iff_accepts ordered, accepts, bne_iff_ne, beq_iff_eq]
  exact ⟨compare_le_iff_le, compare_lt_iff_lt, compare_eq_iff_eq, compare_gt_iff_gt⟩

/-- Values that are compared by a key in a linear order are totally preordered. -/
theorem ordersTotally_of_key (key : Value → α) (ordered : ∀ {a b}, among a → among b →
    a.compare? b = some (compare (key a) (key b))) : OrdersTotally among where
  refl ha := (holds_iff_of_compare (ordered ha ha)).1.mpr le_rfl
  trans ha hb hc below above := by
    rw [(holds_iff_of_compare (ordered ha hb)).1] at below
    rw [(holds_iff_of_compare (ordered hb hc)).1] at above
    exact (holds_iff_of_compare (ordered ha hc)).1.mpr (below.trans above)
  total ha hb := by
    rw [(holds_iff_of_compare (ordered ha hb)).1, (holds_iff_of_compare (ordered hb ha)).1]
    exact le_total _ _
  equal_iff ha hb := by
    rw [(holds_iff_of_compare (ordered ha hb)).2.2.1, (holds_iff_of_compare (ordered ha hb)).1,
      (holds_iff_of_compare (ordered hb ha)).1]
    exact le_antisymm_iff
  less_iff ha hb := by
    rw [(holds_iff_of_compare (ordered ha hb)).2.1, (holds_iff_of_compare (ordered ha hb)).1,
      (holds_iff_of_compare (ordered hb ha)).1]
    exact lt_iff_le_not_ge
  greater_iff ha hb := by
    rw [(holds_iff_of_compare (ordered ha hb)).2.2.2, (holds_iff_of_compare (ordered hb ha)).2.1]
  trichotomy {a b} ha hb := by
    obtain ⟨-, ifLess, ifEqual, ifGreater⟩ := holds_iff_of_compare (ordered ha hb)
    rw [ifLess, ifEqual, ifGreater]
    rcases lt_trichotomy (key a) (key b) with before | same | behind
    · exact .inl ⟨before, before.ne, before.asymm⟩
    · exact .inr (.inl ⟨same.not_lt, same, same.not_gt⟩)
    · exact .inr (.inr ⟨behind.asymm, behind.ne', behind⟩)

end Linear

theorem compare?_text (s t : String) : (Value.text s).compare? (.text t) = some (compare s t) := rfl

theorem compare?_of_isIntegral {a b : Value} (left : a.isIntegral = true)
    (right : b.isIntegral = true) :
    a.compare? b = some (compare a.toInt.toInt b.toInt.toInt) := by
  unfold Value.compare?
  split
  · cases left
  · rw [left, right]
    rfl

theorem ordersTotally_texts : OrdersTotally fun v => ∃ s, v = .text s := by
  refine ordersTotally_of_key Value.display ?_
  rintro _ _ ⟨s, rfl⟩ ⟨t, rfl⟩
  exact compare?_text s t

theorem ordersTotally_integral : OrdersTotally fun v => v.isIntegral = true :=
  ordersTotally_of_key (fun v => v.toInt.toInt) compare?_of_isIntegral

theorem lessEq_text_iff (s t : String) :
    lessEq.Holds (.text s) (.text t) ↔ Text.bytes s ≤ Text.bytes t := by
  rw [(holds_iff_of_compare (compare?_text s t)).1]
  exact Text.le_iff_bytes_le

theorem lessEq_integral_iff {a b : Value} {x y : Int} (left : a.integer? = some x)
    (right : b.integer? = some y) : lessEq.Holds a b ↔ x ≤ y := by
  obtain ⟨integral, rfl⟩ := Value.integer?_eq_some_iff.mp left
  obtain ⟨integral', rfl⟩ := Value.integer?_eq_some_iff.mp right
  exact (holds_iff_of_compare (compare?_of_isIntegral integral integral')).1

/-- The comparisons agree with one order: that of the bytes among texts, and that of the integers
they stand for among integral values. Any comparison of any two values comes out as true or false,
and all six hang together, for floats and for values that are not ordered too. -/
theorem comparisons_agree :
    OrdersTotally (fun v => ∃ s, v = .text s) ∧
    (∀ s t, lessEq.Holds (.text s) (.text t) ↔ Text.bytes s ≤ Text.bytes t) ∧
    OrdersTotally (fun v => v.isIntegral = true) ∧
    (∀ a b x y, a.integer? = some x → b.integer? = some y → (lessEq.Holds a b ↔ x ≤ y)) ∧
    ∀ a b : Value,
      (∀ op : Comparison, ∃ truth, op.apply a b = .bool truth) ∧
      (notEqual.Holds a b ↔ ¬ equal.Holds a b) ∧
      (lessEq.Holds a b ↔ less.Holds a b ∨ equal.Holds a b) ∧
      (greaterEq.Holds a b ↔ greater.Holds a b ∨ equal.Holds a b) ∧
      ¬ (less.Holds a b ∧ equal.Holds a b) ∧ ¬ (less.Holds a b ∧ greater.Holds a b) ∧
      ¬ (equal.Holds a b ∧ greater.Holds a b) :=
  ⟨ordersTotally_texts, lessEq_text_iff, ordersTotally_integral,
    fun _ _ _ _ => lessEq_integral_iff,
    fun a b => ⟨fun op => exists_apply_eq_bool op a b, holds_together a b⟩⟩

/-- No value counts as zero, so it comes before the true one. NaN differs from itself. -/
theorem comparisons_agree_mixed :
    Value.empty.integer? = some 0 ∧ (Value.bool true).integer? = some 1 ∧
      lessEq.Holds .empty (.bool true) ∧ ¬ lessEq.Holds (.bool true) .empty ∧
      less.Holds .empty (.bool true) ∧
      ¬ equal.Holds (.float (0.0 / 0.0)) (.float (0.0 / 0.0)) ∧
      notEqual.Holds (.float (0.0 / 0.0)) (.float (0.0 / 0.0)) := by
  obtain ⟨_, _, total, byInteger, together⟩ := comparisons_agree
  have forward : lessEq.Holds .empty (.bool true) :=
    (byInteger .empty (.bool true) 0 1 rfl rfl).mpr (by decide)
  have backward : ¬ lessEq.Holds (.bool true) .empty :=
    (byInteger (.bool true) .empty 1 0 rfl rfl).not.mpr (by decide)
  have apart : ¬ equal.Holds (.float (0.0 / 0.0)) (.float (0.0 / 0.0)) := by
    have unordered : (Value.float (0.0 / 0.0)).compare? (.float (0.0 / 0.0)) = none := by
      decide +kernel
    rw [holds_iff_notEqual unordered]
    nofun
  exact ⟨rfl, rfl, forward, backward, (total.less_iff rfl rfl).mpr ⟨forward, backward⟩, apart,
    (together _ _).2.1.mpr apart⟩

end Comparison

end NodeGraph
