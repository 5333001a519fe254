import NodeGraph.Value.Basic

/-!
# Local variables

A finite assignment of values to names, kept sorted by name. Setting a variable changes that
variable alone (`Locals.get?_set`), and an assignment is known by the values it gives
(`Locals.ext_get?`), so two runs that leave the same variables leave equal assignments.
-/

namespace NodeGraph

/-- Local variables, sorted by name. -/
structure Locals where
  entries : List (String × Value)
  sorted : entries.Pairwise (·.1 < ·.1)

namespace Locals

/-- No variable is set. -/
def empty : Locals := ⟨[], .nil⟩

/-- Value of a variable, if it was ever set. -/
def get? (l : Locals) (name : String) : Option Value := l.entries.lookup name

/-- Value of a variable; no value when it was never set. -/
def get (l : Locals) (name : String) : Value := (l.get? name).getD .empty

/-- Puts a variable into its place by name, instead of one that has the same name. -/
def insert (name : String) (value : Value) : List (String × Value) → List (String × Value)
  | [] => [(name, value)]
  | (other, old) :: rest =>
    if name = other then (name, value) :: rest
    else if name < other then (name, value) :: (other, old) :: rest
    else (other, old) :: insert name value rest

theorem mem_insert {name : String} {value : Value} {entry : String × Value}
    {entries : List (String × Value)} (h : entry ∈ insert name value entries) :
    entry = (name, value) ∨ entry ∈ entries := by
  induction entries with
  | nil => simpa [insert] using h
  | cons head rest ih =>
    unfold insert at h
    split at h
    · simp only [List.mem_cons] at h ⊢
      exact h.imp_right .inr
    · split at h
      · simpa using h
      · simp only [List.mem_cons] at h ⊢
        rcases h with h | h
        · exact .inr (.inl h)
        · exact (ih h).imp_right .inr

theorem pairwise_insert (name : String) (value : Value) {entries : List (String × Value)}
    (h : entries.Pairwise (·.1 < ·.1)) : (insert name value entries).Pairwise (·.1 < ·.1) := by
  induction entries with
  | nil => simp [insert]
  | cons head rest ih =>
    rcases head with ⟨other, old⟩
    rcases List.pairwise_cons.mp h with ⟨first, tail⟩
    unfold insert
    split
    case isTrue equal =>
      subst equal
      exact List.pairwise_cons.mpr ⟨first, tail⟩
    case isFalse different =>
      split
      case isTrue before =>
        refine List.pairwise_cons.mpr ⟨?_, h⟩
        intro entry member
        rcases List.mem_cons.mp member with rfl | member
        · exact before
        · exact String.lt_trans before (first entry member)
      case isFalse behind =>
        have after : other < name :=
          Decidable.byContradiction fun h => different (String.le_antisymm h behind)
        refine List.pairwise_cons.mpr ⟨?_, ih tail⟩
        intro entry member
        rcases mem_insert member with rfl | member
        · exact after
        · exact first entry member

/-- Sets a variable. -/
def set (l : Locals) (name : String) (value : Value) : Locals :=
  ⟨insert name value l.entries, pairwise_insert name value l.sorted⟩

theorem lookup_cons_of_ne {name other : String} (h : name ≠ other) (value : Value)
    (rest : List (String × Value)) : ((other, value) :: rest).lookup name = rest.lookup name := by
  simp only [List.lookup_cons, beq_eq_false_iff_ne.mpr h]

theorem lookup_insert (name other : String) (value : Value) (entries : List (String × Value)) :
    (insert name value entries).lookup other =
      if other = name then some value else entries.lookup other := by
  fun_induction insert name value entries with
  | case1 =>
    by_cases h : other = name
    · simp [h]
    · simp [lookup_cons_of_ne h, h]
  | case2 old rest =>
    by_cases h : other = name
    · simp [h]
    · simp [lookup_cons_of_ne h, h]
  | case3 =>
    by_cases h : other = name
    · simp [h]
    · simp [lookup_cons_of_ne h, h]
  | case4 key old rest different _ ih =>
    by_cases h : other = key
    · subst h
      simp [Ne.symm different]
    · rw [lookup_cons_of_ne h, lookup_cons_of_ne h, ih]

@[simp]
theorem get?_set (l : Locals) (name other : String) (value : Value) :
    (l.set name value).get? other = if other = name then some value else l.get? other :=
  lookup_insert name other value l.entries

@[simp]
theorem get?_empty (name : String) : empty.get? name = none := rfl

/-- A name that stands before every entry has no value. -/
theorem lookup_eq_none_of_lt {name : String} {entries : List (String × Value)}
    (h : ∀ entry ∈ entries, name < entry.1) : entries.lookup name = none := by
  induction entries with
  | nil => rfl
  | cons head rest ih =>
    have different : name ≠ head.1 := fun equal =>
      String.lt_irrefl head.1 (equal ▸ h _ List.mem_cons_self)
    have tail : rest.lookup name = none :=
      ih fun entry member => h entry (List.mem_cons_of_mem _ member)
    rw [lookup_cons_of_ne different, tail]

/-- A name that stands before the first entry of a sorted list has no value. -/
theorem lookup_eq_none_of_lt_head {name other : String} {value : Value}
    {rest : List (String × Value)} (sorted : ((other, value) :: rest).Pairwise (·.1 < ·.1))
    (before : name < other) : ((other, value) :: rest).lookup name = none := by
  refine lookup_eq_none_of_lt ?_
  intro entry member
  rcases List.mem_cons.mp member with rfl | member
  · exact before
  · exact String.lt_trans before ((List.pairwise_cons.mp sorted).1 entry member)

theorem eq_of_lookup_eq {left right : List (String × Value)} (hl : left.Pairwise (·.1 < ·.1))
    (hr : right.Pairwise (·.1 < ·.1)) (h : ∀ name, left.lookup name = right.lookup name) :
    left = right := by
  induction left generalizing right with
  | nil =>
    cases right with
    | nil => rfl
    | cons head right =>
      rcases head with ⟨b, y⟩
      simpa using h b
  | cons head left ih =>
    rcases head with ⟨a, x⟩
    cases right with
    | nil => simpa using h a
    | cons head right =>
      rcases head with ⟨b, y⟩
      rcases List.pairwise_cons.mp hl with ⟨la, leftTail⟩
      rcases List.pairwise_cons.mp hr with ⟨rb, rightTail⟩
      have notBefore : ¬ a < b := by
        intro before
        simpa [lookup_eq_none_of_lt_head hr before] using h a
      have notBehind : ¬ b < a := by
        intro before
        simpa [lookup_eq_none_of_lt_head hl before] using h b
      obtain rfl : a = b := String.le_antisymm notBehind notBefore
      obtain rfl : x = y := by simpa using h a
      have tails : left = right := ih leftTail rightTail fun name => by
        by_cases same : name = a
        · subst same
          rw [lookup_eq_none_of_lt la, lookup_eq_none_of_lt rb]
        · simpa only [lookup_cons_of_ne same] using h name
      rw [tails]

/-- Assignments that give every name the same value are equal. -/
theorem ext_get? {left right : Locals} (h : ∀ name, left.get? name = right.get? name) :
    left = right := by
  cases left with
  | mk left hl =>
    cases right with
    | mk right hr =>
      obtain rfl : left = right := eq_of_lookup_eq hl hr h
      rfl

@[simp]
theorem get_set_self (l : Locals) (name : String) (value : Value) :
    (l.set name value).get name = value := by
  rw [get, get?_set, if_pos rfl, Option.getD_some]

/-- Setting a variable again forgets its first value. -/
@[simp]
theorem set_set (l : Locals) (name : String) (first value : Value) :
    (l.set name first).set name value = l.set name value := by
  apply ext_get?
  intro other
  rw [get?_set, get?_set, get?_set]
  split <;> rfl

end Locals

end NodeGraph
