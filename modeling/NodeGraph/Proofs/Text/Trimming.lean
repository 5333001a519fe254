import Mathlib.Data.List.TakeWhile
import NodeGraph.Text.Blank

/-!
# The core of a text

A text is a core with blanks around it, and the core neither begins nor ends with a blank. There is
exactly one such core, and removing the blanks around the text leaves it (`Text.trim_eq_iff`).
-/

namespace NodeGraph.Text

/-- Nothing but blanks. -/
def AllBlank (cs : List Char) : Prop := ∀ c ∈ cs, isBlank c = true

instance (cs : List Char) : Decidable (AllBlank cs) :=
  List.decidableBAll (isBlank · = true) cs

/-- The core stands between blanks, and none of them is taken for a part of it. -/
structure IsCore (cs core : List Char) : Prop where
  framed : ∃ front behind, AllBlank front ∧ AllBlank behind ∧ cs = front ++ (core ++ behind)
  begins : ∀ c ∈ core.head?, isBlank c = false
  ends : ∀ c ∈ core.getLast?, isBlank c = false

theorem AllBlank.reverse {cs : List Char} (blank : AllBlank cs) : AllBlank cs.reverse :=
  fun c member => blank c (List.mem_reverse.mp member)

/-- Blanks are dropped up to the first character that is none. -/
theorem dropWhile_isBlank_append {front rest : List Char} (blank : AllBlank front)
    (begins : ∀ c ∈ rest.head?, isBlank c = false) : (front ++ rest).dropWhile isBlank = rest := by
  rw [List.dropWhile_append_of_pos blank]
  cases rest with
  | nil => rfl
  | cons c rest =>
    rw [List.dropWhile_cons_of_neg]
    rw [begins c rfl]
    exact Bool.false_ne_true

theorem isBlank_head?_dropWhile (cs : List Char) :
    ∀ c ∈ (cs.dropWhile isBlank).head?, isBlank c = false := by
  intro c first
  have visible := List.head?_dropWhile_not isBlank cs
  rw [Option.mem_def.mp first] at visible
  exact visible

theorem allBlank_takeWhile (cs : List Char) : AllBlank (cs.takeWhile isBlank) :=
  fun _ member => List.mem_takeWhile_imp member

theorem IsCore.trim_eq {cs core : List Char} (isCore : IsCore cs core) : trim cs = core := by
  obtain ⟨⟨front, behind, before, after, rfl⟩, begins, ends⟩ := isCore
  unfold trim
  cases core with
  | nil =>
    have blank : AllBlank (front ++ behind) :=
      fun c member => (List.mem_append.mp member).elim (before c) (after c)
    have nothing : (front ++ behind ++ []).dropWhile isBlank = [] :=
      dropWhile_isBlank_append blank nofun
    rw [List.append_nil] at nothing
    rw [List.nil_append, nothing]
    rfl
  | cons c core =>
    have atFront : (front ++ (c :: core ++ behind)).dropWhile isBlank = c :: core ++ behind :=
      dropWhile_isBlank_append before begins
    have atEnd : (behind.reverse ++ (c :: core).reverse).dropWhile isBlank = (c :: core).reverse :=
      dropWhile_isBlank_append after.reverse (by rwa [List.head?_reverse])
    rw [atFront, List.reverse_append, atEnd, List.reverse_reverse]

theorem isCore_trim (cs : List Char) : IsCore cs (trim cs) where
  framed := by
    have rejoined : trim cs ++ ((cs.dropWhile isBlank).reverse.takeWhile isBlank).reverse =
        cs.dropWhile isBlank := by
      rw [trim, ← List.reverse_append, List.takeWhile_append_dropWhile, List.reverse_reverse]
    have behind := allBlank_takeWhile (cs.dropWhile isBlank).reverse
    refine ⟨_, _, allBlank_takeWhile cs, behind.reverse, ?_⟩
    rw [rejoined, List.takeWhile_append_dropWhile]
  begins := by
    -- the core is in front of what is left of the text without the blanks before it
    have inFront : trim cs <+: cs.dropWhile isBlank := by
      rw [trim, ← List.reverse_suffix, List.reverse_reverse]
      exact List.dropWhile_suffix isBlank
    intro c first
    obtain ⟨behind, rejoined⟩ := inFront
    refine isBlank_head?_dropWhile cs c ?_
    rw [← rejoined, List.head?_append, Option.mem_def.mp first]
    rfl
  ends := by
    rw [trim, List.getLast?_reverse]
    exact isBlank_head?_dropWhile _

/-- Removing the blanks around a text leaves its core, and there is no other core. -/
theorem trim_eq_iff {cs core : List Char} : trim cs = core ↔ IsCore cs core := by
  constructor
  · rintro rfl
    exact isCore_trim cs
  · exact IsCore.trim_eq

end NodeGraph.Text
