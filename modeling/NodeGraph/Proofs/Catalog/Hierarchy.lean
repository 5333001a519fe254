import Mathlib.Data.List.Basic
import Mathlib.Data.List.Induction
import Mathlib.Logic.Relation
import NodeGraph.Catalog

/-!
# Categories and what a catalog lists in them

A category lies below another one if it is reached from there by going down: its ancestors are the
categories that repeated steps to the parent lead to, and the empty path, which no step leads to
(`Category.isBelow_iff`). To lie below is a strict order, and what a catalog lists in a category
follows it (`Catalog.inCategory_follows`).
-/

namespace NodeGraph

namespace Category

/-- One step up. -/
def StepsUp (c parent : Category) : Prop := c.parent? = some parent

/-- The other category is reached by steps up, or it is the top, which only has the empty path. -/
def Descends (c ancestor : Category) : Prop :=
  (ancestor.path = [] ∧ c.path ≠ []) ∨ Relation.TransGen StepsUp c ancestor

/-- The category itself, or one that descends from it. -/
def Within (c ancestor : Category) : Prop := c = ancestor ∨ c.Descends ancestor

theorem isBelow_eq_true_iff {c d : Category} :
    c.isBelow d = true ↔ d.path.length < c.path.length ∧ d.path <+: c.path := by
  simp [isBelow]

theorem not_isBelow_self (c : Category) : c.isBelow c = false := by
  simp [isBelow]

theorem isBelow_trans {c d e : Category} (below : c.isBelow d = true)
    (below' : d.isBelow e = true) : c.isBelow e = true := by
  obtain ⟨shorter, start⟩ := isBelow_eq_true_iff.mp below
  obtain ⟨shorter', start'⟩ := isBelow_eq_true_iff.mp below'
  exact isBelow_eq_true_iff.mpr ⟨Nat.lt_trans shorter' shorter, start'.trans start⟩

/-- The parent of a category is what stands before its last name, if that is anything. -/
theorem stepsUp_concat {path : List String} (nonempty : path ≠ []) (name : String) :
    StepsUp ⟨path ++ [name]⟩ ⟨path⟩ := by
  have long : 1 < (path ++ [name]).length := by
    have := List.length_pos_iff.mpr nonempty
    rw [List.length_append, List.length_singleton]
    omega
  rw [StepsUp, parent?, if_pos long, List.dropLast_concat]

theorem StepsUp.isBelow {c parent : Category} (step : StepsUp c parent) :
    c.isBelow parent = true := by
  unfold StepsUp parent? at step
  split at step
  next long =>
    obtain rfl := Option.some.inj step
    refine isBelow_eq_true_iff.mpr ⟨?_, List.dropLast_prefix c.path⟩
    rw [List.length_dropLast]
    omega
  next => cases step

/-- Steps up take the names off one after the other, so they lead to everything in front of them
that is not empty. -/
theorem stepsUp_append {path : List String} (nonempty : path ≠ []) (names : List String)
    (more : names ≠ []) : Relation.TransGen StepsUp ⟨path ++ names⟩ ⟨path⟩ := by
  induction names using List.reverseRecOn with
  | nil => exact absurd rfl more
  | append_singleton names name ih =>
    rw [← List.append_assoc]
    have step := stepsUp_concat (List.append_ne_nil_of_left_ne_nil nonempty names) name
    by_cases last : names = []
    · subst last
      rw [List.append_nil] at step ⊢
      exact .single step
    · exact .head step (ih last)

/-- To lie below a category is to descend from it. -/
theorem isBelow_iff {c d : Category} : c.isBelow d = true ↔ c.Descends d := by
  constructor
  · intro below
    obtain ⟨shorter, names, eq⟩ := isBelow_eq_true_iff.mp below
    by_cases top : d.path = []
    · refine .inl ⟨top, ?_⟩
      rintro empty
      rw [top, empty] at shorter
      exact Nat.lt_irrefl _ shorter
    · refine .inr ?_
      have more : names ≠ [] := by
        rintro rfl
        rw [← eq, List.append_nil] at shorter
        exact Nat.lt_irrefl _ shorter
      have steps := stepsUp_append top names more
      rwa [eq] at steps
  · rintro (⟨top, nonempty⟩ | steps)
    · refine isBelow_eq_true_iff.mpr ⟨?_, ?_⟩
      · rw [top]
        exact List.length_pos_iff.mpr nonempty
      · rw [top]
        exact List.nil_prefix
    · induction steps with
      | single step => exact step.isBelow
      | tail _ step ih => exact isBelow_trans ih step.isBelow

theorem within_iff {c d : Category} : c.Within d ↔ c = d ∨ c.isBelow d = true :=
  or_congr_right isBelow_iff.symm

theorem Within.trans {c d e : Category} (within : c.Within d) (within' : d.Within e) :
    c.Within e := by
  rw [within_iff] at *
  rcases within with rfl | below
  · exact within'
  · rcases within' with rfl | below'
    · exact .inr below
    · exact .inr (isBelow_trans below below')

end Category

namespace Catalog

/-- A catalog of some prototypes that was extended by further ones, list after list. -/
def grown (first : List Node) (added : List (List Node)) : Catalog := added.foldl extend ⟨first⟩

/-- The category that a prototype is listed in. -/
def categoryOf (prototype : Node) : Category := (describe prototype).category

theorem prototypes_extend (c : Catalog) (more : List Node) :
    (c.extend more).prototypes = c.prototypes ++ more := rfl

theorem inCategory_eq_filter (c : Catalog) (category : Category) :
    c.inCategory category = c.prototypes.filter fun node =>
      categoryOf node == category || (categoryOf node).isBelow category := rfl

theorem listed_iff {node : Node} {category : Category} :
    (categoryOf node == category || (categoryOf node).isBelow category) = true ↔
      (categoryOf node).Within category := by
  rw [Bool.or_eq_true, beq_iff_eq, Category.within_iff]

theorem inCategory_extend (c : Catalog) (more : List Node) (category : Category) :
    (c.extend more).inCategory category =
      c.inCategory category ++ (Catalog.mk more).inCategory category := by
  simp only [inCategory_eq_filter, prototypes_extend, List.filter_append]

/-- What is listed in a category is listed in its ancestors too, in the same order. -/
theorem inCategory_sublist (c : Catalog) {category ancestor : Category}
    (within : category.Within ancestor) :
    (c.inCategory category).Sublist (c.inCategory ancestor) := by
  simp only [inCategory_eq_filter]
  refine List.monotone_filter_right _ ?_
  intro node listed
  exact listed_iff.mpr ((listed_iff.mp listed).trans within)

/-- A prototype that is found in front of others is found whatever stands behind it. -/
theorem create_extend (c : Catalog) {name : String}
    (known : ∃ node ∈ c.prototypes, (describe node).typeName = name) :
    ∃ node, c.create name = .ok node ∧ ∀ more, (c.extend more).create name = .ok node := by
  obtain ⟨node, member, named⟩ := known
  have found : (c.prototypes.find? fun node => (describe node).typeName == name).isSome := by
    rw [List.find?_isSome]
    exact ⟨node, member, beq_iff_eq.mpr named⟩
  obtain ⟨first, found⟩ := Option.isSome_iff_exists.mp found
  refine ⟨first, ?_, fun more => ?_⟩
  · rw [create, found]
  · rw [create, prototypes_extend, List.find?_append, found, Option.some_or]

end Catalog

/-- The elements that a filter keeps are those at some positions, in their order. -/
theorem exists_positions_filter {α : Type} (xs : List α) (keep : α → Bool) :
    ∃ positions : List Nat, positions.Pairwise (· < ·) ∧
      (∀ i, i ∈ positions ↔ ∃ x, xs[i]? = some x ∧ keep x = true) ∧
      positions.map (xs[·]?) = (xs.filter keep).map some := by
  let kept := xs.zipIdx.filter fun entry => keep entry.1
  have member {x : α} {i : Nat} : (x, i) ∈ kept ↔ xs[i]? = some x ∧ keep x = true := by
    rw [List.mem_filter, List.mem_zipIdx_iff_getElem?]
  refine ⟨kept.map Prod.snd, ?_, ?_, ?_⟩
  · have sublist : (kept.map Prod.snd).Sublist (xs.zipIdx.map Prod.snd) :=
      List.filter_sublist.map Prod.snd
    rw [List.zipIdx_map_snd] at sublist
    exact List.Pairwise.sublist sublist List.pairwise_lt_range'
  · intro i
    rw [List.mem_map]
    constructor
    · rintro ⟨⟨x, i⟩, stays, rfl⟩
      exact ⟨x, member.mp stays⟩
    · rintro ⟨x, stays⟩
      exact ⟨(x, i), member.mpr stays, rfl⟩
  · have values : (xs.zipIdx.map Prod.fst).filter keep = kept.map Prod.fst := List.filter_map
    rw [List.zipIdx_map_fst] at values
    rw [values, List.map_map, List.map_map]
    refine List.map_congr_left ?_
    rintro ⟨x, i⟩ stays
    exact (member.mp stays).1

/-- To lie below is a strict order, and it is descent by steps up, but for the empty path, which is
above everything. In any catalog, however it was extended, a category lists the prototypes within
it, each one once and in the order of the catalog, as part of what each of its ancestors lists.
Further prototypes are listed behind, and a type that is known is created as before. -/
theorem Catalog.inCategory_follows :
    (∀ c : Category, c.isBelow c = false) ∧
    (∀ c d e : Category, c.isBelow d = true → d.isBelow e = true → c.isBelow e = true) ∧
    (∀ c d : Category, c.isBelow d = true ↔
      (d.path = [] ∧ c.path ≠ []) ∨ Relation.TransGen (fun a b => a.parent? = some b) c d) ∧
    ∀ (first : List Node) (added : List (List Node)) (category : Category),
      (∃ positions : List Nat, positions.Pairwise (· < ·) ∧
        (∀ i, i ∈ positions ↔ ∃ node, (grown first added).prototypes[i]? = some node ∧
          (categoryOf node).Within category) ∧
        positions.map ((grown first added).prototypes[·]?) =
          ((grown first added).inCategory category).map some) ∧
      (∀ ancestor, category.isBelow ancestor = true →
        ((grown first added).inCategory category).Sublist
          ((grown first added).inCategory ancestor)) ∧
      (∀ more, ((grown first added).extend more).inCategory category =
        (grown first added).inCategory category ++ (Catalog.mk more).inCategory category) ∧
      ∀ name, (∃ node ∈ (grown first added).prototypes, (describe node).typeName = name) →
        ∃ node, (grown first added).create name = .ok node ∧
          ∀ more, ((grown first added).extend more).create name = .ok node := by
  refine ⟨Category.not_isBelow_self, fun _ _ _ => Category.isBelow_trans,
    fun _ _ => Category.isBelow_iff, fun first added category => ⟨?_, ?_, ?_, ?_⟩⟩
  · obtain ⟨positions, ascending, exactly, same⟩ := exists_positions_filter
      (grown first added).prototypes fun node =>
        categoryOf node == category || (categoryOf node).isBelow category
    refine ⟨positions, ascending, fun i => ?_, same⟩
    rw [exactly]
    exact exists_congr fun node => and_congr_right fun _ => listed_iff
  · intro ancestor below
    exact inCategory_sublist _ (Category.within_iff.mpr (.inr below))
  · exact fun more => inCategory_extend _ more category
  · exact fun name => create_extend _

/-- The built-in catalog lists the control nodes among the flow nodes, and it goes on creating the
same loop when other prototypes of that type stand behind. -/
theorem Catalog.inCategory_follows_builtin :
    Category.control.isBelow ⟨["Flow"]⟩ = true ∧
      (builtin.inCategory .control).Sublist (builtin.inCategory ⟨["Flow"]⟩) ∧
      (∃ node ∈ builtin.prototypes, (describe node).typeName = "For") ∧
      ∃ node, builtin.create "For" = .ok node ∧
        ∀ more, (builtin.extend more).create "For" = .ok node := by
  have below : Category.control.isBelow ⟨["Flow"]⟩ = true := by decide
  have known : ∃ node ∈ builtin.prototypes, (describe node).typeName = "For" :=
    ⟨.ofKind (.control .forLoop), List.mem_map_of_mem (by decide), rfl⟩
  obtain ⟨_, _, _, listed⟩ := inCategory_follows
  obtain ⟨_, nested, _, creates⟩ := listed (NodeKind.all.map Node.ofKind) [] .control
  exact ⟨below, nested _ below, known, creates "For" known⟩

end NodeGraph
