import NodeGraph.Proofs.Graph.Naive
import NodeGraph.Proofs.Graph.WellFormed

/-!
# What lies upstream

The pure nodes that a pull of a node may compute: the node itself, if it is pure, and the pure nodes
that feed it through pure nodes. A pure node reads all of its inputs
(`Graph.WellFormed.mem_operands`), so they are also the nodes that the pull needs. A node is
grounded when it has no cycle upstream, and that is so as soon as all that feed it are
(`Graph.grounded_of_feeders`).
-/

namespace NodeGraph.Graph

variable {g h : Graph} {a b c : NodeId}

/-- The first node is pure, and it is the second or feeds it through pure nodes. -/
def Upstream (g : Graph) (a b : NodeId) : Prop :=
  (g.pureKind? a).isSome ∧ Relation.ReflTransGen (fun a b => g.feeds a b = true) a b

theorem upstream_self (pure : (g.pureKind? a).isSome) : g.Upstream a a := ⟨pure, .refl⟩

theorem Upstream.tail (up : g.Upstream a b) (fed : g.feeds b c = true) : g.Upstream a c :=
  ⟨up.1, up.2.tail fed⟩

/-- Only pure nodes have anything upstream. -/
theorem Upstream.isSome_pureKind? (up : g.Upstream a b) : (g.pureKind? b).isSome := by
  cases up.2 with
  | refl => exact up.1
  | tail _ fed => exact (feeds_iff.mp fed).2.1

/-- What is upstream of the source of an input is upstream of its node. -/
theorem Upstream.of_source {addr : InputAddr} {source : OutputAddr}
    (up : g.Upstream a source.node) (link : g.source? addr = some source)
    (pure : (g.pureKind? addr.node).isSome) : g.Upstream a addr.node := by
  obtain ⟨kind, pure⟩ := Option.isSome_iff_exists.mp pure
  obtain ⟨kind', above⟩ := Option.isSome_iff_exists.mp up.isSome_pureKind?
  exact up.tail (feeds_of_source link above pure)

theorem upstream_congr (same : g.frame = h.frame) : g.Upstream a b ↔ h.Upstream a b := by
  unfold Upstream
  rw [pureKind?_eq_of_frame_eq same]
  simp only [feeds_eq_of_frame_eq same]

/-- A pure node reads all of its inputs. -/
theorem WellFormed.mem_operands (wf : g.WellFormed) {id : NodeId} {kind : PureKind}
    (pure : g.pureKind? id = some kind) {port : PortId} {input : Input}
    (found : g.input? ⟨id, port⟩ = some input) : port ∈ kind.operands := by
  obtain ⟨node, place, isPure⟩ := pureKind?_eq_some_iff.mp pure
  obtain ⟨other, place', there⟩ := input?_eq_some_iff.mp found
  obtain rfl := Option.some.inj (place.symm.trans place')
  have count := congrArg List.length (wf.laidOut place).inputs
  rw [List.length_map, List.length_map, Array.length_toList, isPure] at count
  obtain ⟨below, _⟩ := Array.getElem?_eq_some_iff.mp there
  change port < node.inputs.size at below
  rw [count] at below
  cases kind with
  | binary op =>
    have two : (NodeKind.pure (.binary op)).metadata.inputs.length = 2 := by cases op <;> rfl
    rw [two] at below
    have either := Nat.le_one_iff_eq_zero_or_eq_one.mp (Nat.le_of_lt_succ below)
    simpa [PureKind.operands] using either
  | getLocal =>
    have first := Nat.lt_one_iff.mp below
    simpa [PureKind.operands] using first

/-- The node feeds itself, directly or through other pure nodes. -/
def Cyclic (g : Graph) (id : NodeId) : Prop :=
  Relation.TransGen (fun a b => g.feeds a b = true) id id

/-- No cycle of pure nodes leads to the node. -/
def Grounded (g : Graph) (id : NodeId) : Prop :=
  ∀ a, Relation.ReflTransGen (fun a b => g.feeds a b = true) a id → ¬ g.Cyclic a

theorem Cyclic.isSome_pureKind? (cyclic : g.Cyclic a) : (g.pureKind? a).isSome := by
  obtain ⟨b, _, fed⟩ := Relation.TransGen.tail'_iff.mp cyclic
  exact (feeds_iff.mp fed).2.1

/-- The second node lies on a cycle that leads to the first. -/
def CycleAbove (g : Graph) (id a : NodeId) : Prop := g.Upstream a id ∧ g.Cyclic a

theorem cycleAbove_congr (same : g.frame = h.frame) : g.CycleAbove b a ↔ h.CycleAbove b a := by
  unfold CycleAbove Cyclic
  rw [upstream_congr same]
  simp only [feeds_eq_of_frame_eq same]

theorem not_grounded_iff : ¬ g.Grounded b ↔ ∃ a, g.CycleAbove b a := by
  simp only [Grounded, CycleAbove, not_forall, not_not]
  constructor
  · rintro ⟨a, path, cyclic⟩
    exact ⟨a, ⟨cyclic.isSome_pureKind?, path⟩, cyclic⟩
  · rintro ⟨a, up, cyclic⟩
    exact ⟨a, up.2, cyclic⟩

/-- A cycle through a node comes to it from a node that feeds it. -/
theorem grounded_of_feeders (feeders : ∀ a, g.feeds a b = true → g.Grounded a) : g.Grounded b := by
  intro a path cyclic
  rcases Relation.ReflTransGen.cases_tail path with rfl | ⟨c, path, fed⟩
  · obtain ⟨c, path, fed⟩ := Relation.TransGen.tail'_iff.mp cyclic
    exact feeders c fed c .refl (.head' fed path)
  · exact feeders c fed a path cyclic

/-- Nothing feeds a node that is not pure. -/
theorem grounded_of_impure (impure : g.pureKind? a = none) : g.Grounded a := by
  refine grounded_of_feeders fun b fed => ?_
  have pure := (feeds_iff.mp fed).2.1
  simp [impure] at pure

end NodeGraph.Graph
