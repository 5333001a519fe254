import Mathlib.Data.Finset.Card
import Mathlib.Data.Finset.Range
import Mathlib.Logic.Relation
import NodeGraph.Proofs.Graph.Erasure

/-!
# Cycles of pure nodes

A pure node feeds another one when an input of the other reads from it. Where no pure node feeds
itself, directly or through others, the pure nodes can be ranked so that every node comes after
those that feed it, with ranks below the number of nodes (`Graph.exists_ranks`).
-/

namespace NodeGraph.Graph

variable {g h : Graph} {a b : NodeId}

/-- Whether a pure node has an input that reads from another pure node. -/
def feeds (g : Graph) (source target : NodeId) : Bool :=
  (g.pureKind? source).isSome && (g.pureKind? target).isSome &&
    (g.node? target).any fun node =>
      node.inputs.any fun input => input.source.any (·.node == source)

/-- No pure node feeds itself through pure nodes. -/
def Acyclic (g : Graph) : Prop :=
  ∀ id, ¬ Relation.TransGen (fun source target => g.feeds source target = true) id id

/-- Every pure node has a higher rank than those that feed it. -/
structure Ranks (g : Graph) (rank : NodeId → Nat) : Prop where
  lt : ∀ {source target : NodeId}, g.feeds source target = true → rank source < rank target
  bound : ∀ {id : NodeId}, id < g.size → rank id < g.size

theorem feeds_iff : g.feeds a b = true ↔
    (g.pureKind? a).isSome ∧ (g.pureKind? b).isSome ∧
      ∃ port input source, g.input? ⟨b, port⟩ = some input ∧ input.source = some source ∧
        source.node = a := by
  simp only [feeds, Bool.and_eq_true, and_assoc]
  refine and_congr_right fun _ => and_congr_right ?_
  intro _
  simp only [input?]
  cases g.node? b with
  | none => simp
  | some node =>
    simp only [Option.any_some, Option.bind_some, Array.any_eq_true, Option.any_eq_true, beq_iff_eq]
    constructor
    · rintro ⟨port, below, source, linked, equal⟩
      exact ⟨port, _, source, Array.getElem?_eq_getElem below, linked, equal⟩
    · rintro ⟨port, input, source, found, linked, equal⟩
      obtain ⟨below, rfl⟩ := Array.getElem?_eq_some_iff.mp found
      exact ⟨port, below, source, linked, equal⟩

theorem feeds_of_source {addr : InputAddr} {source : OutputAddr} {kind kind' : PureKind}
    (link : g.source? addr = some source) (above : g.pureKind? source.node = some kind)
    (below : g.pureKind? addr.node = some kind') : g.feeds source.node addr.node = true := by
  obtain ⟨input, found, linked⟩ := source?_eq_some_iff.mp link
  exact feeds_iff.mpr
    ⟨by simp [above], by simp [below], addr.port, input, source, found, linked, rfl⟩

theorem lt_size_of_feeds (fed : g.feeds a b = true) : a < g.size := by
  obtain ⟨pure, _⟩ := feeds_iff.mp fed
  obtain ⟨kind, pure⟩ := Option.isSome_iff_exists.mp pure
  exact lt_size_of_pureKind? pure

/-- What feeds what is a matter of the frame. -/
@[simp]
theorem feeds_erase (keeps : NodeKind → Bool) (g : Graph) (a b : NodeId) :
    (g.erase keeps).feeds a b = g.feeds a b := by
  rw [Bool.eq_iff_iff, feeds_iff, feeds_iff]
  simp only [pureKind?_erase, input?_erase, Option.map_eq_some_iff]
  refine and_congr_right fun _ => and_congr_right ?_
  intro _
  constructor
  · rintro ⟨port, _, source, ⟨input, found, rfl⟩, linked, equal⟩
    exact ⟨port, input, source, found, linked, equal⟩
  · rintro ⟨port, input, source, found, linked, equal⟩
    exact ⟨port, _, source, ⟨input, found, rfl⟩, linked, equal⟩

theorem feeds_eq_of_frame_eq (same : g.frame = h.frame) (a b : NodeId) :
    g.feeds a b = h.feeds a b := by
  rw [← feeds_erase (fun _ => false) g, ← feeds_erase (fun _ => false) h]
  exact congrArg (·.feeds a b) same

theorem size_eq_of_frame_eq (same : g.frame = h.frame) : g.size = h.size := by
  rw [← size_erase (fun _ => false) g, ← size_erase (fun _ => false) h]
  exact congrArg size same

theorem acyclic_of_frame_eq (same : g.frame = h.frame) (acyclic : g.Acyclic) : h.Acyclic := by
  unfold Acyclic at acyclic ⊢
  simp only [feeds_eq_of_frame_eq same] at acyclic
  exact acyclic

/-- A node that is added feeds nothing and closes no cycle. -/
theorem acyclic_of_add {node : Node} (acyclic : (g.add node).2.Acyclic) : g.Acyclic := by
  have fed : ∀ a b, g.feeds a b = true → (g.add node).2.feeds a b = true := by
    intro a b fed
    have below := lt_size_of_feeds fed
    obtain ⟨source, target, port, input, link, found, linked, equal⟩ := feeds_iff.mp fed
    obtain ⟨other, place, _⟩ := input?_eq_some_iff.mp found
    have below' : b < g.size := lt_size_of_node? place
    refine feeds_iff.mpr ⟨?_, ?_, port, input, link, ?_, linked, equal⟩
    · rwa [pureKind?, node?_add_of_ne (Nat.ne_of_lt below)]
    · rwa [pureKind?, node?_add_of_ne (Nat.ne_of_lt below')]
    · rwa [input?_add_of_ne (Nat.ne_of_lt below')]
  intro id cycle
  exact acyclic id (Relation.TransGen.mono fed _ _ cycle)

theorem Ranks.of_frame_eq {rank : NodeId → Nat} (same : g.frame = h.frame) (ranks : g.Ranks rank) :
    h.Ranks rank where
  lt fed := ranks.lt (feeds_eq_of_frame_eq same _ _ ▸ fed)
  bound below := size_eq_of_frame_eq same ▸ ranks.bound (size_eq_of_frame_eq same ▸ below)

/-- A numbering that grows along every link between pure nodes excludes cycles. -/
theorem acyclic_of_lt {rank : NodeId → Nat}
    (lt : ∀ source target, g.feeds source target = true → rank source < rank target) :
    g.Acyclic := by
  intro id cycle
  have grows : ∀ {target}, Relation.TransGen (fun a b => g.feeds a b = true) id target →
      rank id < rank target := by
    intro target path
    induction path with
    | single fed => exact lt _ _ fed
    | tail _ fed ih => exact Nat.lt_trans ih (lt _ _ fed)
  exact Nat.lt_irrefl _ (grows cycle)

/-- Where links between pure nodes only lead to later nodes, there are no cycles. -/
theorem acyclic_of_ascending
    (ascending : ∀ source < g.size, ∀ target < g.size,
      g.feeds source target = true → source < target) : g.Acyclic := by
  refine @acyclic_of_lt g (fun id => id) ?_
  intro source target fed
  have below : target < g.size := by
    obtain ⟨_, pure, _⟩ := feeds_iff.mp fed
    obtain ⟨kind, pure⟩ := Option.isSome_iff_exists.mp pure
    exact lt_size_of_pureKind? pure
  exact ascending source (lt_size_of_feeds fed) target below fed

open Classical in
/-- The pure nodes that feed a node, directly or through others. -/
noncomputable def feeders (g : Graph) (id : NodeId) : Finset NodeId :=
  (Finset.range g.size).filter fun a => Relation.TransGen (fun a b => g.feeds a b = true) a id

theorem mem_feeders {id : NodeId} : a ∈ g.feeders id ↔
    a < g.size ∧ Relation.TransGen (fun a b => g.feeds a b = true) a id := by
  simp [feeders]

/-- Ranked by the number of their feeders, the pure nodes of a graph without cycles come after the
nodes that feed them. -/
theorem exists_ranks (acyclic : g.Acyclic) : ∃ rank, g.Ranks rank := by
  refine ⟨fun id => (g.feeders id).card, ⟨fun {source target} fed => ?_, fun {id} below => ?_⟩⟩
  · apply Finset.card_lt_card
    rw [Finset.ssubset_iff_of_subset]
    · refine ⟨source, mem_feeders.mpr ⟨lt_size_of_feeds fed, .single fed⟩, ?_⟩
      intro self
      exact acyclic source (mem_feeders.mp self).2
    · intro a feeder
      obtain ⟨below, path⟩ := mem_feeders.mp feeder
      exact mem_feeders.mpr ⟨below, path.tail fed⟩
  · have fewer : (g.feeders id).card < (Finset.range g.size).card := by
      apply Finset.card_lt_card
      have within : g.feeders id ⊆ Finset.range g.size :=
        fun a feeder => Finset.mem_range.mpr (mem_feeders.mp feeder).1
      rw [Finset.ssubset_iff_of_subset within]
      exact ⟨id, Finset.mem_range.mpr below, fun self => acyclic id (mem_feeders.mp self).2⟩
    rwa [Finset.card_range] at fewer

end NodeGraph.Graph
