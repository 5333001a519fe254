import Mathlib.Data.Finset.Card
import NodeGraph.Proofs.Engine.Lockstep

/-!
# How deep computations nest

A pull told as a relation that has no rule for a computation which ran out of depth
(`Engine.Reads`). What it relates is what the pull does, whatever greater depth that is allowed
(`Engine.Reads.readWithin_eq`). A node being computed is marked and not computed again, so every
pull is related within as many nested computations as there are pure nodes that are not marked
(`Engine.reads_of_card_le`), also where they form cycles.
-/

namespace NodeGraph

namespace Graph

/-- The pure nodes of a graph. -/
def pureNodes (g : Graph) : Finset NodeId :=
  (Finset.range g.size).filter fun id => (g.pureKind? id).isSome

/-- The pure nodes that are not being computed. -/
def idlePures (g : Graph) : Finset NodeId :=
  g.pureNodes.filter fun id => g.activity? id ≠ some .computing

variable {g h : Graph}

@[simp]
theorem mem_pureNodes {id : NodeId} : id ∈ g.pureNodes ↔ (g.pureKind? id).isSome := by
  rw [pureNodes, Finset.mem_filter, Finset.mem_range, and_iff_right_iff_imp]
  intro pure
  obtain ⟨kind, pure⟩ := Option.isSome_iff_exists.mp pure
  exact lt_size_of_pureKind? pure

theorem mem_idlePures {id : NodeId} :
    id ∈ g.idlePures ↔ (g.pureKind? id).isSome ∧ g.activity? id ≠ some .computing := by
  rw [idlePures, Finset.mem_filter, mem_pureNodes]

theorem idlePures_subset (g : Graph) : g.idlePures ⊆ g.pureNodes := Finset.filter_subset _ _

theorem card_pureNodes_le (g : Graph) : g.pureNodes.card ≤ g.size :=
  (Finset.card_filter_le _ _).trans (Finset.card_range g.size).le

theorem pureNodes_eq_of_frame_eq (same : g.frame = h.frame) : g.pureNodes = h.pureNodes := by
  ext id
  rw [mem_pureNodes, mem_pureNodes, pureKind?_eq_of_frame_eq same]

end Graph

namespace Engine

mutual

/-- To read an input, computations nesting at most so deep, gives the value and leaves the last
engine. -/
inductive Reads (locals : Locals) : Nat → InputAddr → Engine → Value → Engine → Prop where
  | absent {depth : Nat} {addr : InputAddr} {e : Engine} : e.graph.input? addr = none →
    Reads locals depth addr e .empty e
  | unlinked {depth : Nat} {addr : InputAddr} {e : Engine} {input : Input} :
    e.graph.input? addr = some input → input.source = none →
    Reads locals depth addr e input.literal e
  | cached {depth : Nat} {addr : InputAddr} {e : Engine} {input : Input} {source : OutputAddr} :
    e.graph.input? addr = some input → input.source = some source →
    e.epoch.isCurrent input.stamp = true →
    Reads locals depth addr e input.cached (e.count Statistics.hit)
  | pulled {depth : Nat} {addr : InputAddr} {e e' : Engine} {input : Input} {source : OutputAddr} :
    e.graph.input? addr = some input → input.source = some source →
    e.epoch.isCurrent input.stamp = false →
    Refreshes locals depth source.node (e.count Statistics.miss) e' →
    Reads locals depth addr e (e'.graph.outputValue source)
      (e'.store addr (e'.graph.outputValue source))

/-- To read inputs of a node one after the other. -/
inductive ReadsEach (locals : Locals) :
    Nat → NodeId → List PortId → Engine → (PortId → Value) → Engine → Prop where
  | nil {depth : Nat} {id : NodeId} {e : Engine} :
    ReadsEach locals depth id [] e (fun _ => .empty) e
  | cons {depth : Nat} {id : NodeId} {port : PortId} {rest : List PortId} {e e₁ e₂ : Engine}
      {value : Value} {values : PortId → Value} : Reads locals depth ⟨id, port⟩ e value e₁ →
    ReadsEach locals depth id rest e₁ values e₂ →
    ReadsEach locals depth id (port :: rest) e
      (fun other => if other = port then value else values other) e₂

/-- To bring a node up to date. -/
inductive Refreshes (locals : Locals) : Nat → NodeId → Engine → Engine → Prop where
  | impure {depth : Nat} {id : NodeId} {e : Engine} : e.graph.pureKind? id = none →
    Refreshes locals depth id e e
  | current {depth : Nat} {id : NodeId} {e : Engine} {node : Node} {kind : PureKind} :
    e.graph.node? id = some node → node.kind = .pure kind →
    e.epoch.isCurrent node.computedAt = true → Refreshes locals depth id e e
  | cycle {depth : Nat} {id : NodeId} {e : Engine} {node : Node} {kind : PureKind} :
    e.graph.node? id = some node → node.kind = .pure kind →
    e.epoch.isCurrent node.computedAt = false → node.activity = .computing →
    Refreshes locals depth id e ((e.log (.pullCycle id node.title)).count Statistics.cycle)
  | computed {depth : Nat} {id : NodeId} {e e' : Engine} {node : Node} {kind : PureKind} :
    e.graph.node? id = some node → node.kind = .pure kind →
    e.epoch.isCurrent node.computedAt = false → node.activity = .idle →
    Computes locals depth id kind e e' → Refreshes locals depth id e e'

/-- To compute a pure node, which is one computation around those that its operands need. -/
inductive Computes (locals : Locals) : Nat → NodeId → PureKind → Engine → Engine → Prop where
  | operate {depth : Nat} {id : NodeId} {kind : PureKind} {e e' : Engine}
      {operand : PortId → Value} :
    ReadsEach locals depth id kind.operands (e.beginComputing id) operand e' →
    Computes locals (depth + 1) id kind e (e'.finishComputing id (kind.value locals operand))

end

theorem refreshUsing_of_impure {compute : NodeId → PureKind → Engine → Engine} {id : NodeId}
    {e : Engine} (impure : e.graph.pureKind? id = none) : e.refreshUsing compute id = e := by
  unfold Engine.refreshUsing
  cases found : e.graph.node? id with
  | none => rfl
  | some node =>
    dsimp only
    split
    next kind pure =>
      rw [Graph.pureKind?_eq_some found pure] at impure
      cases impure
    next => rfl

section Function

variable {locals : Locals}

mutual

/-- What the relation relates is what a read does, at every depth that is allowed. -/
theorem Reads.readWithin_eq {depth : Nat} {addr : InputAddr} {e e' : Engine} {value : Value}
    (h : Reads locals depth addr e value e') {bound : Nat} (le : depth ≤ bound) :
    e.readWithin locals bound addr = (value, e') := by
  match h with
  | .absent missing => simp [readWithin, Engine.readUsing, missing]
  | .unlinked found linked => simp [readWithin, Engine.readUsing, found, linked]
  | .cached found linked current => simp [readWithin, Engine.readUsing, found, linked, current]
  | .pulled found linked stale refreshed =>
    simp [readWithin, Engine.readUsing, found, linked, stale, refreshed.refreshWithin_eq le]

theorem ReadsEach.readAll_eq {depth : Nat} {id : NodeId} {ports : List PortId} {e e' : Engine}
    {values : PortId → Value} (h : ReadsEach locals depth id ports e values e') {bound : Nat}
    (le : depth ≤ bound) : readAll (readWithin locals bound) id ports e = (values, e') := by
  match h with
  | .nil => rfl
  | .cons first others =>
    rw [readAll, first.readWithin_eq le]
    dsimp only
    rw [others.readAll_eq le]

theorem Refreshes.refreshWithin_eq {depth : Nat} {id : NodeId} {e e' : Engine}
    (h : Refreshes locals depth id e e') {bound : Nat} (le : depth ≤ bound) :
    e.refreshUsing (Engine.compute locals bound) id = e' := by
  match h with
  | .impure impure => exact refreshUsing_of_impure impure
  | .current found pure current => simp [Engine.refreshUsing, found, pure, current]
  | .cycle found pure stale busy => simp [Engine.refreshUsing, found, pure, stale, busy]
  | .computed found pure stale idle computed =>
    simp [Engine.refreshUsing, found, pure, stale, idle, computed.compute_eq le]

theorem Computes.compute_eq {depth : Nat} {id : NodeId} {kind : PureKind} {e e' : Engine}
    (h : Computes locals depth id kind e e') {bound : Nat} (le : depth ≤ bound) :
    e.compute locals bound id kind = e' := by
  match h with
  | .operate reads =>
    obtain ⟨bound, rfl⟩ := Nat.exists_eq_add_of_le' le
    rw [← Nat.add_assoc, compute_succ, operate_eq, reads.readAll_eq (by omega)]

end

end Function

section Respects

variable {R : Engine → Engine → Prop} (rel : PullRelation R) {locals : Locals} {depth : Nat}
  {e e' : Engine}

include rel

/-- What every act of a pull respects, the relation respects. -/
theorem Reads.respects {addr : InputAddr} {value : Value}
    (h : Reads locals depth addr e value e') : R e e' := by
  have read := rel.readUsing (rel.refreshUsing (rel.computeWithin locals depth)) addr e
  rwa [← readWithin, h.readWithin_eq (Nat.le_refl _)] at read

theorem ReadsEach.respects {id : NodeId} {ports : List PortId} {values : PortId → Value}
    (h : ReadsEach locals depth id ports e values e') : R e e' := by
  have step {port e₁} (before : R e e₁) : R e (e₁.readWithin locals depth ⟨id, port⟩).2 :=
    rel.trans before (rel.readUsing (rel.refreshUsing (rel.computeWithin locals depth)) _ e₁)
  have reads := (readAll_keeps (fun _ _ => True) ports (fun _ _ _ before => ⟨trivial, step before⟩)
    (rel.refl e)).2
  rwa [h.readAll_eq (Nat.le_refl _)] at reads

theorem Refreshes.respects {id : NodeId} (h : Refreshes locals depth id e e') : R e e' := by
  have refreshed := rel.refreshUsing (rel.computeWithin locals depth) id e
  rwa [h.refreshWithin_eq (Nat.le_refl _)] at refreshed

end Respects

section Enough

variable {e e' : Engine}

/-- What a pull keeps, among it the marks, decides how deep the next one may go. -/
theorem Pulled.idlePures (h : Pulled e e') : e'.graph.idlePures = e.graph.idlePures := by
  ext id
  rw [Graph.mem_idlePures, Graph.mem_idlePures, h.pureKind?, h.activity]

/-- The mark on a node leaves one node less to compute. -/
theorem idlePures_beginComputing (e : Engine) (id : NodeId) :
    (e.beginComputing id).graph.idlePures = e.graph.idlePures.erase id := by
  have marked : (e.beginComputing id).graph.frame = e.graph.frame :=
    erase_beginComputing _ e id
  ext other
  rw [Finset.mem_erase, Graph.mem_idlePures, Graph.mem_idlePures,
    Graph.pureKind?_eq_of_frame_eq marked]
  by_cases same : other = id
  · subst same
    have busy (pure : (e.graph.pureKind? other).isSome) :
        (e.beginComputing other).graph.activity? other = some .computing := by
      obtain ⟨kind, pure⟩ := Option.isSome_iff_exists.mp pure
      obtain ⟨node, found, _⟩ := Graph.pureKind?_eq_some_iff.mp pure
      rw [beginComputing, graph_modifyNode, Graph.activity?, Graph.node?_modifyNode_self found]
      rfl
    simp +contextual [busy]
  · have kept : (e.beginComputing id).graph.activity? other = e.graph.activity? other := by
      rw [beginComputing, graph_modifyNode, Graph.activity?,
        Graph.node?_modifyNode_of_ne (Ne.symm same), Graph.activity?]
    simp [kept, same]

/-- Computations end that may nest as deep as there are nodes left to compute. -/
def EndsWithin (locals : Locals) (depth : Nat) : Prop :=
  ∀ {id : NodeId} {kind : PureKind} {e : Engine}, e.graph.pureKind? id = some kind →
    e.graph.activity? id ≠ some .computing → e.graph.idlePures.card ≤ depth →
    ∃ e', Computes locals depth id kind e e'

namespace EndsWithin

variable {locals : Locals} {depth : Nat} (ends : EndsWithin locals depth)

include ends

theorem refresh (id : NodeId) (enough : e.graph.idlePures.card ≤ depth) :
    ∃ e', Refreshes locals depth id e e' := by
  cases pure : e.graph.pureKind? id with
  | none => exact ⟨e, .impure pure⟩
  | some kind =>
    obtain ⟨node, found, isPure⟩ := Graph.pureKind?_eq_some_iff.mp pure
    cases now : e.epoch.isCurrent node.computedAt with
    | true => exact ⟨e, .current found isPure now⟩
    | false =>
      cases busy : node.activity with
      | computing => exact ⟨_, .cycle found isPure now busy⟩
      | idle =>
        have unmarked : e.graph.activity? id ≠ some .computing := by
          simp [Graph.activity?, found, busy]
        obtain ⟨e', computes⟩ := ends pure unmarked enough
        exact ⟨e', .computed found isPure now busy computes⟩

theorem read (addr : InputAddr) (enough : e.graph.idlePures.card ≤ depth) :
    ∃ value e', Reads locals depth addr e value e' := by
  cases found : e.graph.input? addr with
  | none => exact ⟨_, _, .absent found⟩
  | some input =>
    cases linked : input.source with
    | none => exact ⟨_, _, .unlinked found linked⟩
    | some source =>
      cases now : e.epoch.isCurrent input.stamp with
      | true => exact ⟨_, _, .cached found linked now⟩
      | false =>
        obtain ⟨e', refreshes⟩ := @refresh (e.count Statistics.miss) _ _ ends source.node
          (by rwa [graph_count])
        exact ⟨_, _, .pulled found linked now refreshes⟩

theorem readEach (id : NodeId) (ports : List PortId) (enough : e.graph.idlePures.card ≤ depth) :
    ∃ values e', ReadsEach locals depth id ports e values e' := by
  induction ports generalizing e with
  | nil => exact ⟨_, _, .nil⟩
  | cons port rest ih =>
    obtain ⟨value, e₁, first⟩ := ends.read ⟨id, port⟩ enough
    obtain ⟨values, e₂, others⟩ := ih (e := e₁)
      (by rwa [(first.respects pulled_relation).idlePures])
    exact ⟨_, _, .cons first others⟩

end EndsWithin

/-- However the pure nodes are wired, a computation ends: the mark on the node takes it out of those
that are left to compute. -/
theorem endsWithin (locals : Locals) (depth : Nat) : EndsWithin locals depth := by
  induction depth with
  | zero =>
    intro id kind e pure idle enough
    have member : id ∈ e.graph.idlePures :=
      Graph.mem_idlePures.mpr ⟨by rw [pure, Option.isSome_some], idle⟩
    have some := Finset.card_pos.mpr ⟨id, member⟩
    omega
  | succ depth ih =>
    intro id kind e pure idle enough
    have member : id ∈ e.graph.idlePures :=
      Graph.mem_idlePures.mpr ⟨by rw [pure, Option.isSome_some], idle⟩
    have fewer : (e.beginComputing id).graph.idlePures.card ≤ depth := by
      rw [idlePures_beginComputing, Finset.card_erase_of_mem member]
      omega
    obtain ⟨operand, e', reads⟩ := ih.readEach id kind.operands fewer
    exact ⟨_, .operate reads⟩

end Enough

section Whole

variable (locals : Locals) (e : Engine)

theorem card_idlePures_le : e.graph.idlePures.card ≤ e.graph.pureNodes.card :=
  Finset.card_le_card (Graph.idlePures_subset _)

/-- Computations that a read needs never nest deeper than there are pure nodes. -/
theorem reads_read (addr : InputAddr) : Reads locals e.graph.pureNodes.card addr e
    (e.read locals addr).1 (e.read locals addr).2 := by
  obtain ⟨value, e', reads⟩ := EndsWithin.read (endsWithin locals _) addr (card_idlePures_le e)
  rw [read_eq_readWithin, reads.readWithin_eq (Graph.card_pureNodes_le _)]
  exact reads

theorem refreshes_refresh (id : NodeId) : Refreshes locals e.graph.pureNodes.card id e
    (e.refresh locals id) := by
  obtain ⟨e', refreshes⟩ := EndsWithin.refresh (endsWithin locals _) id (card_idlePures_le e)
  rw [Engine.refresh, refreshes.refreshWithin_eq (Graph.card_pureNodes_le _)]
  exact refreshes

theorem computes_compute {id : NodeId} {kind : PureKind} (pure : e.graph.pureKind? id = some kind)
    (idle : e.graph.activity? id ≠ some .computing) :
    Computes locals e.graph.pureNodes.card id kind e (e.compute locals e.graph.size id kind) := by
  obtain ⟨e', computes⟩ := endsWithin locals _ pure idle (card_idlePures_le e)
  rw [computes.compute_eq (Graph.card_pureNodes_le _)]
  exact computes

end Whole

end Engine

end NodeGraph
