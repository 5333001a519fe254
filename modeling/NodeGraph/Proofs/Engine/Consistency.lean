import NodeGraph.Proofs.Engine.Lockstep
import NodeGraph.Proofs.Engine.Valid
import NodeGraph.Proofs.Graph.Upstream

/-!
# Caches agree with the outputs they were read from

The local variables of a context may change within an epoch, so what is current need not be what a
new computation would give. But it fits together (`Engine.Consistent`): a current cache of a pure
output holds what the output holds, and a current arithmetic or comparison node holds what its
operator makes of its inputs. A pull keeps this where the pure nodes form no cycle, since what it
computes is not current before, so nothing current was read from there.
-/

namespace NodeGraph

/-- What an input gives to its node without a pull. -/
def Input.shown (i : Input) : Value :=
  match i.source with
  | some _ => i.cached
  | none => i.literal

/-- Nothing has to be pulled for the input: it has no link, or was read in this epoch. -/
def Input.Held (epoch : Epoch) (i : Input) : Prop :=
  ∀ source, i.source = some source → epoch.isCurrent i.stamp = true

/-- What an input gives to its node without a pull; none where there is no such input. -/
def Graph.shown (g : Graph) (addr : InputAddr) : Value :=
  match g.input? addr with
  | some input => input.shown
  | none => .empty

namespace Engine

/-- The node was computed in this epoch. -/
def Current (e : Engine) (id : NodeId) : Prop :=
  ∃ node, e.graph.node? id = some node ∧ e.epoch.isCurrent node.computedAt = true

/-- What is current fits together. -/
structure Consistent (e : Engine) : Prop where
  /-- A current cache of a pure output holds what the output holds, and that node is current. -/
  input : ∀ {addr : InputAddr} {input : Input} {source : OutputAddr},
    e.graph.input? addr = some input → input.source = some source →
    (e.graph.pureKind? source.node).isSome → e.epoch.isCurrent input.stamp = true →
    input.cached = e.graph.outputValue source ∧ e.Current source.node
  /-- A current arithmetic or comparison node has read all its inputs in this epoch, and holds what
  its operator makes of them. -/
  node : ∀ {id : NodeId} {op : BinaryOp}, e.graph.pureKind? id = some (.binary op) →
    e.Current id →
    (∀ port input, e.graph.input? ⟨id, port⟩ = some input → input.Held e.epoch) ∧
      e.graph.outputValue ⟨id, Layout.result⟩ =
        op.apply (e.graph.shown ⟨id, Layout.Binary.left⟩) (e.graph.shown ⟨id, Layout.Binary.right⟩)

variable {e e' e'' : Engine}

theorem current_congr (epoch : e'.epoch = e.epoch) {id : NodeId}
    (same : (e'.graph.node? id).map (·.computedAt) = (e.graph.node? id).map (·.computedAt)) :
    e'.Current id ↔ e.Current id := by
  have shown (e : Engine) : e.Current id ↔
      ∃ stamp, (e.graph.node? id).map (·.computedAt) = some stamp ∧
        e.epoch.isCurrent stamp = true := by
    simp [Current]
  rw [shown, shown, same, epoch]

theorem current_modifyNode {id : NodeId} {f : Node → Node}
    (same : ∀ node, (f node).computedAt = node.computedAt) (other : NodeId) :
    (e.modifyNode id f).Current other ↔ e.Current other := by
  have epoch : (e.modifyNode id f).epoch = e.epoch := rfl
  refine current_congr epoch ?_
  rw [graph_modifyNode, Graph.node?_modifyNode]
  split
  · simp [Function.comp_def, same]
  · rfl

theorem shown_congr {g h : Graph} {addr : InputAddr} (same : h.input? addr = g.input? addr) :
    h.shown addr = g.shown addr := by
  rw [Graph.shown, same, Graph.shown]

/-- Only the inputs, the outputs of pure nodes, and what is current matter. -/
theorem Consistent.congr (h : e.Consistent) (epoch : e'.epoch = e.epoch)
    (inputs : ∀ addr, e'.graph.input? addr = e.graph.input? addr)
    (kinds : ∀ id, e'.graph.pureKind? id = e.graph.pureKind? id)
    (current : ∀ id, e'.Current id ↔ e.Current id)
    (outputs : ∀ addr, (e.graph.pureKind? addr.node).isSome → addr.port = Layout.result →
      e'.graph.outputValue addr = e.graph.outputValue addr)
    (wf : e.graph.WellFormed) : e'.Consistent where
  input {addr input source} found linked pure now := by
    rw [inputs] at found
    rw [kinds] at pure
    rw [epoch] at now
    obtain ⟨kind, isPure⟩ := Option.isSome_iff_exists.mp pure
    have port := wf.port_eq_result (Graph.source?_eq_some_iff.mpr ⟨input, found, linked⟩) isPure
    rw [outputs source pure port, current]
    exact h.input found linked pure now
  node {id op} pure now := by
    rw [kinds] at pure
    rw [current] at now
    simp only [inputs, epoch, shown_congr (inputs _)]
    rw [outputs ⟨id, Layout.result⟩ (by rw [pure, Option.isSome_some]) rfl]
    exact h.node pure now

theorem Consistent.of_graph_eq (h : e.Consistent) (epoch : e'.epoch = e.epoch)
    (graph : e'.graph = e.graph) : e'.Consistent := by
  have current (id : NodeId) : e'.Current id ↔ e.Current id := by
    rw [Current, graph, epoch, Current]
  constructor
  · intro addr input source
    rw [graph, epoch, current]
    exact h.input
  · intro id op
    rw [graph, epoch, current]
    exact h.node

theorem Fresh.not_current (fresh : e.Fresh) (id : NodeId) : ¬ e.Current id := by
  rintro ⟨node, found, now⟩
  exact fresh.node_stale found now

/-- Where nothing is current there is nothing to fit together. -/
theorem consistent_of_fresh (fresh : e.Fresh) : e.Consistent where
  input found _ _ now := absurd now (fresh.input_stale found)
  node _ now := absurd now (fresh.not_current _)

/-- What is held stays as it is. -/
structure Steady (e e' : Engine) : Prop where
  epoch : e'.epoch = e.epoch
  held : ∀ {addr input}, e.graph.input? addr = some input → input.Held e.epoch →
    e'.graph.input? addr = some input

theorem Steady.of_inputs (epoch : e'.epoch = e.epoch)
    (inputs : ∀ addr, e'.graph.input? addr = e.graph.input? addr) : Steady e e' :=
  ⟨epoch, fun found _ => (inputs _).trans found⟩

theorem Steady.of_graph_eq (epoch : e'.epoch = e.epoch) (graph : e'.graph = e.graph) :
    Steady e e' := .of_inputs epoch fun _ => by rw [graph]

theorem Steady.trans (h : Steady e e') (h' : Steady e' e'') : Steady e e'' where
  epoch := h'.epoch.trans h.epoch
  held found held := h'.held (h.held found held) (h.epoch ▸ held)

/-- What a pull leaves behind where it meets no cycle: what is current fits together, and what was
held before has not changed. -/
structure Settles (e e' : Engine) : Prop where
  consistent : e'.Consistent
  steady : Steady e e'

theorem Settles.trans (h : Settles e e') (h' : Settles e' e'') : Settles e e'' :=
  ⟨h'.consistent, h.steady.trans h'.steady⟩

/-- A change to a node that does not concern what was read or computed. -/
theorem Consistent.modifyNode (h : e.Consistent) (wf : e.graph.WellFormed) {id : NodeId}
    {f : Node → Node} (inputs : ∀ node, (f node).inputs = node.inputs)
    (kind : ∀ node, (f node).kind = node.kind)
    (computedAt : ∀ node, (f node).computedAt = node.computedAt)
    (outputs : ∀ addr, addr.port = Layout.result →
      (e.graph.modifyNode id f).outputValue addr = e.graph.outputValue addr) :
    Settles e (e.modifyNode id f) := by
  have kinds (other : NodeId) : (e.graph.modifyNode id f).pureKind? other =
      e.graph.pureKind? other := by
    rw [Graph.pureKind?, Graph.node?_modifyNode]
    split
    · simp [Graph.pureKind?, Option.bind_map, kind]
    · rfl
  have same (addr : InputAddr) : (e.modifyNode id f).graph.input? addr = e.graph.input? addr :=
    Graph.input?_modifyNode inputs addr
  exact ⟨h.congr rfl same kinds (current_modifyNode computedAt) (fun addr _ => outputs addr) wf,
    .of_inputs rfl same⟩

/-- The input is held, and this is what it gives to its node. -/
structure Gives (e : Engine) (addr : InputAddr) (value : Value) : Prop where
  shown : e.graph.shown addr = value
  held : ∀ input, e.graph.input? addr = some input → input.Held e.epoch

theorem Gives.steady {addr : InputAddr} {value : Value} (gives : e.Gives addr value)
    (steady : Steady e e') (pulled : Pulled e e') : e'.Gives addr value := by
  have same : e'.graph.input? addr = e.graph.input? addr := by
    cases found : e.graph.input? addr with
    | none =>
      have absent := Graph.map_input?_eq_of_frame_eq pulled.frame addr
      rw [found, Option.map_none, Option.map_eq_none_iff] at absent
      exact absent
    | some input => exact steady.held found (gives.held input found)
  refine ⟨(shown_congr same).trans gives.shown, fun input found => ?_⟩
  rw [steady.epoch]
  exact gives.held input (same ▸ found)

section Store

variable {addr : InputAddr} {input : Input} {source : OutputAddr} {value : Value}

theorem input?_store (e : Engine) (addr other : InputAddr) (value : Value) :
    (e.store addr value).graph.input? other =
      if addr = other then (e.graph.input? other).map (·.store value e.epoch.number)
      else e.graph.input? other := by
  rw [graph_store, Graph.input?_modifyInput]

theorem outputValue_store (e : Engine) (addr : InputAddr) (value : Value) (out : OutputAddr) :
    (e.store addr value).graph.outputValue out = e.graph.outputValue out := by
  rw [Graph.outputValue_eq, graph_store, Graph.output?_modifyInput, ← Graph.outputValue_eq]

theorem current_store (e : Engine) (addr : InputAddr) (value : Value) (id : NodeId) :
    (e.store addr value).Current id ↔ e.Current id := by
  apply current_modifyNode
  intro node
  rfl

/-- An input that was read in this epoch is not changed when the same value is stored again. -/
theorem input?_store_of_current (found : e.graph.input? addr = some input)
    (now : e.epoch.isCurrent input.stamp = true) (cached : input.cached = value)
    (other : InputAddr) : (e.store addr value).graph.input? other = e.graph.input? other := by
  have stamp : input.stamp = e.epoch.number := by
    simp only [Epoch.isCurrent, Bool.and_eq_true, beq_iff_eq] at now
    exact now.2
  rw [input?_store]
  split
  case isTrue same =>
    subst same
    rw [found, Option.map_some, Input.store, ← cached, ← stamp]
  case isFalse => rfl

/-- A stale input of a node that is not current may be read through its link. -/
theorem Consistent.store_of_stale (h : e.Consistent) (found : e.graph.input? addr = some input)
    (linked : input.source = some source) (stale : ¬ input.Held e.epoch)
    (settled : (e.graph.pureKind? source.node).isSome → e.Current source.node) :
    (e.store addr (e.graph.outputValue source)).Consistent where
  input {other input' source'} found' linked' pure now := by
    rw [(pulled_store e addr _).pureKind?] at pure
    rw [outputValue_store, current_store]
    rw [input?_store] at found'
    split at found'
    case isTrue same =>
      subst same
      rw [found, Option.map_some, Option.some.injEq] at found'
      subst found'
      obtain rfl : source = source' := Option.some.inj (linked.symm.trans linked')
      exact ⟨rfl, settled pure⟩
    case isFalse => exact h.input found' linked' pure now
  node {id op} pure now := by
    rw [(pulled_store e addr _).pureKind?] at pure
    rw [current_store] at now
    obtain ⟨held, value⟩ := h.node pure now
    have apart (port : PortId) : (e.store addr (e.graph.outputValue source)).graph.input?
        ⟨id, port⟩ = e.graph.input? ⟨id, port⟩ := by
      rw [input?_store, if_neg]
      rintro rfl
      exact stale (held _ _ found)
    rw [outputValue_store, shown_congr (apart _), shown_congr (apart _)]
    refine ⟨fun port input' found' => ?_, value⟩
    rw [apart] at found'
    exact held port input' found'

theorem steady_store (found : e.graph.input? addr = some input) (stale : ¬ input.Held e.epoch)
    (value : Value) : Steady e (e.store addr value) where
  epoch := rfl
  held {other input'} found' held := by
    rw [input?_store, if_neg]
    · exact found'
    · rintro rfl
      obtain rfl := Option.some.inj (found.symm.trans found')
      exact stale held

/-- A linked input is held with the value that is stored for it. -/
theorem gives_store (link : e.graph.source? addr = some source) (nonneg : 0 ≤ e.epoch.number)
    (value : Value) : (e.store addr value).Gives addr value := by
  obtain ⟨before, found, linked⟩ := Graph.source?_eq_some_iff.mp link
  have stored : (e.store addr value).graph.input? addr =
      some (before.store value e.epoch.number) := by
    rw [input?_store, if_pos rfl, found, Option.map_some]
  refine ⟨?_, fun input place _ _ => ?_⟩
  · rw [Graph.shown, stored]
    simp only [Input.shown, Input.store, linked]
  · obtain rfl := Option.some.inj (stored.symm.trans place)
    exact Epoch.isCurrent_number nonneg

/-- What an input reads through its link is stored without a change to anything that is held. -/
theorem Consistent.store (h : e.Consistent) (wf : e.graph.WellFormed)
    (found : e.graph.input? addr = some input) (linked : input.source = some source)
    (settled : (e.graph.pureKind? source.node).isSome → e.Current source.node)
    (fits : e.epoch.isCurrent input.stamp = true → input.cached = e.graph.outputValue source) :
    (e.store addr (e.graph.outputValue source)).Consistent ∧
      Steady e (e.store addr (e.graph.outputValue source)) := by
  cases now : e.epoch.isCurrent input.stamp with
  | true =>
    have inputs := input?_store_of_current found now (fits now)
    refine ⟨h.congr rfl inputs (pulled_store e addr _).pureKind? (current_store e addr _) ?_ wf,
      .of_inputs rfl inputs⟩
    exact fun out _ _ => outputValue_store e addr _ out
  | false =>
    have stale : ¬ input.Held e.epoch := fun held => by simp [held source linked] at now
    exact ⟨h.store_of_stale found linked stale settled, steady_store found stale _⟩

end Store

section Compute

variable {id : NodeId} {kind : PureKind} {value : Value}

theorem current_finishComputing_of_ne {other : NodeId} (different : id ≠ other) :
    (e.finishComputing id value).Current other ↔ e.Current other := by
  refine current_congr (epoch_finishComputing e id value) ?_
  rw [graph_finishComputing, Graph.node?_modifyNode_of_ne different]

theorem current_finishComputing (nonneg : 0 ≤ e.epoch.number)
    (pure : e.graph.pureKind? id = some kind) : (e.finishComputing id value).Current id := by
  obtain ⟨node, found, _⟩ := Graph.pureKind?_eq_some_iff.mp pure
  rw [Current, graph_finishComputing, epoch_finishComputing, Graph.node?_modifyNode_self found]
  exact ⟨_, rfl, Epoch.isCurrent_number nonneg⟩

theorem outputValue_finishComputing_of_ne {addr : OutputAddr} (different : id ≠ addr.node) :
    (e.finishComputing id value).graph.outputValue addr = e.graph.outputValue addr := by
  rw [Graph.outputValue_eq, output?_finishComputing, if_neg, ← Graph.outputValue_eq]
  rintro rfl
  exact different rfl

theorem outputValue_finishComputing (wf : e.graph.WellFormed)
    (pure : e.graph.pureKind? id = some kind) :
    (e.finishComputing id value).graph.outputValue ⟨id, Layout.result⟩ = value := by
  have there : (e.graph.output? ⟨id, Layout.result⟩).isSome :=
    (@Graph.WellFormed.isSome_output?_iff _ wf ⟨id, Layout.result⟩ _ pure).mpr rfl
  obtain ⟨output, found⟩ := Option.isSome_iff_exists.mp there
  rw [Graph.outputValue_eq, output?_finishComputing, if_pos rfl, found]
  rfl

theorem current_beginComputing (e : Engine) (id other : NodeId) :
    (e.beginComputing id).Current other ↔ e.Current other := by
  apply current_modifyNode
  intro node
  rfl

theorem activity?_beginComputing (found : (e.graph.node? id).isSome) :
    (e.beginComputing id).graph.activity? id = some .computing := by
  obtain ⟨node, found⟩ := Option.isSome_iff_exists.mp found
  rw [beginComputing, graph_modifyNode, Graph.activity?, Graph.node?_modifyNode_self found]
  rfl

theorem Consistent.beginComputing (h : e.Consistent) (wf : e.graph.WellFormed) (id : NodeId) :
    Settles e (e.beginComputing id) := by
  refine h.modifyNode wf (fun _ => rfl) (fun _ => rfl) (fun _ => rfl) fun addr _ => ?_
  apply Graph.outputValue_modifyNode
  intro node
  rfl

/-- A node that is not current has no current reader, so its output may change. -/
theorem Consistent.finishComputing (h : e.Consistent) (wf : e.graph.WellFormed)
    (pure : e.graph.pureKind? id = some kind) (stale : ¬ e.Current id)
    (right : ∀ op, kind = .binary op → ∃ a b, e.Gives ⟨id, Layout.Binary.left⟩ a ∧
      e.Gives ⟨id, Layout.Binary.right⟩ b ∧ value = op.apply a b) :
    (e.finishComputing id value).Consistent := by
  have kinds (other : NodeId) :
      (e.finishComputing id value).graph.pureKind? other = e.graph.pureKind? other :=
    Graph.pureKind?_eq_of_frame_eq (Graph.frame_eq (skeleton_finishComputing pure value)) other
  have inputs := input?_finishComputing e id value
  refine ⟨?_, ?_⟩
  · intro addr input source found linked isPure now
    rw [inputs] at found
    rw [kinds] at isPure
    rw [epoch_finishComputing] at now
    obtain ⟨cached, current⟩ := h.input found linked isPure now
    have different : id ≠ source.node := by
      rintro rfl
      exact stale current
    rw [outputValue_finishComputing_of_ne different, current_finishComputing_of_ne different]
    exact ⟨cached, current⟩
  · intro other op isPure now
    rw [kinds] at isPure
    simp only [inputs, epoch_finishComputing, shown_congr (inputs _)]
    by_cases same : id = other
    · subst same
      obtain rfl : kind = .binary op := Option.some.inj (pure.symm.trans isPure)
      obtain ⟨a, b, left, right, equal⟩ := right op rfl
      rw [outputValue_finishComputing wf pure, left.shown, right.shown]
      refine ⟨fun port input found => ?_, equal⟩
      rcases List.mem_pair.mp (wf.mem_operands pure found) with rfl | rfl
      · exact left.held input found
      · exact right.held input found
    · rw [current_finishComputing_of_ne same] at now
      rw [outputValue_finishComputing_of_ne same]
      exact h.node isPure now

end Compute

/-- A pull computes no node that is being computed. -/
structure KeepsMarks (e e' : Engine) : Prop where
  marked : ∀ {id}, e.graph.activity? id = some .computing → e'.graph.activity? id = some .computing
  current : ∀ {id}, e.graph.activity? id = some .computing → (e'.Current id ↔ e.Current id)

theorem KeepsMarks.of_graph_eq (epoch : e'.epoch = e.epoch) (graph : e'.graph = e.graph) :
    KeepsMarks e e' where
  marked := by
    rw [graph]
    exact id
  current _ := current_congr epoch (by rw [graph])

theorem keepsMarks_relation : PullRelation KeepsMarks where
  refl _ := .of_graph_eq rfl rfl
  trans h h' := ⟨h'.marked ∘ h.marked, fun marked => (h'.current (h.marked marked)).trans
    (h.current marked)⟩
  hit e := .of_graph_eq (epoch_count e _) (graph_count e _)
  miss e := .of_graph_eq (epoch_count e _) (graph_count e _)
  cycle _ _ _ := .of_graph_eq (epoch_count _ _) (graph_count _ _)
  store e addr value := by
    refine ⟨fun {id} marked => ?_, fun _ => current_store e addr value _⟩
    rw [(pulled_store e addr value).activity, marked]
  compute {e e' id node kind} value found pure idle during := by
    have apart {other} (marked : e.graph.activity? other = some .computing) : id ≠ other := by
      rintro rfl
      rw [Graph.activity?, found, Option.map_some, idle] at marked
      cases marked
    have begun {other} (marked : e.graph.activity? other = some .computing) :
        (e.beginComputing id).graph.activity? other = some .computing := by
      rw [beginComputing, graph_modifyNode, Graph.activity?,
        Graph.node?_modifyNode_of_ne (apart marked), ← Graph.activity?, marked]
    refine ⟨fun {other} marked => ?_, fun {other} marked => ?_⟩
    · rw [graph_finishComputing, Graph.activity?, Graph.node?_modifyNode_of_ne (apart marked)]
      exact during.marked (begun marked)
    · rw [current_finishComputing_of_ne (apart marked), during.current (begun marked)]
      exact current_beginComputing e id other

theorem keepsMarks_readWithin (locals : Locals) (depth : Nat) (addr : InputAddr) (e : Engine) :
    KeepsMarks e (e.readWithin locals depth addr).2 :=
  keepsMarks_relation.readUsing
    (keepsMarks_relation.refreshUsing (keepsMarks_relation.computeWithin locals depth)) addr e

theorem Consistent.count (h : e.Consistent) (update : Statistics → Statistics) :
    Settles e (e.count update) :=
  ⟨h.of_graph_eq (epoch_count e update) (graph_count e update),
    .of_graph_eq (epoch_count e update) (graph_count e update)⟩

/-- Once its source is up to date, a stale input is held with the value it reads. Only if the source
is pure can it have been read meanwhile, and then it has that value already. -/
theorem Settles.store (h : Settles e e') (pulled : Pulled e e') (wf : e.graph.WellFormed)
    (nonneg : 0 ≤ e.epoch.number) {addr : InputAddr} {input : Input} {source : OutputAddr}
    (found : e.graph.input? addr = some input) (linked : input.source = some source)
    (stale : e.epoch.isCurrent input.stamp = false)
    (current : (e.graph.pureKind? source.node).isSome → e'.Current source.node)
    (unchanged : e.graph.pureKind? source.node = none → e' = e) :
    Settles e (e'.store addr (e'.graph.outputValue source)) ∧
      (e'.store addr (e'.graph.outputValue source)).Gives addr (e'.graph.outputValue source) := by
  have link : e'.graph.source? addr = some source := by
    rw [Graph.source?_eq_of_frame_eq pulled.frame]
    exact Graph.source?_eq_some_iff.mpr ⟨input, found, linked⟩
  obtain ⟨after, found', linked'⟩ := Graph.source?_eq_some_iff.mp link
  have fits : e'.epoch.isCurrent after.stamp = true →
      after.cached = e'.graph.outputValue source := by
    intro now
    cases pure : e.graph.pureKind? source.node with
    | none =>
      rw [unchanged pure] at now found'
      obtain rfl := Option.some.inj (found.symm.trans found')
      simp [stale] at now
    | some kind =>
      have isPure : (e'.graph.pureKind? source.node).isSome := by
        rw [pulled.pureKind?, pure, Option.isSome_some]
      exact (h.consistent.input found' linked' isPure now).1
  obtain ⟨consistent, steady⟩ := h.consistent.store
    (Graph.wellFormed_of_frame_eq pulled.frame.symm wf) found' linked'
    (fun pure => current (by rwa [← pulled.pureKind?])) fits
  exact ⟨h.trans ⟨consistent, steady⟩, gives_store link (pulled.epoch ▸ nonneg) _⟩

/-- Computations of stale nodes that nest at most `depth` deep keep what is current consistent. -/
def SettlesWithin (locals : Locals) (rank : NodeId → Nat) (depth : Nat) : Prop :=
  ∀ {id kind e}, e.Consistent → e.graph.WellFormed → e.graph.pureKind? id = some kind →
    ¬ e.Current id → e.graph.activity? id ≠ some .computing → Clear rank (rank id) e →
    rank id < depth →
    Settles e (e.compute locals depth id kind) ∧ (e.compute locals depth id kind).Current id

namespace SettlesWithin

variable {locals : Locals} {rank : NodeId → Nat} {depth bound : Nat}
  (computed : SettlesWithin locals rank depth)

include computed

/-- A node below the bound is brought up to date; only a pure node is ever computed for that. -/
theorem refresh (consistent : e.Consistent) (wf : e.graph.WellFormed) (id : NodeId)
    (clear : Clear rank bound e) (enough : bound ≤ depth)
    (below : (e.graph.pureKind? id).isSome → rank id < bound) :
    Settles e (e.refreshUsing (Engine.compute locals depth) id) ∧
      ((e.graph.pureKind? id).isSome →
        (e.refreshUsing (Engine.compute locals depth) id).Current id) ∧
      (e.graph.pureKind? id = none → e.refreshUsing (Engine.compute locals depth) id = e) := by
  have rest : Settles e e := ⟨consistent, .of_graph_eq rfl rfl⟩
  unfold Engine.refreshUsing
  cases found : e.graph.node? id with
  | none =>
    have impure : e.graph.pureKind? id = none := by rw [Graph.pureKind?, found, Option.bind_none]
    simp [impure, rest]
  | some node =>
    have kind : e.graph.pureKind? id = node.kind.pure? := by rw [Graph.pureKind?, found]; rfl
    cases isPure : node.kind with
    | action _ => simp [kind, isPure, NodeKind.pure?, rest]
    | control _ => simp [kind, isPure, NodeKind.pure?, rest]
    | pure kind' =>
      have pure : e.graph.pureKind? id = some kind' := Graph.pureKind?_eq_some found isPure
      have lower := below (by rw [pure, Option.isSome_some])
      simp only [pure, isPure, Option.isSome_some, true_implies, reduceCtorEq, false_implies, and_true]
      cases now : e.epoch.isCurrent node.computedAt with
      | true => exact ⟨rest, node, found, now⟩
      | false =>
        have unmarked := clear.idle id lower
        rw [Graph.activity?, found, Option.map_some] at unmarked
        have stale : ¬ e.Current id := by
          rintro ⟨other, place, current⟩
          obtain rfl := Option.some.inj (found.symm.trans place)
          simp [now] at current
        simp only [Bool.false_eq_true, if_false]
        cases busy : node.activity with
        | computing => exact absurd (congrArg some busy) unmarked
        | idle =>
          exact computed consistent wf pure stale (clear.idle id lower)
            (clear.mono (Nat.le_of_lt lower)) (Nat.lt_of_lt_of_le lower enough)

/-- An input whose source is below the bound is held once it is read, and gives the value that was
read. -/
theorem read (consistent : e.Consistent) (wf : e.graph.WellFormed) (addr : InputAddr)
    (clear : Clear rank bound e) (enough : bound ≤ depth)
    (below : ∀ source, e.graph.source? addr = some source →
      (e.graph.pureKind? source.node).isSome → rank source.node < bound) :
    Settles e (e.readWithin locals depth addr).2 ∧
      (e.readWithin locals depth addr).2.Gives addr (e.readWithin locals depth addr).1 := by
  have rest : Settles e e := ⟨consistent, .of_graph_eq rfl rfl⟩
  unfold readWithin Engine.readUsing
  cases found : e.graph.input? addr with
  | none => exact ⟨rest, by simp [Graph.shown, found], by simp [found]⟩
  | some input =>
    dsimp only
    cases linked : input.source with
    | none =>
      exact ⟨rest, by simp [Graph.shown, found, Input.shown, linked],
        by simp [found, Input.Held, linked]⟩
    | some source =>
      dsimp only
      have link : e.graph.source? addr = some source :=
        Graph.source?_eq_some_iff.mpr ⟨input, found, linked⟩
      cases now : e.epoch.isCurrent input.stamp with
      | true =>
        exact ⟨consistent.count _, by simp [Graph.shown, found, Input.shown, linked],
          by simp [found, Input.Held, now]⟩
      | false =>
        have counted := consistent.count Statistics.miss
        obtain ⟨settled, current, unchanged⟩ := computed.refresh (e := e.count Statistics.miss)
          counted.consistent (by rwa [graph_count]) source.node (clear.count _) enough
          (fun pure => below source link (by rwa [graph_count] at pure))
        have pulled := pulled_refreshWithin locals depth source.node (e.count Statistics.miss)
        simp only [Bool.false_eq_true, if_false]
        generalize (e.count Statistics.miss).refreshUsing (Engine.compute locals depth) source.node
          = e₁ at settled current unchanged pulled
        have stored := settled.store pulled (by rwa [graph_count]) (clear.count _).nonneg
          (by rwa [graph_count]) linked (by rwa [epoch_count]) current unchanged
        exact ⟨counted.trans stored.1, stored.2⟩

/-- Operands of a node are read one after the other, and what the first read gives stays. -/
theorem operate (consistent : e.Consistent) (wf : e.graph.WellFormed) {id : NodeId}
    {kind : PureKind} (pure : e.graph.pureKind? id = some kind) (clear : Clear rank (rank id) e)
    (enough : rank id ≤ depth) :
    let (value, after) := Engine.operate (readWithin locals depth) locals id kind e
    Settles e after ∧ Pulled e after ∧ ∀ op, kind = .binary op → ∃ a b,
      after.Gives ⟨id, Layout.Binary.left⟩ a ∧ after.Gives ⟨id, Layout.Binary.right⟩ b ∧
        value = op.apply a b := by
  have readPort {e' : Engine} (pulled : Pulled e e') (consistent' : e'.Consistent) (port : PortId) :
      Settles e' (e'.readWithin locals depth ⟨id, port⟩).2 ∧
        (e'.readWithin locals depth ⟨id, port⟩).2.Gives ⟨id, port⟩
          (e'.readWithin locals depth ⟨id, port⟩).1 := by
    refine computed.read consistent' (Graph.wellFormed_of_frame_eq pulled.frame.symm wf) _
      (clear.pulled pulled) enough ?_
    intro source link above
    obtain ⟨kind', above⟩ := Option.isSome_iff_exists.mp above
    rw [Graph.source?_eq_of_frame_eq pulled.frame] at link
    rw [pulled.pureKind?] at above
    exact clear.ranks.lt (Graph.feeds_of_source link above pure)
  cases kind with
  | binary op =>
    dsimp only [Engine.operate]
    have first := readPort ((Pulled.of_graph_eq rfl rfl)) consistent Layout.Binary.left
    have pulled := pulled_readWithin locals depth ⟨id, Layout.Binary.left⟩ e
    have second := readPort pulled first.1.consistent Layout.Binary.right
    have pulled' := pulled_readWithin locals depth ⟨id, Layout.Binary.right⟩
      (e.readWithin locals depth ⟨id, Layout.Binary.left⟩).2
    refine ⟨first.1.trans second.1, pulled.trans pulled', ?_⟩
    intro other equal
    obtain rfl := PureKind.binary.inj equal
    exact ⟨_, _, first.2.steady second.1.steady pulled', second.2, rfl⟩
  | getLocal =>
    dsimp only [Engine.operate]
    have only := readPort ((Pulled.of_graph_eq rfl rfl)) consistent Layout.GetLocal.key
    refine ⟨only.1, pulled_readWithin _ _ _ _, ?_⟩
    intro op equal
    cases equal

end SettlesWithin

/-- However deep computations may nest, they settle. -/
theorem settlesWithin (locals : Locals) (rank : NodeId → Nat) (depth : Nat) :
    SettlesWithin locals rank depth := by
  induction depth with
  | zero =>
    intro id kind e _ _ _ _ _ _ below
    exact absurd below (Nat.not_lt_zero _)
  | succ depth ih =>
    intro id kind e consistent wf pure stale idle clear below
    have begun := consistent.beginComputing wf id
    have marked : (e.beginComputing id).graph.frame = e.graph.frame :=
      erase_beginComputing _ e id
    have operated := ih.operate begun.consistent (Graph.wellFormed_of_frame_eq marked.symm wf)
      ((Graph.pureKind?_eq_of_frame_eq marked id).trans pure) (clear.begin (Nat.le_refl _))
      (Nat.le_of_lt_succ below)
    have marks := keepsMarks_relation.operate (keepsMarks_readWithin locals depth) locals id kind
      (e.beginComputing id)
    rw [compute_succ]
    generalize Engine.operate (readWithin locals depth) locals id kind (e.beginComputing id) = result
      at operated marks
    obtain ⟨value, e'⟩ := result
    obtain ⟨settled, pulled, right⟩ := operated
    dsimp only at marks ⊢
    have frame : e'.graph.frame = e.graph.frame := pulled.frame.trans marked
    have pure' := (Graph.pureKind?_eq_of_frame_eq frame id).trans pure
    have wf' := Graph.wellFormed_of_frame_eq frame.symm wf
    -- The mark kept the node from being computed while its operands were read.
    have stale' : ¬ e'.Current id := by
      obtain ⟨node, found, _⟩ := Graph.pureKind?_eq_some_iff.mp pure
      rw [marks.current (activity?_beginComputing (Option.isSome_iff_exists.mpr ⟨node, found⟩)),
        current_beginComputing]
      exact stale
    have finished := settled.consistent.finishComputing wf' pure' stale' right
    refine ⟨begun.trans (settled.trans ⟨finished, ?_⟩), current_finishComputing ?_ pure'⟩
    · exact .of_inputs (epoch_finishComputing e' id value) (input?_finishComputing e' id value)
    · rw [settled.steady.epoch, begun.steady.epoch]
      exact clear.nonneg

namespace Consistent

variable (consistent : e.Consistent) (acyclic : e.graph.Acyclic) (wf : e.graph.WellFormed)
  (quiet : e.graph.Quiet) (nonneg : 0 ≤ e.epoch.number) (locals : Locals)

include consistent acyclic wf quiet nonneg

/-- A read keeps what is current consistent. -/
theorem read (addr : InputAddr) : (e.read locals addr).2.Consistent := by
  obtain ⟨rank, ranks⟩ := Graph.exists_ranks acyclic
  rw [read_eq_readWithin]
  refine (SettlesWithin.read (settlesWithin locals rank e.graph.size) consistent wf addr
    (clear_of_quiet quiet nonneg ranks e.graph.size) (Nat.le_refl _) ?_).1.consistent
  intro source _ pure
  obtain ⟨kind, pure⟩ := Option.isSome_iff_exists.mp pure
  exact ranks.bound (Graph.lt_size_of_pureKind? pure)

theorem refresh (id : NodeId) : (e.refresh locals id).Consistent := by
  obtain ⟨rank, ranks⟩ := Graph.exists_ranks acyclic
  refine (SettlesWithin.refresh (settlesWithin locals rank e.graph.size) consistent wf id
    (clear_of_quiet quiet nonneg ranks e.graph.size) (Nat.le_refl _) ?_).1.consistent
  intro pure
  obtain ⟨kind, pure⟩ := Option.isSome_iff_exists.mp pure
  exact ranks.bound (Graph.lt_size_of_pureKind? pure)

/-- The same of a stale node that is computed by itself. -/
theorem compute {id : NodeId} {kind : PureKind} (pure : e.graph.pureKind? id = some kind)
    (stale : ¬ e.Current id) : (e.compute locals e.graph.size id kind).Consistent := by
  obtain ⟨rank, ranks⟩ := Graph.exists_ranks acyclic
  exact (settlesWithin locals rank e.graph.size consistent wf pure stale (quiet id)
    (clear_of_quiet quiet nonneg ranks (rank id))
    (ranks.bound (Graph.lt_size_of_pureKind? pure))).1.consistent

end Consistent

end Engine

end NodeGraph
