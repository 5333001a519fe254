import NodeGraph.Proofs.Engine.Consistency
import NodeGraph.Proofs.Session.Invariant

/-!
# Caches agree in every session

Every operation keeps what is current in a graph consistent, while its pure nodes form no cycle:
reads because they compute nothing that is current, steps because each has an epoch of its own and
writes no output of a pure node, and changes to the wiring or to a literal because nothing is
current after them. What a cycle may have left behind is gone once a link of it was removed
(`Engine.Reachable.caches_consistent`).
-/

namespace NodeGraph

namespace Engine

variable {e e' : Engine}

/-- Only pure nodes are asked to agree with what was read from them. -/
theorem Consistent.write (h : e.Consistent) (wf : e.graph.WellFormed) {addr : OutputAddr}
    (beside : addr.port ≠ Layout.result) (value : Value) : (e.write addr value).Consistent := by
  have kept : Settles e (e.write addr value) := by
    refine h.modifyNode wf (fun _ => rfl) (fun _ => rfl) (fun _ => rfl) fun other port => ?_
    show (e.graph.modifyOutput addr fun output => { output with value }).outputValue other = _
    rw [Graph.outputValue_eq, Graph.output?_modifyOutput, if_neg, ← Graph.outputValue_eq]
    rintro rfl
    exact beside port
  exact kept.consistent

theorem Consistent.countEvaluation (h : e.Consistent) (wf : e.graph.WellFormed) (id : NodeId) :
    (e.modifyNode id Node.countEvaluation).Consistent := by
  have kept : Settles e (e.modifyNode id Node.countEvaluation) := by
    refine h.modifyNode wf (fun _ => rfl) (fun _ => rfl) (fun _ => rfl) fun other _ => ?_
    apply Graph.outputValue_modifyNode
    intro node
    rfl
  exact kept.consistent

/-- Nothing of a node that is added is current, and no input of it has a link. -/
theorem Consistent.addNode (h : e.Consistent) (wf : e.graph.WellFormed) (node : Node) :
    (e.addNode node).2.Consistent := by
  have graph : (e.addNode node).2.graph = (e.graph.add node).2 := rfl
  have epoch : (e.addNode node).2.epoch = e.epoch := rfl
  have current {id : NodeId} (old : id ≠ e.graph.size) :
      (e.addNode node).2.Current id ↔ e.Current id := by
    apply current_congr epoch
    rw [graph, Graph.node?_add_of_ne old]
  have kinds {id : NodeId} (old : id ≠ e.graph.size) :
      (e.graph.add node).2.pureKind? id = e.graph.pureKind? id := by
    rw [Graph.pureKind?, Graph.node?_add_of_ne old, Graph.pureKind?]
  constructor
  · intro addr input source found linked pure now
    rw [graph] at found pure ⊢
    by_cases new : addr.node = e.graph.size
    · rw [Graph.input?, new, Graph.node?_add_self, Option.bind_some] at found
      simp only [Node.detach, Array.getElem?_map] at found
      obtain ⟨_, _, rfl⟩ := Option.map_eq_some_iff.mp found
      cases linked
    · rw [Graph.input?_add_of_ne new] at found
      obtain ⟨output, there⟩ := Option.isSome_iff_exists.mp (wf.wired found linked)
      obtain ⟨other, place, _⟩ := Graph.output?_eq_some_iff.mp there
      have old : source.node ≠ e.graph.size := Nat.ne_of_lt (Graph.lt_size_of_node? place)
      rw [kinds old] at pure
      rw [Graph.outputValue_add_of_ne old, current old]
      exact h.input found linked pure now
  · intro id op pure now
    rw [graph] at pure ⊢
    by_cases new : id = e.graph.size
    · obtain ⟨other, place, now⟩ := now
      rw [graph, new, Graph.node?_add_self] at place
      obtain rfl := Option.some.inj place
      simp [Node.detach] at now
    · rw [kinds new] at pure
      rw [current new] at now
      have inputs (port : PortId) :
          (e.graph.add node).2.input? ⟨id, port⟩ = e.graph.input? ⟨id, port⟩ :=
        Graph.input?_add_of_ne new node
      have output : (e.graph.add node).2.outputValue ⟨id, Layout.result⟩ =
          e.graph.outputValue ⟨id, Layout.result⟩ := Graph.outputValue_add_of_ne new node
      simp only [inputs, shown_congr (inputs _), output]
      exact h.node pure now

theorem Consistent.serve (h : e.Consistent) (valid : e.Valid) (context : Nat) :
    (e.serve context).Consistent := by
  by_cases serves : e.serves = some context
  · rw [serve_of_serves serves]
    exact h
  · exact consistent_of_fresh (valid.fresh_serve serves)

theorem Consistent.getValue (h : e.Consistent) (valid : e.Valid) (acyclic : e.graph.Acyclic)
    (addr : InputAddr) (context : Context) : (e.getValue addr context).2.Consistent := by
  have served := valid.serve context.id
  unfold Engine.getValue
  split
  · exact h
  · exact (h.serve valid context.id).read
      (Graph.acyclic_of_frame_eq (erase_serve _ e context.id).symm acyclic) served.wellFormed
      served.quiet served.nonneg context.locals addr

theorem Consistent.pullOutput (h : e.Consistent) (valid : e.Valid) (acyclic : e.graph.Acyclic)
    (addr : OutputAddr) (context : Context) : (e.pullOutput addr context).2.Consistent := by
  have served := valid.serve context.id
  unfold Engine.pullOutput
  split
  · exact h
  · exact (h.serve valid context.id).refresh
      (Graph.acyclic_of_frame_eq (erase_serve _ e context.id).symm acyclic) served.wellFormed
      served.quiet served.nonneg context.locals addr.node

end Engine

/-- No step writes a port at which pure nodes have their result. -/
theorem Task.Acts.write_ne_result {kind? : Option NodeKind} {task : Task}
    {operand : PortId → Value} {effect : Effect} (acts : task.Acts kind? operand effect)
    {port : PortId} {value : Value} (written : effect.write = some (port, value)) :
    port ≠ Layout.result := by
  have counting (frame : CountingFrame) (written : frame.effect.write = some (port, value)) :
      port ≠ Layout.result := by
    rcases frame.effect_cases with ⟨_, _, _, equal⟩ | equal
    · rw [equal] at written
      obtain ⟨rfl, _⟩ := Prod.mk.inj (Option.some.inj written)
      decide
    · rw [equal] at written
      cases written
  have condition : (conditionEffect operand).write = none := by
    rcases conditionEffect_cases operand with equal | equal <;> rw [equal]
  cases acts with
  | @action _ kind _ =>
    cases kind with
    | start | print => cases written
    | setLocal =>
      obtain ⟨rfl, _⟩ := Prod.mk.inj (Option.some.inj written)
      decide
  | first _ _ => exact counting _ written
  | skipped _ => cases written
  | tested _ => simp [condition] at written
  | untested _ => cases written
  | chosen _ => cases written
  | counted => exact counting _ written
  | retested => simp [condition] at written

namespace Machine

/-- A machine with a consistent engine, in the middle of a step on the plan of the graph `g`. -/
structure Stepping (g : Graph) (m : Machine) : Prop where
  ready : m.Ready
  frame : m.engine.graph.frame = g.frame
  consistent : m.engine.Consistent

variable {g : Graph} {m : Machine}

theorem Stepping.works {m' : Machine} (h : Stepping g m) (works : Works m m')
    (consistent : m'.engine.Consistent) : Stepping g m' :=
  ⟨works.ready h.ready, works.frame.trans h.frame, consistent⟩

theorem Stepping.read (h : Stepping g m) (acyclic : g.Acyclic) (addr : InputAddr) :
    Stepping g (m.read addr).2 := by
  refine h.works (works_read m addr) ?_
  have valid := h.ready.valid
  exact h.consistent.read (Graph.acyclic_of_frame_eq h.frame.symm acyclic) valid.wellFormed
    valid.quiet valid.nonneg m.context.locals addr

theorem Stepping.apply (h : Stepping g m) (id : NodeId) {effect : Effect}
    (beside : ∀ port value, effect.write = some (port, value) → port ≠ Layout.result) :
    Stepping g (m.apply id effect) := by
  refine h.works (works_apply m id effect) ?_
  unfold Machine.apply
  cases effect.event with
  | none =>
    cases written : effect.write with
    | none => exact h.consistent
    | some write =>
      exact h.consistent.write h.ready.valid.wellFormed (beside _ _ written) _
  | some event =>
    have logged : (m.engine.log event).Consistent := h.consistent.of_graph_eq rfl rfl
    cases written : effect.write with
    | none => exact logged
    | some write => exact logged.write h.ready.valid.wellFormed (beside _ _ written) _

theorem Stepping.countStep (h : Stepping g m) (id : NodeId) : Stepping g (m.countStep id) := by
  refine h.works (works_countStep m id) ?_
  exact ((h.consistent.countEvaluation h.ready.valid.wellFormed id).count _).consistent

/-- A step keeps what is current consistent, since nothing is when it starts. -/
theorem consistent_perform (valid : m.engine.Valid) (acyclic : m.engine.graph.Acyclic)
    (task : Task) : (m.perform task).2.engine.Consistent := by
  have frame : (m.openStep task.node).engine.graph.frame = m.engine.graph.frame :=
    erase_openStep _ m task.node
  obtain ⟨ready, fresh⟩ := ready_openStep valid task.node
  rw [perform_eq]
  generalize m.openStep task.node = m₁ at ready fresh frame
  have begun : Stepping m.engine.graph m₁ := ⟨ready, frame, Engine.consistent_of_fresh fresh⟩
  cases work : task.work (m₁.kind? task.node) with
  | nothing => exact begun.consistent
  | compute kind =>
    obtain ⟨node, found, isPure⟩ := Option.map_eq_some_iff.mp (pure_of_work work).1
    exact begun.consistent.compute (Graph.acyclic_of_frame_eq frame.symm acyclic)
      ready.valid.wellFormed ready.valid.quiet ready.valid.nonneg _
      (Graph.pureKind?_eq_some found isPure) (fresh.not_current _)
  | act operands effect =>
    have reads : Stepping m.engine.graph (m₁.readAll task.node operands).2 := by
      refine (readAll_keeps (fun _ _ => True) operands ?_ begun).2
      intro port _ m' h
      exact ⟨trivial, h.read acyclic ⟨task.node, port⟩⟩
    have acts := Task.acts_of_work work (m₁.readAll task.node operands).1
    exact ((reads.apply task.node fun _ _ => acts.write_ne_result).countStep task.node).consistent

end Machine

/-- Every operation keeps what is current consistent, as long as the pure nodes form no cycle. -/
theorem consistent_invariant :
    EngineInvariant fun e => e.Valid ∧ (e.graph.Acyclic → e.Consistent) where
  wellFormed h := h.1.wellFormed
  new context config := ⟨.new context config, fun _ =>
    Engine.consistent_of_fresh (Graph.stamps_empty _)⟩
  beside _ _ _ _ _ h := ⟨h.1.of_eq rfl rfl rfl, fun acyclic => (h.2 acyclic).of_graph_eq rfl rfl⟩
  addNode h laid := ⟨h.1.addNode laid, fun acyclic =>
    (h.2 (Graph.acyclic_of_add acyclic)).addNode h.1.wellFormed _⟩
  connect h connected := by
    refine ⟨h.1.connect connected, fun _ => ?_⟩
    obtain ⟨graph, _, rfl⟩ := Engine.connect_eq_ok_iff.mp connected
    exact Engine.consistent_of_fresh (Engine.fresh_invalidate _)
  disconnect h disconnected := by
    refine ⟨h.1.disconnect disconnected, fun _ => ?_⟩
    obtain ⟨graph, _, rfl⟩ := Engine.disconnect_eq_ok_iff.mp disconnected
    exact Engine.consistent_of_fresh (Engine.fresh_invalidate _)
  setLiteral h set := by
    refine ⟨h.1.setLiteral set, fun _ => ?_⟩
    obtain ⟨graph, _, rfl⟩ := Engine.setLiteral_eq_ok_iff.mp set
    exact Engine.consistent_of_fresh (Engine.fresh_invalidate _)
  openEpoch h := ⟨h.1.openEpoch.1, fun _ => Engine.consistent_of_fresh h.1.openEpoch.2.1⟩
  invalidate h := ⟨h.1.invalidate, fun _ => Engine.consistent_of_fresh (Engine.fresh_invalidate _)⟩
  getValue {e addr context} h := ⟨h.1.getValue _ _, fun acyclic =>
    have acyclic := Graph.acyclic_of_frame_eq (Engine.frame_getValue e addr context) acyclic
    (h.2 acyclic).getValue h.1 acyclic addr context⟩
  pullOutput {e addr context} h := ⟨h.1.pullOutput _ _, fun acyclic =>
    have acyclic := Graph.acyclic_of_frame_eq (Engine.frame_pullOutput e addr context) acyclic
    (h.2 acyclic).pullOutput h.1 acyclic addr context⟩
  execute h executed := by
    refine Machine.execute_keeps
      (P := fun m => m.engine.Valid ∧ (m.engine.graph.Acyclic → m.engine.Consistent)) ?_ h executed
    rintro m task ⟨valid, _⟩
    rcases Machine.works_perform valid task with ⟨ready, works⟩
    refine ⟨ready.valid, fun acyclic => ?_⟩
    exact Machine.consistent_perform valid (Graph.acyclic_of_frame_eq works.frame acyclic) task

namespace Engine

/-- Whatever a session has done to a graph, what is current in it fits together while its pure nodes
form no cycle. -/
theorem Reachable.caches_consistent {e : Engine} (reachable : e.Reachable)
    (acyclic : e.graph.Acyclic) : e.Consistent := (reachable.holds consistent_invariant).2 acyclic

/-- Twice the local variable `x` is printed, on a new graph, and the line is read. -/
def pulledThrough : List Command :=
  [.openSheet .engine {}, .add (Node.getLocal "x"),
    .add (Node.ofKind (.pure (.binary (.arithmetic .add)))), .add (Node.ofKind (.action .print)),
    .connect ⟨⟨0, 0⟩, ⟨1, 0⟩⟩, .connect ⟨⟨0, 0⟩, ⟨1, 1⟩⟩, .connect ⟨⟨1, 0⟩, ⟨2, 1⟩⟩,
    .setLocal "x" (.int 21) none, .getValue ⟨2, 1⟩ none, .setLocal "x" (.int 5) none]

theorem consistent_pulledThrough : (Engine.built pulledThrough).Reachable ∧
    (Engine.built pulledThrough).graph.Acyclic ∧
    (Engine.built pulledThrough).Consistent ∧
    ((Engine.built pulledThrough).graph.node? 1).map (fun node =>
      (Engine.built pulledThrough).epoch.isCurrent node.computedAt) = some true ∧
    ((Engine.built pulledThrough).graph.outputValue ⟨1, 0⟩).display = "42" := by
  have reachable := @Engine.reachable_built pulledThrough (by decide +kernel) (by decide +kernel)
  have acyclic : (Engine.built pulledThrough).graph.Acyclic := by
    apply Graph.acyclic_of_ascending
    decide +kernel
  exact ⟨reachable, acyclic, Engine.Reachable.caches_consistent reachable acyclic, by decide +kernel,
    by decide +kernel⟩

end Engine

end NodeGraph
