import NodeGraph.Proofs.Run.Lockstep
import NodeGraph.Proofs.Run.Pair

/-!
# Runs on engines that differ for one context

Engines that are alike but for a hidden context run alike for any context that is the same on both
sides: every step has an epoch of its own, so it finds nothing that was left for the hidden one. The
runs make the same steps, change the context in the same way, and leave the engines alike
(`paired_runs`).
-/

namespace NodeGraph

namespace Engine.Alike

variable {hidden : Nat} {e e' : Engine}

theorem log (h : Alike hidden e e') (event : Event) : Alike hidden (e.log event) (e'.log event) :=
  h.update (f := fun e => e.log event) (fun _ _ => rfl) (fun _ => rfl) rfl rfl

theorem count (h : Alike hidden e e') (update : Statistics → Statistics) :
    Alike hidden (e.count update) (e'.count update) :=
  h.update (f := fun e => e.count update) (Aligned.count_withGraph · · update)
    (graph_count · update) (epoch_count e update) (serves_count e update)

/-- One value is written on both sides. -/
theorem write (h : Alike hidden e e') (addr : OutputAddr) (value : Value) :
    Alike hidden (e.write addr value) (e'.write addr value) := by
  refine ⟨h.aligned.modifyNode ?_, fun {id node kind} found pure current visible => ?_,
    fun {other input input' source} found found' linked current => ?_⟩
  · refine Graph.mapNodes_modifyNode_congr h.aligned.blank ?_
    intro node node' equal
    have kinds := congrArg Node.kind equal
    change node.kind = node'.kind at kinds
    rw [Node.blank_write, Node.blank_write, equal, kinds]
  · have place : ∃ old, e.graph.node? id = some old ∧ old.kind = node.kind ∧
        old.computedAt = node.computedAt := by
      rw [Engine.write, graph_modifyNode, Graph.node?_modifyNode] at found
      split at found
      · obtain ⟨old, place, rfl⟩ := Option.map_eq_some_iff.mp found
        exact ⟨old, place, rfl, rfl⟩
      · exact ⟨node, found, rfl, rfl⟩
    obtain ⟨old, place, kinds, stamps⟩ := place
    have before := h.matching.node place (kinds.trans pure) (stamps ▸ current) visible
    have there := Graph.isSome_output?_eq_of_frame_eq h.aligned.frame ⟨id, Layout.result⟩
    show (e'.graph.modifyOutput addr _).outputValue _ = (e.graph.modifyOutput addr _).outputValue _
    rw [Graph.outputValue_eq, Graph.outputValue_eq] at before ⊢
    rw [Graph.output?_modifyOutput, Graph.output?_modifyOutput]
    split
    · cases found : e.graph.output? ⟨id, Layout.result⟩ <;>
        cases found' : e'.graph.output? ⟨id, Layout.result⟩ <;> simp_all
    · exact before
  · have same : ∀ e : Engine, (e.write addr value).graph.input? other = e.graph.input? other := by
      intro e
      apply Graph.input?_modifyNode
      intro node
      rfl
    rw [same] at found found'
    exact h.matching.input found found' linked current

theorem countEvaluation (h : Alike hidden e e') (id : NodeId) :
    Alike hidden (e.modifyNode id Node.countEvaluation)
      (e'.modifyNode id Node.countEvaluation) := by
  refine ⟨h.aligned.modifyNode ?_, ?_⟩
  · refine Graph.mapNodes_modifyNode_congr h.aligned.blank ?_
    intro node node' equal
    exact congrArg Node.countEvaluation equal
  · apply h.matching.modifyNode id <;> intro node <;> rfl

end Engine.Alike

namespace Machine

/-- Machines that run for the same context on alike engines. -/
structure Paired (hidden : Nat) (m m' : Machine) : Prop where
  context : m'.context = m.context
  engines : Engine.Paired hidden m.engine m'.engine

/-- The same in the middle of a step, where all that is current is equal. -/
structure Abreast (g : Graph) (m m' : Machine) : Prop where
  context : m'.context = m.context
  ready : m.Ready
  acyclic : g.Acyclic
  engines : Engine.Abreast g (Engine.SameIf True) (Engine.SameIf True) m.engine m'.engine

theorem aligned_openStep {m m' : Machine} (aligned : m.engine.Aligned m'.engine)
    (context : m'.context = m.context) (id : NodeId) :
    (m.openStep id).engine.Aligned (m'.openStep id).engine := by
  refine openStep_pair id ?_ ?_ ?_ ?_
  · rw [context]
    exact aligned.openEpoch.serve m.context.id
  · intro e e' aligned
    have titles := congrArg (Option.map Node.title) (aligned.map_node? id)
    rw [Option.map_map, Option.map_map] at titles
    exact titles
  · intro e e' aligned
    rw [aligned.rest]
  · intro e e' title aligned
    rw [aligned.epoch]
    exact aligned.log _

/-- A step begins with nothing current. -/
theorem Paired.openStep {hidden : Nat} {m m' : Machine} (h : Paired hidden m m') (id : NodeId) :
    Abreast (m.openStep id).engine.graph (m.openStep id) (m'.openStep id) := by
  rcases ready_openStep h.engines.valid id with ⟨ready, fresh⟩
  have frame := Graph.frame_eq (erase_openStep (fun _ => false) m id)
  have aligned := aligned_openStep h.engines.alike.aligned h.context id
  exact ⟨h.context, ready, Graph.acyclic_of_frame_eq frame.symm h.engines.acyclic, aligned, rfl,
    .of_fresh fresh _⟩

namespace Abreast

variable {g : Graph} {hidden : Nat} {m m' : Machine}

theorem wellFormed (h : Abreast g m m') : g.WellFormed :=
  Graph.wellFormed_of_frame_eq h.engines.frame h.ready.valid.wellFormed

theorem alike (h : Abreast g m m') : Engine.Alike hidden m.engine m'.engine :=
  h.engines.alike fun _ => trivial

theorem kind?_eq (h : Abreast g m m') (id : NodeId) : m'.kind? id = m.kind? id := by
  have kinds := congrArg (Option.map Node.kind) (h.engines.aligned.map_node? id)
  rw [Option.map_map, Option.map_map] at kinds
  exact kinds

theorem read (h : Abreast g m m') (addr : InputAddr) :
    (m'.read addr).1 = (m.read addr).1 ∧ Abreast g (m.read addr).2 (m'.read addr).2 := by
  have locals : True → m'.context.locals = m.context.locals := fun _ => by rw [h.context]
  obtain ⟨value, after⟩ := h.engines.read h.acyclic h.wellFormed (Engine.same_matches g locals)
    h.ready.valid.quiet h.ready.valid.nonneg addr
  exact ⟨value trivial, h.context, (works_read m addr).ready h.ready, h.acyclic, after⟩

/-- A pure node that control reaches is computed. -/
theorem compute (h : Abreast g m m') {id : NodeId} {kind : PureKind}
    (pure : m.engine.graph.pureKind? id = some kind) :
    Engine.Alike hidden (m.engine.compute m.context.locals m.engine.graph.size id kind)
      (m'.engine.compute m'.context.locals m'.engine.graph.size id kind) := by
  have locals : True → m'.context.locals = m.context.locals := fun _ => by rw [h.context]
  obtain ⟨_, after⟩ := h.engines.compute h.acyclic h.wellFormed (Engine.same_matches g locals)
    h.ready.valid.quiet h.ready.valid.nonneg pure
  exact after.alike fun _ => trivial

end Abreast

/-- A step makes the same changes on both sides. -/
theorem alike_apply {hidden : Nat} {m m' : Machine} (h : Engine.Alike hidden m.engine m'.engine)
    (id : NodeId) (effect : Effect) :
    Engine.Alike hidden (m.apply id effect).engine (m'.apply id effect).engine := by
  unfold apply
  cases effect.event with
  | none =>
    cases effect.write with
    | none => exact h
    | some write => exact h.write _ _
  | some event =>
    cases effect.write with
    | none => exact h.log event
    | some write => exact (h.log event).write _ _

/-- Both machines make the same steps, after which the engines are alike. -/
theorem abreast_steps (g : Graph) (hidden : Nat) : StepPair (Abreast g) fun m m' =>
    m'.context = m.context ∧ Engine.Alike hidden m.engine m'.engine where
  kind? h := h.kind?_eq
  read h := h.read
  nothing h := ⟨h.context, h.alike⟩
  compute h _ _ _ pure := ⟨h.context, h.compute pure⟩
  acted {m m'} h id effect := by
    refine ⟨?_, ((alike_apply h.alike id effect).countEvaluation id).count _⟩
    show (m'.apply id effect).context = (m.apply id effect).context
    rw [context_apply, context_apply, h.context]

theorem Paired.perform {hidden : Nat} {m m' : Machine} (h : Paired hidden m m') (task : Task) :
    (m'.perform task).1 = (m.perform task).1 ∧
      Paired hidden (m.perform task).2 (m'.perform task).2 := by
  rcases works_perform h.engines.valid task with ⟨ready, works⟩
  have acyclic := Graph.acyclic_of_frame_eq works.frame.symm h.engines.acyclic
  obtain ⟨step, context, alike⟩ :=
    (abreast_steps _ hidden).perform h.engines.valid task (h.openStep task.node)
  exact ⟨step, context, alike, ready.valid, acyclic⟩

theorem Paired.following_eq {hidden : Nat} {m m' : Machine} (h : Paired hidden m m') (id : NodeId)
    (ports : List PortId) : m'.following id ports = m.following id ports := by
  unfold following
  congr 1
  funext port
  exact Graph.successors_eq_of_frame_eq h.engines.alike.aligned.frame ⟨id, port⟩

end Machine

/-- Paired engines run alike. -/
theorem paired_runs (hidden : Nat) : RunPair (Engine.Paired hidden) (Machine.Paired hidden) where
  own h := ⟨by rw [h.alike.aligned.rest], h⟩
  back {m m'} h := by
    rw [h.context]
    exact ⟨h.engines.alike.withContext _, h.engines.valid.of_eq rfl rfl rfl, h.engines.acyclic⟩
  size h := h.engines.alike.aligned.size
  following h := h.following_eq
  perform h := h.perform

end NodeGraph
