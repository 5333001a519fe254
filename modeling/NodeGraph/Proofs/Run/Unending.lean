import NodeGraph.Proofs.Engine.Unending
import NodeGraph.Proofs.Run.Lockstep
import NodeGraph.Proofs.Run.Pair

/-!
# Runs and epoch numbers

A step opens an epoch, so the numbers may run out in the middle of a run. The run goes on as with
numbers that never run out: the same steps, the same changes to the context, and the same values in
the graph (`twinned_runs`).
-/

namespace NodeGraph

namespace Machine

/-- Machines that run for the same context, the second one with epoch numbers that never run out. -/
structure Unending (m m' : Machine) : Prop where
  context : m'.context = m.context
  engines : m.engine.Unending m'.engine

/-- Such machines between two steps. -/
structure Twinned (m m' : Machine) : Prop where
  context : m'.context = m.context
  engines : m.engine.Twinned m'.engine

namespace Unending

variable {m m' : Machine}

theorem kind?_eq (h : m.Unending m') (id : NodeId) : m'.kind? id = m.kind? id := by
  have kinds := congrArg (Option.map Node.kind) (h.engines.map_node? id)
  rw [Option.map_map, Option.map_map] at kinds
  exact kinds

theorem read (h : m.Unending m') (addr : InputAddr) :
    (m'.read addr).1 = (m.read addr).1 ∧ (m.read addr).2.Unending (m'.read addr).2 := by
  unfold Machine.read
  rw [h.context]
  obtain ⟨value, after⟩ := h.engines.read m.context.locals addr
  exact ⟨value, rfl, after⟩

theorem log (h : m.Unending m') (event : Event) : (m.log event).Unending (m'.log event) :=
  ⟨h.context, h.engines.log rfl⟩

theorem write (h : m.Unending m') (addr : OutputAddr) (value : Value) :
    (m.write addr value).Unending (m'.write addr value) :=
  ⟨h.context, h.engines.act (Engine.numberless_write addr value)⟩

theorem onContext (h : m.Unending m') (effect : Effect) :
    Unending { m with context := effect.onContext m.context }
      { m' with context := effect.onContext m'.context } :=
  ⟨congrArg effect.onContext h.context, h.engines⟩

/-- A step makes the same changes on both sides. -/
theorem apply (h : m.Unending m') (id : NodeId) (effect : Effect) :
    (m.apply id effect).Unending (m'.apply id effect) := by
  unfold Machine.apply
  cases effect.event with
  | none =>
    cases effect.write with
    | none => exact h.onContext effect
    | some write => exact (h.onContext effect).write _ _
  | some event =>
    cases effect.write with
    | none => exact (h.log event).onContext effect
    | some write => exact ((h.log event).onContext effect).write _ _

theorem countStep (h : m.Unending m') (id : NodeId) :
    (m.countStep id).Unending (m'.countStep id) :=
  ⟨h.context, (h.engines.act (Engine.numberless_modifyNode id fun _ _ => rfl)).act
    (Engine.numberless_count Statistics.evaluation (fun _ => rfl) (fun _ => rfl) fun _ => rfl)⟩

theorem compute (h : m.Unending m') {id : NodeId} {kind : PureKind}
    (quiet : m.engine.graph.Quiet) (pure : m.engine.graph.pureKind? id = some kind) : Unending
      { m with engine := m.engine.compute m.context.locals m.engine.graph.size id kind }
      { m' with engine := m'.engine.compute m'.context.locals m'.engine.graph.size id kind } where
  context := h.context
  engines := by
    rw [h.context]
    exact h.engines.compute m.context.locals pure quiet

end Unending

theorem unending_steps : StepPair Unending Unending where
  kind? h := h.kind?_eq
  read h := h.read
  nothing h := h
  compute h _ _ := h.compute
  acted h id effect := (h.apply id effect).countStep id

/-- The epoch of a step is opened on both sides. -/
theorem Twinned.openStep {m m' : Machine} (h : m.Twinned m') (id : NodeId) :
    (m.openStep id).Unending (m'.openStep id) := by
  refine ⟨h.context, openStep_pair id ?_ ?_ ?_ ?_⟩
  · rw [h.context]
    exact h.engines.openEpoch.serve m.context.id
  · intro e e' served
    have titles := congrArg (Option.map Node.title) (served.map_node? id)
    rw [Option.map_map, Option.map_map] at titles
    exact titles
  · intro e e' served
    rw [served.config]
  · intro e e' title served
    exact served.log rfl

/-- Both machines make the same step. -/
theorem Twinned.perform {m m' : Machine} (h : m.Twinned m') (task : Task) :
    (m'.perform task).1 = (m.perform task).1 ∧ (m.perform task).2.Twinned (m'.perform task).2 := by
  have ready := (works_perform h.engines.valid task).1
  have ready' := (works_perform h.engines.valid' task).1
  obtain ⟨step, after⟩ := unending_steps.perform h.engines.valid task (h.openStep task.node)
  exact ⟨step, after.context, after.engines, ready.valid, ready'.valid⟩

theorem Twinned.following_eq {m m' : Machine} (h : m.Twinned m') (id : NodeId)
    (ports : List PortId) : m'.following id ports = m.following id ports := by
  unfold following
  congr 1
  funext port
  exact h.engines.unending.successors_eq ⟨id, port⟩

end Machine

theorem twinned_runs : RunPair Engine.Twinned Machine.Twinned where
  own h := ⟨h.unending.context, h⟩
  back {m m'} h := by
    rw [h.context]
    exact ⟨h.engines.unending.withContext _, h.engines.valid.of_eq rfl rfl rfl,
      h.engines.valid'.of_eq rfl rfl rfl⟩
  size h := h.engines.unending.size
  following h := h.following_eq
  perform h := h.perform

end NodeGraph
