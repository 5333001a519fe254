import NodeGraph.Proofs.Engine.Unrecorded
import NodeGraph.Proofs.Run.Lockstep
import NodeGraph.Proofs.Run.Pair

/-!
# Runs and what is recorded of them

A run takes no notice of settings, counts and journal: with others, it makes the same steps, the
same changes to the context and to the graph, and ends at the same node (`reconfigured_runs`).
-/

namespace NodeGraph

namespace Machine

/-- Machines that run for the same context, whose engines differ in their records at most. -/
structure Reconfigured (m m' : Machine) : Prop where
  context : m'.context = m.context
  engines : m.engine.Reconfigured m'.engine

/-- The changes of a step, but for what is recorded. -/
theorem unrecorded_apply (m : Machine) (id : NodeId) (effect : Effect) :
    (m.apply id effect).engine.unrecorded = match effect.write with
      | some (port, value) => m.engine.unrecorded.write ⟨id, port⟩ value
      | none => m.engine.unrecorded := by
  unfold apply
  cases effect.event <;> cases effect.write <;> rfl

/-- Whether steps are traced does not matter. -/
theorem unrecorded_openStep (m : Machine) (id : NodeId) :
    (m.openStep id).engine.unrecorded =
      (m.engine.openEpoch.serve m.context.id).unrecorded := by
  unfold openStep
  dsimp only
  split
  · split <;> rfl
  · rfl

theorem blind_countStep (id : NodeId) : Engine.Blind fun e =>
    (e.modifyNode id Node.countEvaluation).count Statistics.evaluation :=
  (Engine.blind_count Statistics.evaluation).comp (Engine.blind_modifyNode id _)

namespace Reconfigured

variable {m m' : Machine} (h : m.Reconfigured m')

include h

theorem kind?_eq (id : NodeId) : m'.kind? id = m.kind? id := by
  rw [kind?, kind?, h.engines.graph]

theorem read (addr : InputAddr) :
    (m'.read addr).1 = (m.read addr).1 ∧ (m.read addr).2.Reconfigured (m'.read addr).2 := by
  unfold Machine.read
  rw [h.context]
  obtain ⟨value, after⟩ := h.engines.read m.context.locals addr
  exact ⟨value, rfl, after⟩

theorem acted (id : NodeId) (effect : Effect) :
    ((m.apply id effect).countStep id).Reconfigured ((m'.apply id effect).countStep id) where
  context := by
    show (m'.apply id effect).context = (m.apply id effect).context
    rw [context_apply, context_apply, h.context]
  engines := by
    have applied : (m.apply id effect).engine.Reconfigured (m'.apply id effect).engine := by
      rw [Engine.Reconfigured, unrecorded_apply, unrecorded_apply, h.engines]
    exact applied.act (blind_countStep id)

theorem compute {id : NodeId} {kind : PureKind} (quiet : m.engine.graph.Quiet)
    (pure : m.engine.graph.pureKind? id = some kind) : Reconfigured
      { m with engine := m.engine.compute m.context.locals m.engine.graph.size id kind }
      { m' with engine := m'.engine.compute m'.context.locals m'.engine.graph.size id kind } where
  context := h.context
  engines := by
    rw [h.context]
    exact h.engines.compute m.context.locals pure quiet

theorem openStep (id : NodeId) : (m.openStep id).Reconfigured (m'.openStep id) where
  context := h.context
  engines := by
    have opened := h.engines.act
      ((Engine.blind_serve m.context.id).comp Engine.blind_openEpoch)
    rw [Engine.Reconfigured, unrecorded_openStep, unrecorded_openStep, h.context]
    exact opened

theorem following_eq (id : NodeId) (ports : List PortId) :
    m'.following id ports = m.following id ports := by
  unfold following
  rw [h.engines.graph]

end Reconfigured

/-- Both machines make the same steps. -/
theorem reconfigured_steps : StepPair Reconfigured Reconfigured where
  kind? h := h.kind?_eq
  read h := h.read
  nothing h := h
  compute h _ _ := h.compute
  acted h := h.acted

end Machine

theorem reconfigured_runs : RunPair (fun e e' => e.Valid ∧ e.Reconfigured e')
    (fun m m' => m.engine.Valid ∧ m.Reconfigured m') where
  own := fun ⟨valid, h⟩ => ⟨valid, h.context, h⟩
  back {m m'} := fun ⟨valid, h⟩ => by
    rw [h.context]
    have named : Engine.Blind fun e => { e with context := m.context } := fun _ => rfl
    exact ⟨valid.of_eq rfl rfl rfl, h.engines.act named⟩
  size h := congrArg Graph.size h.2.engines.graph
  following h := h.2.following_eq
  perform := fun ⟨valid, h⟩ task =>
    have after := Machine.reconfigured_steps.perform valid task (h.openStep task.node)
    ⟨after.1, (Machine.works_perform valid task).1.valid, after.2⟩

end NodeGraph
