import NodeGraph.Proofs.Engine.Checked
import NodeGraph.Proofs.Run.Ending

/-!
# Steps that check what they reach

A step falls back on something where its node or a port of it is missing, and where a loop is
resumed with the frame of another kind of loop. Told with checks in place of these fallbacks
(`Machine.perform?`), a step of a task that fits its node gives what the step does
(`Machine.perform?_eq`). In a run every task does, its node exists, and the distance between two
indices of a counting loop is positive (`Run.Reaches.placed`).
-/

namespace NodeGraph

namespace Task

/-- A counting loop is only resumed to progress. -/
def Progresses (task : Task) : Prop :=
  ∀ id frame, task = .resume id (.counting frame) → frame.Progresses

instance (kind? : Option NodeKind) (task : Task) : Decidable (task.Fits kind?) := by
  unfold Fits
  split <;> infer_instance

theorem progresses_enter (id : NodeId) : (Task.enter id).Progresses := by
  rintro _ _ ⟨⟩

/-- A loop leaves a frame with which it progresses. -/
theorem Acts.progresses_of_again {kind? : Option NodeKind} {task : Task}
    {operand : PortId → Value} {effect : Effect} (acts : task.Acts kind? operand effect)
    (before : task.Progresses) {body : PortId} {frame : LoopFrame}
    (again : effect.step = .again body frame) (id : NodeId) :
    (Task.resume id frame).Progresses := by
  have pass {f : CountingFrame} (progresses : f.Progresses)
      (again : f.effect.step = .again body frame) : (Task.resume id frame).Progresses := by
    obtain ⟨_, next, advanced, rfl⟩ := CountingFrame.again_effect again
    rintro _ _ ⟨⟩
    exact (CountingFrame.remaining_lt_of_advance? progresses advanced).1
  have condition (again : (conditionEffect operand).step = .again body frame) :
      (Task.resume id frame).Progresses := by
    obtain rfl := again_conditionEffect again
    rintro _ _ ⟨⟩
  cases acts with
  | @action _ kind _ => cases kind <;> cases again
  | first _ entered => exact pass (CountingFrame.progresses_of_initial? entered) again
  | skipped _ => cases again
  | tested _ => exact condition again
  | untested _ =>
    obtain ⟨_, rfl⟩ := Step.again.inj again
    rintro _ _ ⟨⟩
  | chosen _ => cases again
  | counted => exact pass (before _ _ rfl) again
  | retested => exact condition again

/-- A step reads inputs that its node has. -/
theorem lt_of_mem_operands {kind : NodeKind} {task : Task} {operands : List PortId}
    {effect : (PortId → Value) → Effect} (fits : task.Fits (some kind))
    (work : task.work (some kind) = .act operands effect) :
    ∀ port ∈ operands, port < kind.metadata.inputs.length := by
  cases task with
  | enter id =>
    cases kind with
    | pure kind => cases work
    | action kind =>
      obtain ⟨rfl, _⟩ := Work.act.inj work
      cases kind <;> decide
    | control kind =>
      obtain ⟨rfl, _⟩ := Work.act.inj work
      cases kind <;> decide
  | resume id frame =>
    obtain ⟨rfl, _⟩ := Work.act.inj work
    cases frame with
    | counting frame => exact fun _ member => absurd member List.not_mem_nil
    | condition =>
      rcases fits with fits | fits
      · obtain rfl := Option.some.inj fits
        decide
      · obtain rfl := Option.some.inj fits
        decide

end Task

/-- The outputs of its node that a step writes or leaves on. -/
def Effect.outputs (effect : Effect) : List PortId :=
  effect.step.ports ++ effect.write.toList.map Prod.fst

/-- A step writes and leaves on outputs that its node has. -/
theorem Task.Acts.lt_of_mem_outputs {kind : NodeKind} {task : Task} {operand : PortId → Value}
    {effect : Effect} (acts : task.Acts (some kind) operand effect)
    (fits : task.Fits (some kind)) :
    ∀ port ∈ effect.outputs, port < kind.metadata.outputs.length := by
  have counting (frame : CountingFrame) : ∀ port ∈ frame.effect.outputs,
      port < (NodeKind.control .forLoop).metadata.outputs.length := by
    rcases frame.effect_cases with ⟨_, _, _, equal⟩ | equal
    · rw [equal]
      show ∀ port ∈ [Layout.ForLoop.body, Layout.ForLoop.index], _
      decide
    · rw [equal]
      decide
  have condition : ∀ port ∈ (conditionEffect operand).outputs,
      port < (NodeKind.control .whileLoop).metadata.outputs.length := by
    rcases conditionEffect_cases operand with equal | equal <;> rw [equal] <;> decide
  cases acts with
  | @action _ action found =>
    obtain rfl := Option.some.inj found
    cases action with
    | start | print =>
      show ∀ port ∈ [Layout.flowOut], _
      decide
    | setLocal =>
      show ∀ port ∈ [Layout.flowOut, Layout.SetLocal.stored], _
      decide
  | first found _ =>
    obtain rfl := Option.some.inj found
    exact counting _
  | skipped found =>
    obtain rfl := Option.some.inj found
    show ∀ port ∈ [Layout.ForLoop.done], _
    decide
  | tested found =>
    obtain rfl := Option.some.inj found
    exact condition
  | untested found =>
    obtain rfl := Option.some.inj found
    decide
  | chosen found =>
    obtain rfl := Option.some.inj found
    split <;> decide
  | counted =>
    obtain rfl := Option.some.inj fits
    exact counting _
  | retested =>
    -- Both loops that test a condition have the same outputs.
    rcases fits with fits | fits
    · obtain rfl := Option.some.inj fits
      exact condition
    · obtain rfl := Option.some.inj fits
      exact condition

namespace Machine

variable {m m' : Machine} {task : Task}

/-- Does what is to be done at a node; the inputs and outputs that this needs must exist. -/
def work? (m : Machine) (id : NodeId) : Work → Option (Step × Machine)
  | .nothing => none
  | .compute kind =>
    (m.engine.compute? m.context.locals m.engine.graph.size id kind).map fun engine =>
      (.follow [], { m with engine })
  | .act operands effect =>
    let read := Engine.read? m.context.locals m.engine.graph.size
    (Engine.readAll? read id operands m.engine).bind fun (operand, engine) =>
      let effect := effect operand
      if ∀ port ∈ effect.outputs, (engine.graph.output? ⟨id, port⟩).isSome then
        some (effect.step, (Machine.apply { m with engine } id effect).countStep id)
      else none

/-- Opens an epoch and makes the step of a task in it. The node must exist, and a loop must be
resumed with a frame of its kind. -/
def perform? (m : Machine) (task : Task) : Option (Step × Machine) :=
  ((m.openStep task.node).kind? task.node).bind fun kind =>
    if task.Fits (some kind) then (m.openStep task.node).work? task.node (task.work (some kind))
    else none

/-- A step of a task that is in place takes no fallback. -/
theorem perform?_eq (valid : m.engine.Valid) (there : (m.kind? task.node).isSome)
    (fits : task.Fits (m.kind? task.node)) : m.perform? task = some (m.perform task) := by
  obtain ⟨kind, found⟩ := Option.isSome_iff_exists.mp there
  have performs := performs_perform valid task
  have ready := (ready_openStep valid task.node).1
  have found' := (kind?_openStep m task.node task.node).trans found
  generalize m.perform task = performed at performs
  obtain ⟨step, m'⟩ := performed
  rw [found] at fits
  rw [perform?, found', Option.bind_some, if_pos fits]
  have wf := ready.valid.wellFormed
  have enough : m.engine.graph.pureNodes.card ≤ (m.openStep task.node).engine.graph.size := by
    rw [Graph.size_eq_of_frame_eq (erase_openStep _ m task.node)]
    exact Graph.card_pureNodes_le _
  generalize m.openStep task.node = opened at performs found' wf enough ⊢
  cases performs with
  | nothing work =>
    rw [found'] at work
    cases task with
    | enter id => cases kind <;> cases work
    | resume id frame => cases work
  | compute work computes =>
    obtain ⟨node, place, isPure⟩ := Option.map_eq_some_iff.mp (pure_of_work work).1
    have pure := Graph.pureKind?_eq_some place isPure
    rw [found'] at work
    rw [work, work?, computes.checked wf rfl pure enough, Option.map_some]
  | @act operands effect operand e' work reads =>
    rw [found'] at work
    have read := reads.checked wf rfl (fun port member => (wf.isSome_input? found' port).mpr
      (Task.lt_of_mem_operands fits work port member)) enough
    have acts := Task.acts_of_work work operand
    have written : ∀ port ∈ (effect operand).outputs,
        (e'.graph.output? ⟨task.node, port⟩).isSome := by
      intro port member
      rw [Graph.isSome_output?_eq_of_frame_eq (reads.respects Engine.pulled_relation).frame]
      exact (wf.isSome_output? found' port).mpr (acts.lt_of_mem_outputs fits port member)
    rw [work, work?, read, Option.bind_some]
    exact if_pos written

end Machine

namespace Run

/-- Everything that is still to be done in a run is to be done at a node that exists, and if it is a
pass of a counting loop, then to progress. -/
theorem Reaches.placed {m : Machine} {start : NodeId} {r : Run} {links : List Link}
    (valid : m.engine.Valid) (records : m.engine.graph.Records links)
    (there : (m.kind? start).isSome) (reaches : (Run.start m start).Reaches r) :
    ∀ task ∈ r.pending, (r.machine.kind? task.node).isSome ∧ task.Progresses := by
  have steps {m₁ m₂ : Machine} {task : Task} {step : Step} (reached : m.Reaches m₁)
      (placed : (m.kind? task.node).isSome ∧ task.Progresses)
      (made : m₁.perform task = (step, m₂)) :
      (∀ id ∈ m₂.following task.node step.ports, (m.kind? id).isSome) ∧
        ∀ body frame, step = .again body frame → (Task.resume task.node frame).Progresses := by
    obtain ⟨valid₁, works⟩ := reached.works valid
    have works' := (Machine.works_perform valid₁ task).2
    rw [made] at works'
    refine ⟨fun id follows => ?_, fun body frame again => ?_⟩
    · obtain ⟨port, _, goes⟩ := List.mem_flatMap.mp follows
      rw [Graph.successors_eq_of_frame_eq (works.trans works').frame] at goes
      rw [Machine.kind?, Option.isSome_map]
      exact records.isSome_successor goes
    · subst again
      obtain ⟨operand, effect, acts, again⟩ := Machine.acts_of_again valid₁ made
      exact acts.progresses_of_again placed.2 again task.node
  obtain ⟨reached, placed⟩ := reaches.forall_pending
    (P := fun task => (m.kind? task.node).isSome ∧ task.Progresses)
    ⟨there, Task.progresses_enter start⟩ fun reached placed made =>
      ⟨fun id follows => ⟨(steps reached placed made).1 id follows, Task.progresses_enter id⟩,
        fun body frame again => ⟨placed.1, (steps reached placed made).2 body frame again⟩⟩
  intro task member
  rw [Machine.kind?_eq_of_frame_eq (reached.works valid).2.frame]
  exact placed task member

end Run

end NodeGraph
