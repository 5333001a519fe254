import NodeGraph.Engine.Step
import NodeGraph.Proofs.Engine.Lockstep

/-!
# What a step does

A step of control reads some inputs of its node, in order, and all else it does is determined by
the values it read: the journal entry, the change to the context, the output it writes, and where
control goes next. Here this is told apart from the reading (`Task.work`), and every step is shown
to be of this form (`Machine.perform_eq`); `Task.Acts` lists what it can be.
-/

namespace NodeGraph

/-- What a step does once it has read its inputs. -/
structure Effect where
  step : Step
  event : Option Event := none
  /-- The line that is printed. -/
  line : Option String := none
  /-- The local variable that is set, and its value. -/
  assign : Option (String × Value) := none
  /-- The output of the node that is written, and its value. -/
  write : Option (PortId × Value) := none

/-- The context after the step. -/
def Effect.onContext (effect : Effect) (c : Context) : Context :=
  let c := match effect.line with
    | some line => c.print line
    | none => c
  match effect.assign with
  | some (name, value) => c.setLocal name value
  | none => c

@[simp]
theorem Effect.id_onContext (effect : Effect) (c : Context) : (effect.onContext c).id = c.id := by
  unfold onContext
  cases effect.line <;> cases effect.assign <;> rfl

/-- What is to be done at a node. -/
inductive Work where
  | nothing
  /-- A pure node is computed, and control ends there. -/
  | compute (kind : PureKind)
  /-- Inputs are read, and their values say what is done. -/
  | act (operands : List PortId) (effect : (PortId → Value) → Effect)

namespace ActionKind

def operands : ActionKind → List PortId
  | .start => []
  | .print => [Layout.Print.value]
  | .setLocal => [Layout.SetLocal.key, Layout.SetLocal.value]

def effect (operand : PortId → Value) : ActionKind → Effect
  | .start => { step := .follow [Layout.flowOut] }
  | .print =>
    let line := (operand Layout.Print.value).display
    { step := .follow [Layout.flowOut], event := some (.printed line), line := some line }
  | .setLocal =>
    let name := (operand Layout.SetLocal.key).display
    let value := operand Layout.SetLocal.value
    { step := .follow [Layout.flowOut]
      assign := some (name, value)
      write := some (Layout.SetLocal.stored, value) }

end ActionKind

/-- A pass over the body of a counting loop, or the end of the loop. -/
def CountingFrame.effect (frame : CountingFrame) : Effect :=
  match frame.advance? with
  | some (index, frame) =>
    { step := .again Layout.ForLoop.body (.counting frame)
      write := some (Layout.ForLoop.index, .int index) }
  | none => { step := .follow [Layout.ForLoop.done] }

/-- A pass over the body of a loop while its condition holds, or the end of the loop. -/
def conditionEffect (operand : PortId → Value) : Effect :=
  if (operand Layout.WhileLoop.condition).isTruthy then
    { step := .again Layout.WhileLoop.body .condition }
  else { step := .follow [Layout.WhileLoop.done] }

namespace ControlKind

def operands : ControlKind → List PortId
  | .forLoop =>
    [Layout.ForLoop.start, Layout.ForLoop.finish, Layout.ForLoop.step, Layout.ForLoop.descending]
  | .whileLoop => [Layout.WhileLoop.condition]
  | .doWhile => []
  | .ifElse => [Layout.IfElse.condition]

def effect (id : NodeId) (operand : PortId → Value) : ControlKind → Effect
  | .forLoop =>
    let step := (operand Layout.ForLoop.step).toInt
    match CountingFrame.initial? (operand Layout.ForLoop.start).toInt
        (operand Layout.ForLoop.finish).toInt step (operand Layout.ForLoop.descending).isTruthy with
    | some frame => frame.effect
    | none => { step := .follow [Layout.ForLoop.done], event := some (.bodySkipped id step) }
  | .whileLoop => conditionEffect operand
  | .doWhile => { step := .again Layout.WhileLoop.body .condition }
  | .ifElse =>
    { step := .follow [if (operand Layout.IfElse.condition).isTruthy then Layout.IfElse.whenTrue
        else Layout.IfElse.whenFalse] }

end ControlKind

namespace LoopFrame

def operands : LoopFrame → List PortId
  | .counting _ => []
  | .condition => [Layout.WhileLoop.condition]

def effect (operand : PortId → Value) : LoopFrame → Effect
  | .counting frame => frame.effect
  | .condition => conditionEffect operand

end LoopFrame

/-- What a task has to do at a node of a kind, if there is a node. -/
def Task.work (kind? : Option NodeKind) : Task → Work
  | .resume _ frame => .act frame.operands frame.effect
  | .enter id =>
    match kind? with
    | none => .nothing
    | some (.pure kind) => .compute kind
    | some (.action kind) => .act kind.operands kind.effect
    | some (.control kind) => .act kind.operands (kind.effect id)

/-- A step has no use for any other value than those it reads. -/
theorem Task.effect_congr {kind? : Option NodeKind} {task : Task} {operands : List PortId}
    {effect : (PortId → Value) → Effect} (work : task.work kind? = .act operands effect)
    {operand operand' : PortId → Value} (same : ∀ port ∈ operands, operand port = operand' port) :
    effect operand = effect operand' := by
  have condition (member : Layout.WhileLoop.condition ∈ operands) :
      conditionEffect operand = conditionEffect operand' := by
    rw [conditionEffect, conditionEffect, same _ member]
  cases task with
  | resume id frame =>
    obtain ⟨rfl, rfl⟩ := Work.act.inj work
    cases frame with
    | counting frame => rfl
    | condition => exact condition (by simp [LoopFrame.operands])
  | enter id =>
    cases kind? with
    | none => cases work
    | some kind =>
      cases kind with
      | pure kind => cases work
      | action kind =>
        obtain ⟨rfl, rfl⟩ := Work.act.inj work
        cases kind with
        | start => rfl
        | print =>
          have line := same Layout.Print.value (by simp [ActionKind.operands])
          simp only [ActionKind.effect, line]
        | setLocal =>
          have key := same Layout.SetLocal.key (by simp [ActionKind.operands])
          have value := same Layout.SetLocal.value (by simp [ActionKind.operands])
          simp only [ActionKind.effect, key, value]
      | control kind =>
        obtain ⟨rfl, rfl⟩ := Work.act.inj work
        cases kind with
        | forLoop =>
          have start := same Layout.ForLoop.start (by simp [ControlKind.operands])
          have finish := same Layout.ForLoop.finish (by simp [ControlKind.operands])
          have step := same Layout.ForLoop.step (by simp [ControlKind.operands])
          have descending := same Layout.ForLoop.descending (by simp [ControlKind.operands])
          simp only [ControlKind.effect, start, finish, step, descending]
        | whileLoop => exact condition (by simp [ControlKind.operands])
        | doWhile => rfl
        | ifElse =>
          have condition := same Layout.IfElse.condition (by simp [ControlKind.operands])
          simp only [ControlKind.effect, condition]

/-- A pass over the body of a counting loop publishes its index; else the loop is done. -/
theorem CountingFrame.effect_cases (frame : CountingFrame) :
    (∃ index next, frame.advance? = some (index, next) ∧ frame.effect =
      { step := .again Layout.ForLoop.body (.counting next)
        write := some (Layout.ForLoop.index, .int index) }) ∨
      frame.effect = { step := .follow [Layout.ForLoop.done] } := by
  unfold effect
  cases advanced : frame.advance? with
  | none => exact .inr rfl
  | some passed => exact .inl ⟨passed.1, passed.2, rfl, rfl⟩

/-- A loop that tests its condition goes to its body, or else it is done. -/
theorem conditionEffect_cases (operand : PortId → Value) :
    conditionEffect operand = { step := .again Layout.WhileLoop.body .condition } ∨
      conditionEffect operand = { step := .follow [Layout.WhileLoop.done] } := by
  unfold conditionEffect
  split
  · exact .inl rfl
  · exact .inr rfl

/-- What is done once the inputs are read, case by case: for the kind of node that is entered, and
for the frame with which a loop is resumed. -/
inductive Task.Acts (kind? : Option NodeKind) (operand : PortId → Value) :
    Task → Effect → Prop where
  | action {id : NodeId} {kind : ActionKind} : kind? = some (.action kind) →
    Acts kind? operand (.enter id) (kind.effect operand)
  | first {id : NodeId} {frame : CountingFrame} : kind? = some (.control .forLoop) →
    CountingFrame.initial? (operand Layout.ForLoop.start).toInt
      (operand Layout.ForLoop.finish).toInt (operand Layout.ForLoop.step).toInt
      (operand Layout.ForLoop.descending).isTruthy = some frame →
    Acts kind? operand (.enter id) frame.effect
  | skipped {id : NodeId} : kind? = some (.control .forLoop) →
    Acts kind? operand (.enter id)
      { step := .follow [Layout.ForLoop.done]
        event := some (.bodySkipped id (operand Layout.ForLoop.step).toInt) }
  | tested {id : NodeId} : kind? = some (.control .whileLoop) →
    Acts kind? operand (.enter id) (conditionEffect operand)
  | untested {id : NodeId} : kind? = some (.control .doWhile) →
    Acts kind? operand (.enter id) { step := .again Layout.WhileLoop.body .condition }
  | chosen {id : NodeId} : kind? = some (.control .ifElse) →
    Acts kind? operand (.enter id)
      { step := .follow [if (operand Layout.IfElse.condition).isTruthy then Layout.IfElse.whenTrue
          else Layout.IfElse.whenFalse] }
  | counted {id : NodeId} {frame : CountingFrame} :
    Acts kind? operand (.resume id (.counting frame)) frame.effect
  | retested {id : NodeId} :
    Acts kind? operand (.resume id .condition) (conditionEffect operand)

/-- These are all the cases. -/
theorem Task.acts_of_work {kind? : Option NodeKind} {task : Task} {operands : List PortId}
    {effect : (PortId → Value) → Effect} (work : task.work kind? = .act operands effect)
    (operand : PortId → Value) : task.Acts kind? operand (effect operand) := by
  cases task with
  | resume id frame =>
    obtain ⟨rfl, rfl⟩ := Work.act.inj work
    cases frame with
    | counting frame => exact .counted
    | condition => exact .retested
  | enter id =>
    cases kind? with
    | none => cases work
    | some kind =>
      cases kind with
      | pure kind => cases work
      | action kind =>
        obtain ⟨rfl, rfl⟩ := Work.act.inj work
        exact .action rfl
      | control kind =>
        obtain ⟨rfl, rfl⟩ := Work.act.inj work
        cases kind with
        | forLoop =>
          dsimp only [ControlKind.effect]
          split
          next frame entered => exact .first rfl entered
          next => exact .skipped rfl
        | whileLoop => exact .tested rfl
        | doWhile => exact .untested rfl
        | ifElse => exact .chosen rfl

namespace Machine

/-- Reads inputs of the node in order. -/
def readAll (m : Machine) (id : NodeId) (ports : List PortId) : (PortId → Value) × Machine :=
  NodeGraph.readAll (fun addr m => Machine.read m addr) id ports m

/-- Makes the changes of a step. -/
def apply (m : Machine) (id : NodeId) (effect : Effect) : Machine :=
  let m := match effect.event with
    | some event => m.log event
    | none => m
  let m := { m with context := effect.onContext m.context }
  match effect.write with
  | some (port, value) => m.write ⟨id, port⟩ value
  | none => m

/-- Does what is to be done at a node. -/
def work (m : Machine) (id : NodeId) : Work → Step × Machine
  | .nothing => (.follow [], m)
  | .compute kind =>
    (.follow [],
      { m with engine := m.engine.compute m.context.locals m.engine.graph.size id kind })
  | .act operands effect =>
    let (operand, m) := m.readAll id operands
    ((effect operand).step, (m.apply id (effect operand)).countStep id)

theorem context_apply (m : Machine) (id : NodeId) (effect : Effect) :
    (m.apply id effect).context = effect.onContext m.context := by
  unfold apply
  cases effect.event <;> cases effect.write <;> rfl

theorem graph_apply (m : Machine) (id : NodeId) (effect : Effect) :
    (m.apply id effect).engine.graph = match effect.write with
      | some (port, value) =>
        m.engine.graph.modifyOutput ⟨id, port⟩ fun output => { output with value }
      | none => m.engine.graph := by
  unfold apply
  cases effect.event <;> cases effect.write <;> rfl

@[simp]
theorem epoch_apply (m : Machine) (id : NodeId) (effect : Effect) :
    (m.apply id effect).engine.epoch = m.engine.epoch := by
  unfold apply
  cases effect.event <;> cases effect.write <;> rfl

theorem graph_acted (m : Machine) (id : NodeId) (effect : Effect) :
    ((m.apply id effect).countStep id).engine.graph =
      (m.apply id effect).engine.graph.modifyNode id Node.countEvaluation := by
  rw [countStep, Engine.graph_count]
  rfl

/-- What a step does after its reads shows at no other node. -/
theorem node?_acted_of_ne (m : Machine) {id other : NodeId} (apart : id ≠ other)
    (effect : Effect) :
    ((m.apply id effect).countStep id).engine.graph.node? other = m.engine.graph.node? other := by
  rw [graph_acted, Graph.node?_modifyNode_of_ne apart, graph_apply]
  split
  · rw [Graph.modifyOutput, Graph.node?_modifyNode_of_ne apart]
  · rfl

theorem epoch_acted (m : Machine) (id : NodeId) (effect : Effect) :
    ((m.apply id effect).countStep id).engine.epoch = m.engine.epoch := by
  rw [countStep, Engine.epoch_count]
  exact epoch_apply m id effect

theorem countingPass_eq (m : Machine) (id : NodeId) (frame : CountingFrame) :
    m.countingPass id frame = (frame.effect.step, m.apply id frame.effect) := by
  unfold countingPass CountingFrame.effect
  cases frame.advance? with
  | none => rfl
  | some next => rfl

theorem conditionPass_eq (m : Machine) (id : NodeId) :
    m.conditionPass id =
      let (operand, m) := m.readAll id [Layout.WhileLoop.condition]
      ((conditionEffect operand).step, m.apply id (conditionEffect operand)) := by
  show (if (m.read ⟨id, Layout.WhileLoop.condition⟩).1.isTruthy then _ else _) =
    (Effect.step (if (m.read ⟨id, Layout.WhileLoop.condition⟩).1.isTruthy then _ else _),
      apply _ id (if (m.read ⟨id, Layout.WhileLoop.condition⟩).1.isTruthy then _ else _))
  split <;> rfl

theorem act_eq (m : Machine) (id : NodeId) (kind : ActionKind) :
    m.act id kind =
      let (operand, m) := m.readAll id kind.operands
      m.apply id (kind.effect operand) := by
  cases kind <;> rfl

theorem choose_eq (m : Machine) (id : NodeId) (kind : ControlKind) :
    m.choose id kind =
      let (operand, m) := m.readAll id kind.operands
      ((kind.effect id operand).step, m.apply id (kind.effect id operand)) := by
  cases kind with
  | forLoop =>
    unfold choose enterFor
    generalize first : m.read ⟨id, Layout.ForLoop.start⟩ = read
    obtain ⟨start, m₁⟩ := read
    dsimp only
    generalize second : m₁.read ⟨id, Layout.ForLoop.finish⟩ = read
    obtain ⟨finish, m₂⟩ := read
    dsimp only
    generalize third : m₂.read ⟨id, Layout.ForLoop.step⟩ = read
    obtain ⟨step, m₃⟩ := read
    dsimp only
    generalize fourth : m₃.read ⟨id, Layout.ForLoop.descending⟩ = read
    obtain ⟨descending, m₄⟩ := read
    obtain ⟨operand, reads, starts, finishes, steps, descends⟩ : ∃ operand,
        m.readAll id ControlKind.forLoop.operands = (operand, m₄) ∧
          operand Layout.ForLoop.start = start ∧ operand Layout.ForLoop.finish = finish ∧
          operand Layout.ForLoop.step = step ∧ operand Layout.ForLoop.descending = descending := by
      refine ⟨(m.readAll id ControlKind.forLoop.operands).1, ?_, ?_, ?_, ?_, ?_⟩ <;>
        simp [readAll, NodeGraph.readAll, ControlKind.operands, first, second, third, fourth,
          Layout.ForLoop.start, Layout.ForLoop.finish, Layout.ForLoop.step,
          Layout.ForLoop.descending]
    rw [reads]
    dsimp only [ControlKind.effect]
    rw [starts, finishes, steps, descends]
    cases CountingFrame.initial? start.toInt finish.toInt step.toInt descending.isTruthy with
    | none => rfl
    | some frame => exact countingPass_eq m₄ id frame
  | whileLoop => exact conditionPass_eq m id
  | doWhile => rfl
  | ifElse => rfl

theorem nextPass_eq (m : Machine) (id : NodeId) (frame : LoopFrame) :
    m.nextPass id frame =
      let (operand, m) := m.readAll id frame.operands
      ((frame.effect operand).step, m.apply id (frame.effect operand)) := by
  cases frame with
  | counting frame => exact countingPass_eq m id frame
  | condition => exact conditionPass_eq m id

/-- What kind of node is at a position. -/
def kind? (m : Machine) (id : NodeId) : Option NodeKind := (m.engine.graph.node? id).map (·.kind)

/-- Every step of a run is of this form. -/
theorem perform_eq (m : Machine) (task : Task) :
    m.perform task = (m.openStep task.node).work task.node
      (task.work ((m.openStep task.node).kind? task.node)) := by
  unfold perform
  generalize m.openStep task.node = m
  cases task with
  | resume id frame =>
    rw [step, nextPass_eq]
    rfl
  | enter id =>
    show m.enter id = m.work id (Task.work (m.kind? id) (.enter id))
    unfold enter kind?
    cases m.engine.graph.node? id with
    | none => rfl
    | some node =>
      dsimp only [Option.map_some]
      cases node.kind with
      | pure kind => rfl
      | action kind =>
        dsimp only
        rw [act_eq]
        cases kind <;> rfl
      | control kind =>
        dsimp only
        rw [choose_eq]
        rfl

end Machine

end NodeGraph
