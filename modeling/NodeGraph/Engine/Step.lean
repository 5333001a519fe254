import NodeGraph.Engine.Loop
import NodeGraph.Engine.Pull

/-!
# Control steps

When control reaches a node, the node makes one step: it reads inputs, acts, and says where control
goes next. Each step has an epoch of its own, so it never sees what an earlier step has read.
-/

namespace NodeGraph

/-- What a loop node keeps while its body runs. -/
inductive LoopFrame where
  | counting (frame : CountingFrame)
  /-- The condition is read again before the next pass, so nothing is kept. -/
  | condition
deriving DecidableEq, Repr

/-- Where control goes after a step. -/
inductive Step where
  /-- To the nodes linked to these flow outputs, in order. -/
  | follow (ports : List PortId)
  /-- To the nodes linked to the body, and then back to this node with the frame. -/
  | again (body : PortId) (frame : LoopFrame)
deriving DecidableEq, Repr

/-- A step that is still to be made. -/
inductive Task where
  | enter (node : NodeId)
  | resume (node : NodeId) (frame : LoopFrame)
deriving DecidableEq, Repr

def Task.node : Task → NodeId
  | enter id | resume id _ => id

/-- An engine and the context it runs for. -/
structure Machine where
  engine : Engine
  context : Context

namespace Machine

/-- Reads an input of a node. -/
def read (m : Machine) (addr : InputAddr) : Value × Machine :=
  let (value, engine) := m.engine.read m.context.locals addr
  (value, { m with engine })

/-- Writes an output of a node. -/
def write (m : Machine) (addr : OutputAddr) (value : Value) : Machine :=
  { m with engine := m.engine.write addr value }

def log (m : Machine) (event : Event) : Machine := { m with engine := m.engine.log event }

/-- Counts a step that a node has made. -/
def countStep (m : Machine) (id : NodeId) : Machine :=
  { m with
    engine := (m.engine.modifyNode id Node.countEvaluation).count Statistics.evaluation }

/-- The action of an action node. -/
def act (m : Machine) (id : NodeId) : ActionKind → Machine
  | .start => m
  | .print =>
    let (value, m) := m.read ⟨id, Layout.Print.value⟩
    let m := m.log (.printed value.display)
    { m with context := m.context.print value.display }
  | .setLocal =>
    let (key, m) := m.read ⟨id, Layout.SetLocal.key⟩
    let (value, m) := m.read ⟨id, Layout.SetLocal.value⟩
    let m := { m with context := m.context.setLocal key.display value }
    m.write ⟨id, Layout.SetLocal.stored⟩ value

/-- Publishes the index of the next pass and goes to the body, or goes on when there is none. -/
def countingPass (m : Machine) (id : NodeId) (frame : CountingFrame) : Step × Machine :=
  match frame.advance? with
  | some (index, frame) =>
    (.again Layout.ForLoop.body (.counting frame),
      m.write ⟨id, Layout.ForLoop.index⟩ (.int index))
  | none => (.follow [Layout.ForLoop.done], m)

/-- Reads the bounds of a counting loop and makes its first pass. -/
def enterFor (m : Machine) (id : NodeId) : Step × Machine :=
  let (start, m) := m.read ⟨id, Layout.ForLoop.start⟩
  let (finish, m) := m.read ⟨id, Layout.ForLoop.finish⟩
  let (step, m) := m.read ⟨id, Layout.ForLoop.step⟩
  let (descending, m) := m.read ⟨id, Layout.ForLoop.descending⟩
  match CountingFrame.initial? start.toInt finish.toInt step.toInt descending.isTruthy with
  | some frame => m.countingPass id frame
  | none => (.follow [Layout.ForLoop.done], m.log (.bodySkipped id step.toInt))

/-- Reads the condition of a loop and goes to the body while it holds. -/
def conditionPass (m : Machine) (id : NodeId) : Step × Machine :=
  let (condition, m) := m.read ⟨id, Layout.WhileLoop.condition⟩
  if condition.isTruthy then (.again Layout.WhileLoop.body .condition, m)
  else (.follow [Layout.WhileLoop.done], m)

/-- The choice of a control node that control reaches anew. -/
def choose (m : Machine) (id : NodeId) : ControlKind → Step × Machine
  | .forLoop => m.enterFor id
  | .whileLoop => m.conditionPass id
  | .doWhile => (.again Layout.WhileLoop.body .condition, m)
  | .ifElse =>
    let (condition, m) := m.read ⟨id, Layout.IfElse.condition⟩
    (.follow [if condition.isTruthy then Layout.IfElse.whenTrue else Layout.IfElse.whenFalse], m)

/-- The next pass of a loop whose body has ended. -/
def nextPass (m : Machine) (id : NodeId) : LoopFrame → Step × Machine
  | .counting frame => m.countingPass id frame
  | .condition => m.conditionPass id

/-- The step of a node that control reaches anew. A pure node is computed, and control ends there. -/
def enter (m : Machine) (id : NodeId) : Step × Machine :=
  match m.engine.graph.node? id with
  | none => (.follow [], m)
  | some node =>
    match node.kind with
    | .pure kind =>
      let depth := m.engine.graph.size
      (.follow [], { m with engine := m.engine.compute m.context.locals depth id kind })
    | .action kind => (.follow [Layout.flowOut], (m.act id kind).countStep id)
    | .control kind =>
      let (step, m) := m.choose id kind
      (step, m.countStep id)

/-- Makes the step of a task. -/
def step (m : Machine) : Task → Step × Machine
  | .enter id => m.enter id
  | .resume id frame =>
    let (step, m) := m.nextPass id frame
    (step, m.countStep id)

/-- Opens the epoch of a step, for the context of the machine. -/
def openStep (m : Machine) (id : NodeId) : Machine :=
  let engine := m.engine.openEpoch.serve m.context.id
  let engine :=
    match engine.graph.node? id with
    | some node =>
      if engine.config.traceExecution then
        engine.log (.executing id node.title engine.epoch.number)
      else engine
    | none => engine
  { m with engine }

/-- Opens an epoch and makes the step of a task in it. -/
def perform (m : Machine) (task : Task) : Step × Machine := (m.openStep task.node).step task

/-- Nodes linked to the flow outputs of a node, port by port and oldest link first. -/
def following (m : Machine) (id : NodeId) (ports : List PortId) : List NodeId :=
  ports.flatMap fun port => m.engine.graph.successors ⟨id, port⟩

end Machine

end NodeGraph
