import NodeGraph.Engine.Basic
import NodeGraph.Node.Layout

/-!
# Pulling values

A read of a connected input brings the node it reads from up to date and takes the value that the
node's output then holds. Pure nodes are computed for it, at most once in an epoch; other nodes
keep what their last control step wrote. The value is cached in the input, stamped with the epoch.

A pull may follow a cycle of pure nodes. A node being computed is marked, and a pull that comes
back to it takes the output it held before. So a chain of nested computations never visits a node
twice, and its depth is bounded by the number of nodes.
-/

namespace NodeGraph

namespace Engine

/-- Keeps a value in the cache of the input that it was read for. -/
def store (e : Engine) (addr : InputAddr) (value : Value) : Engine :=
  let stamp := e.epoch.number
  e.modifyNode addr.node fun node =>
    node.modifyInput addr.port fun input => input.store value stamp

/-- Reads an input, given how a node is brought up to date. -/
def readUsing (refresh : NodeId → Engine → Engine) (addr : InputAddr) (e : Engine) :
    Value × Engine :=
  match e.graph.input? addr with
  | none => (.empty, e)
  | some input =>
    match input.source with
    | none => (input.literal, e)
    | some source =>
      if e.epoch.isCurrent input.stamp then (input.cached, e.count Statistics.hit)
      else
        let e := refresh source.node (e.count Statistics.miss)
        let value := e.graph.outputValue source
        (value, e.store addr value)

/-- Brings a node up to date, given how a pure node is computed. Nodes that are not pure, and those
already computed in this epoch, stay as they are; so does a node still being computed, which is
reported as a cycle. -/
def refreshUsing (compute : NodeId → PureKind → Engine → Engine) (id : NodeId) (e : Engine) :
    Engine :=
  match e.graph.node? id with
  | none => e
  | some node =>
    match node.kind with
    | .pure kind =>
      if e.epoch.isCurrent node.computedAt then e
      else
        match node.activity with
        | .computing => (e.log (.pullCycle id node.title)).count Statistics.cycle
        | .idle => compute id kind e
    | _ => e

/-- The value a pure node computes from its operands, which are read in order. -/
def operate (read : InputAddr → Engine → Value × Engine) (locals : Locals) (id : NodeId)
    (kind : PureKind) (e : Engine) : Value × Engine :=
  match kind with
  | .binary op =>
    let (a, e) := read ⟨id, Layout.Binary.left⟩ e
    let (b, e) := read ⟨id, Layout.Binary.right⟩ e
    (op.apply a b, e)
  | .getLocal =>
    let (key, e) := read ⟨id, Layout.GetLocal.key⟩ e
    (locals.get key.display, e)

/-- Marks a node as being computed. -/
def beginComputing (e : Engine) (id : NodeId) : Engine :=
  e.modifyNode id fun node => { node with activity := .computing }

/-- Ends the computation of a pure node: its output holds the value, and the node is current. -/
def finishComputing (e : Engine) (id : NodeId) (value : Value) : Engine :=
  let stamp := e.epoch.number
  (e.modifyNode id fun node =>
    { node.write Layout.result value with
      activity := .idle, computedAt := stamp, evaluations := node.evaluations + 1 }).count
    Statistics.evaluation

/-- Computes a pure node and, before it, whatever its inputs need. Computations nest at most
`depth` deep; as many as there are nodes is always enough. -/
def compute (locals : Locals) : (depth : Nat) → NodeId → PureKind → Engine → Engine
  | 0, _, _, e => e
  | depth + 1, id, kind, e =>
    let read := readUsing (refreshUsing (compute locals depth))
    let (value, e) := operate read locals id kind (e.beginComputing id)
    e.finishComputing id value

/-- Brings a node up to date for a context with these local variables. -/
def refresh (locals : Locals) (id : NodeId) (e : Engine) : Engine :=
  refreshUsing (compute locals e.graph.size) id e

/-- Reads an input for a context with these local variables. -/
def read (locals : Locals) (addr : InputAddr) (e : Engine) : Value × Engine :=
  readUsing (refresh locals) addr e

/-- Value of an input for a context: its literal when it has no link, the cached value when that is
current, and otherwise what is pulled from the source. A read changes no context, so for the engine's
own one it is given a copy, and the engine has it in its place throughout, refused or not. -/
def getValue (e : Engine) (addr : InputAddr) (context : Context) : Except Fault Value × Engine :=
  match e.graph.input addr with
  | .error fault => (.error fault, e)
  | .ok _ =>
    let (value, e) := (e.serve context.id).read context.locals addr
    (.ok value, e)

/-- Value of an output for a context, after its node was brought up to date. -/
def pullOutput (e : Engine) (addr : OutputAddr) (context : Context) :
    Except Fault Value × Engine :=
  match e.outputValue addr with
  | .error fault => (.error fault, e)
  | .ok _ =>
    let e := (e.serve context.id).refresh context.locals addr.node
    (e.outputValue addr, e)

/-- Carries an operation over a list and collects its values, up to the first fault. -/
def collect {α : Type} (f : α → Engine → Except Fault Value × Engine) :
    List α → Engine → Except Fault (List Value) × Engine
  | [], e => (.ok [], e)
  | a :: rest, e =>
    match f a e with
    | (.error fault, e) => (.error fault, e)
    | (.ok value, e) =>
      match collect f rest e with
      | (.error fault, e) => (.error fault, e)
      | (.ok values, e) => (.ok (value :: values), e)

/-- Opens one epoch and reads inputs in it, in order and for the engine's own context. -/
def getValues (e : Engine) (addrs : List InputAddr) : Except Fault (List Value) × Engine :=
  collect (fun addr e => e.getValue addr e.context) addrs e.openEpoch

/-- Opens one epoch and brings outputs up to date in it, in order and for the engine's own context.
Each of them is given a copy of that context, which is the same for all and stays in its place at
the first fault too. -/
def pullOutputs (e : Engine) (addrs : List OutputAddr) : Except Fault (List Value) × Engine :=
  collect (fun addr e => e.pullOutput addr e.context) addrs e.openEpoch

end Engine

end NodeGraph
