import NodeGraph.Config
import NodeGraph.Context
import NodeGraph.Event
import NodeGraph.Graph.Basic
import NodeGraph.Statistics

/-!
# Engines

An engine is a graph that can be run and read. It numbers epochs, remembers the context that the
current epoch serves, and counts and journals what it does. A change to the wiring or to a literal
makes everything stale, and so does the return of the epoch numbers to zero; a change of context
opens a new epoch.
-/

namespace NodeGraph

/-- A graph with what is needed to evaluate it. -/
structure Engine where
  graph : Graph := {}
  epoch : Epoch := {}
  /-- The last epoch number, after which the count starts again; `none` counts without end. -/
  lastEpoch : Option Int := some Epoch.lastNumber
  /-- Identity of the context whose reads are current in this epoch. -/
  serves : Option Nat := none
  /-- Marker of the last invalidation that was asked for once per marker. -/
  marker : Option Nat := none
  /-- The context of runs and reads that are given no other. -/
  context : Context
  statistics : Statistics := {}
  config : Config := {}
  journal : Array Event := #[]

namespace Engine

/-- Updates the statistics, if they are collected. -/
def count (e : Engine) (update : Statistics → Statistics) : Engine :=
  if e.config.collectStatistics then { e with statistics := update e.statistics } else e

/-- Adds an entry to the journal. -/
def log (e : Engine) (event : Event) : Engine := { e with journal := e.journal.push event }

def modifyNode (e : Engine) (id : NodeId) (f : Node → Node) : Engine :=
  { e with graph := e.graph.modifyNode id f }

/-- Writes an output of a node. -/
def write (e : Engine) (addr : OutputAddr) (value : Value) : Engine :=
  e.modifyNode addr.node fun node => node.write addr.port value

/-- Makes everything that was read or computed stale, for whatever context. -/
def invalidate (e : Engine) : Engine :=
  let e := { e with graph := e.graph.invalidate, serves := none }.count Statistics.invalidation
  e.log (.invalidated e.graph.size e.epoch.number)

/-- Makes everything stale unless that was done for this marker last; tells whether it was done
now. -/
def invalidateOnce (e : Engine) (marker : Nat) : Bool × Engine :=
  if e.marker = some marker then (false, e)
  else (true, { e.invalidate with marker := some marker })

/-- Opens a new epoch, which serves no context yet. -/
def openEpoch (e : Engine) : Engine :=
  match e.epoch.advance e.lastEpoch with
  | (.stepped, epoch) => { e with epoch, serves := none }
  | (.wrapped, epoch) =>
    (({ e with epoch }.log .epochWrapped).count Statistics.wrap).invalidate

/-- Prepares reads for a context: where the epoch serves another one, a new epoch is opened. -/
def serve (e : Engine) (context : Nat) : Engine :=
  match e.serves with
  | none => { e with serves := some context }
  | some other =>
    if other = context then e
    else { (e.log (.contextChanged e.epoch.number)).openEpoch with serves := some context }

/-- Adds a node; also gives its position. -/
def addNode (e : Engine) (node : Node) : NodeId × Engine :=
  let (id, graph) := e.graph.add node
  (id, { e with graph })

/-- Links an output to an input and makes everything stale. -/
def connect (e : Engine) (link : Link) : Except Fault Engine := do
  let graph ← e.graph.connect link
  .ok { e with graph }.invalidate

/-- Removes the link into an input and makes everything stale; also gives the output it came
from. -/
def disconnect (e : Engine) (target : InputAddr) : Except Fault (Option OutputAddr × Engine) := do
  let (source, graph) ← e.graph.disconnect target
  .ok (source, { e with graph }.invalidate)

/-- Sets the literal of an input and makes everything stale. -/
def setLiteral (e : Engine) (addr : InputAddr) (value : Value) : Except Fault Engine := do
  let graph ← e.graph.setLiteral addr value
  .ok { e with graph }.invalidate

/-- Value an output holds now, without any evaluation. -/
def outputValue (e : Engine) (addr : OutputAddr) : Except Fault Value := do
  let output ← e.graph.output addr
  .ok output.value

def resetStatistics (e : Engine) : Engine := { e with statistics := {} }

/-- Hands out the journal and starts a new one. -/
def takeJournal (e : Engine) : Array Event × Engine := (e.journal, { e with journal := #[] })

end Engine

end NodeGraph
