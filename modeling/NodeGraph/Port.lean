import NodeGraph.Epoch
import NodeGraph.Value.Basic

/-!
# Ports

A node has numbered inputs and outputs. An input reads from at most one output, or has a literal of
its own; an output knows the inputs that read from it, oldest link first.
-/

namespace NodeGraph

/-- What a port carries. -/
inductive PortType where
  /-- Control flow, which carries no value. -/
  | flow
  | bool
  | int
  | float
  | text
  /-- A value of any kind. -/
  | any
deriving DecidableEq, Repr

namespace PortType

def name : PortType → String
  | flow => "Flow"
  | bool => "Bool"
  | int => "Int"
  | float => "Float"
  | text => "Text"
  | any => "Any"

def all : List PortType := [flow, bool, int, float, text, any]

def isFlow (t : PortType) : Bool := t == flow

/-- Flow ports link with flow ports only. Value ports link freely: values are coerced by the node
that reads them. -/
def linksWith (t u : PortType) : Bool := t.isFlow == u.isFlow

end PortType

/-- Position of a node in its graph. -/
abbrev NodeId := Nat

/-- Position of a port among the inputs or the outputs of its node. -/
abbrev PortId := Nat

/-- Address of an input. -/
structure InputAddr where
  node : NodeId
  port : PortId
deriving DecidableEq, Repr

/-- Address of an output. -/
structure OutputAddr where
  node : NodeId
  port : PortId
deriving DecidableEq, Repr

/-- A slot that a node reads. -/
structure Input where
  name : String
  type : PortType
  source : Option OutputAddr := none
  /-- Value of the last read through the link. -/
  cached : Value := .empty
  /-- Epoch of that read, or `Epoch.stale`. -/
  stamp : Int := Epoch.stale
  /-- Literal that is read while there is no link. -/
  literal : Value

namespace Input

/-- Makes the cached value stale. -/
def invalidate (i : Input) : Input := { i with stamp := Epoch.stale }

/-- Removes the link; what was cached through it is stale. -/
def unlink (i : Input) : Input := { i with source := none, stamp := Epoch.stale }

/-- Keeps a value read in the epoch `stamp`. -/
def store (i : Input) (value : Value) (stamp : Int) : Input := { i with cached := value, stamp }

end Input

/-- A slot that a node writes. -/
structure Output where
  name : String
  type : PortType
  /-- What the node wrote last. -/
  value : Value := .empty
  /-- Inputs that read from here, oldest link first. -/
  targets : Array InputAddr := #[]

end NodeGraph
