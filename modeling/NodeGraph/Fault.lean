import NodeGraph.Port

/-!
# Faults

Why an operation was refused.
-/

namespace NodeGraph

/-- Why a file could not be read as text. -/
inductive FileFault where
  | notFound
  | notUtf8
deriving DecidableEq, Repr

def FileFault.message : FileFault → String
  | notFound => "No such file or directory (os error 2)"
  | notUtf8 => "stream did not contain valid UTF-8"

/-- Why an operation was refused. -/
inductive Fault where
  | noNode (id : NodeId)
  | noInput (addr : InputAddr)
  | noOutput (addr : OutputAddr)
  /-- Exactly one end of a link is a flow port. -/
  | flowMismatch (source target : PortType)
  | unknownType (name : String)
  | file (cause : FileFault)
  /-- A text that is not the JSON form of what was asked for. -/
  | malformed
deriving DecidableEq, Repr

def Fault.message : Fault → String
  | noNode id => s!"Node {id} does not exist"
  | noInput addr => s!"Node {addr.node} has no input {addr.port}"
  | noOutput addr => s!"Node {addr.node} has no output {addr.port}"
  | flowMismatch source target => s!"Cannot connect {source.name} connector to {target.name} connector"
  | unknownType name => s!"Unknown node type: {name}"
  | file cause => s!"I/O error: {cause.message}"
  | malformed => "JSON parsing error"

end NodeGraph
