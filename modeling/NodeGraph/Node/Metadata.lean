import NodeGraph.Category
import NodeGraph.Node.Kind
import NodeGraph.Port

/-!
# Descriptions of node kinds

The ports of each kind of node, with their names, types and literals, and the texts an authoring
tool shows. The first input of action and control nodes is the flow input that triggers them; the
start node has none.
-/

namespace NodeGraph

/-- Description of a port. The literal is what an input yields while it has no link. -/
structure PortSpec where
  name : String
  type : PortType
  literal : Value := .empty
  description : Option String := none

/-- Description of a kind of node. -/
structure Metadata where
  typeName : String
  displayName : String
  description : String
  category : Category
  inputs : List PortSpec := []
  outputs : List PortSpec := []

namespace PureKind

def metadata (kind : PureKind) : Metadata :=
  match kind with
  | .binary (.arithmetic op) =>
    { typeName := (BinaryOp.arithmetic op).typeName
      displayName := op.name
      description := "Applies an arithmetic operator to A and B"
      category := .math
      inputs := [⟨"A", .float, .empty, "First operand"⟩, ⟨"B", .float, .empty, "Second operand"⟩]
      outputs := [⟨"Result", .float, .empty, none⟩] }
  | .binary (.comparison op) =>
    { typeName := (BinaryOp.comparison op).typeName
      displayName := op.name
      description := "Compares A with B"
      category := .logic
      inputs := [⟨"A", .any, .empty, none⟩, ⟨"B", .any, .empty, none⟩]
      outputs := [⟨"Result", .bool, .empty, none⟩] }
  | .getLocal =>
    { typeName := "GetLocalVariable"
      displayName := "Get Local Variable"
      description := "Reads a local variable; empty when it was never set"
      category := .locals
      inputs := [⟨"Key", .text, .text "", none⟩]
      outputs := [⟨"Value", .any, .empty, none⟩] }

end PureKind

/-- A flow port. -/
def PortSpec.flow (name : String) : PortSpec := ⟨name, .flow, .empty, none⟩

namespace ActionKind

def metadata : ActionKind → Metadata
  | start =>
    { typeName := "Start"
      displayName := "Start"
      description := "Entry point of a control-flow graph"
      category := .control
      outputs := [.flow "Next"] }
  | print =>
    { typeName := "Print"
      displayName := "Print"
      description := "Prints its value, then continues"
      category := .action
      inputs := [.flow "Flow", ⟨"Value", .any, .empty, "Value to print"⟩]
      outputs := [.flow "Next"] }
  | setLocal =>
    { typeName := "SetLocalVariable"
      displayName := "Set Local Variable"
      description := "Stores a value under a name, then continues"
      category := .locals
      inputs := [.flow "Flow", ⟨"Key", .text, .text "", none⟩, ⟨"Value", .any, .empty, none⟩]
      outputs := [.flow "Next", ⟨"Value", .any, .empty, "The value just stored"⟩] }

end ActionKind

namespace ControlKind

/-- Inputs of the loops that test a condition. -/
def conditionInputs : List PortSpec :=
  [.flow "Flow", ⟨"Condition", .bool, .bool false, "Re-read before deciding on another pass"⟩]

def metadata : ControlKind → Metadata
  | forLoop =>
    { typeName := "For"
      displayName := "For"
      description := "Runs Body for every index from Start to End, then Done"
      category := .control
      inputs :=
        [.flow "Flow",
          ⟨"Start", .int, .int 0, "First index (exclusive upper bound when descending)"⟩,
          ⟨"End", .int, .int 0, "Exclusive upper bound (inclusive lower bound when descending)"⟩,
          ⟨"Step", .int, .int 1, none⟩,
          ⟨"Descending", .bool, .bool false, none⟩]
      outputs := [.flow "Body", ⟨"Index", .int, .empty, "Index of the running pass"⟩, .flow "Done"] }
  | whileLoop =>
    { typeName := "While"
      displayName := "While"
      description := "Runs Body while the condition holds, then Done"
      category := .control
      inputs := conditionInputs
      outputs := [.flow "Body", .flow "Done"] }
  | doWhile =>
    { typeName := "DoWhile"
      displayName := "Do While"
      description := "Runs Body once, then again while the condition holds, then Done"
      category := .control
      inputs := conditionInputs
      outputs := [.flow "Body", .flow "Done"] }
  | ifElse =>
    { typeName := "IfElse"
      displayName := "If Else"
      description := "Continues on True or False depending on the condition"
      category := .control
      inputs := [.flow "Flow", ⟨"Condition", .bool, .bool false, "Branch selector"⟩]
      outputs := [.flow "True", .flow "False"] }

end ControlKind

def NodeKind.metadata : NodeKind → Metadata
  | .pure kind => kind.metadata
  | .action kind => kind.metadata
  | .control kind => kind.metadata

end NodeGraph
