import NodeGraph.Operator.Binary

/-!
# Kinds of nodes

Pure nodes compute a value on demand and have no flow ports. Action nodes do one thing when control
reaches them and go on. Control nodes choose where control goes, some of them repeatedly.
-/

namespace NodeGraph

/-- Nodes that are computed when their output is pulled. -/
inductive PureKind where
  | binary (op : BinaryOp)
  | getLocal
deriving DecidableEq, Repr

/-- Nodes with one action and one way to continue. -/
inductive ActionKind where
  | start
  | print
  | setLocal
deriving DecidableEq, Repr

/-- Nodes that choose among several flow outputs. -/
inductive ControlKind where
  | forLoop
  | whileLoop
  | doWhile
  | ifElse
deriving DecidableEq, Repr

/-- What a node does. -/
inductive NodeKind where
  | pure (kind : PureKind)
  | action (kind : ActionKind)
  | control (kind : ControlKind)
deriving DecidableEq, Repr

/-- How many flow outputs a node chooses from. -/
inductive FlowArity where
  | none
  | one
  | many
deriving DecidableEq, Repr

namespace NodeKind

def flowArity : NodeKind → FlowArity
  | .pure _ => .none
  | .action _ => .one
  | .control _ => .many

def isPure (k : NodeKind) : Bool := k.flowArity == .none

/-- The operator a node of this kind applies, if it applies one. -/
def operator? : NodeKind → Option BinaryOp
  | .pure (.binary op) => some op
  | _ => Option.none

def typeName : NodeKind → String
  | .pure (.binary op) => op.typeName
  | .pure .getLocal => "GetLocalVariable"
  | .action .start => "Start"
  | .action .print => "Print"
  | .action .setLocal => "SetLocalVariable"
  | .control .forLoop => "For"
  | .control .whileLoop => "While"
  | .control .doWhile => "DoWhile"
  | .control .ifElse => "IfElse"

/-- Every kind of node, in catalog order. -/
def all : List NodeKind :=
  [.action .start, .action .print, .control .forLoop, .control .whileLoop, .control .doWhile,
    .control .ifElse, .pure .getLocal, .action .setLocal] ++
  BinaryOp.all.map fun op => .pure (.binary op)

/-- The kind whose type has this name. -/
def ofTypeName? (name : String) : Option NodeKind := all.find? (·.typeName == name)

end NodeKind

end NodeGraph
