import NodeGraph.Operator.Arithmetic
import NodeGraph.Operator.Comparison

/-!
# Binary operators

The operators a pure node can apply to its two operands, with the names that the catalog and the
reader of node types know them by.
-/

namespace NodeGraph

/-- An operator with two operands. -/
inductive BinaryOp where
  | arithmetic (op : Arithmetic)
  | comparison (op : Comparison)
deriving DecidableEq, Repr

namespace BinaryOp

def apply : BinaryOp → Value → Value → Value
  | arithmetic op => op.apply
  | comparison op => op.apply

/-- Name shown to people. -/
def name : BinaryOp → String
  | arithmetic op => op.name
  | comparison op => op.name

/-- Name of the node type that applies the operator. -/
def typeName : BinaryOp → String
  | arithmetic op => "Math." ++ op.name
  | comparison .less => "Compare.Less"
  | comparison .lessEq => "Compare.LessEq"
  | comparison .equal => "Compare.Equal"
  | comparison .notEqual => "Compare.NotEqual"
  | comparison .greaterEq => "Compare.GreaterEq"
  | comparison .greater => "Compare.Greater"

/-- All operators, in catalog order. -/
def all : List BinaryOp := Arithmetic.all.map arithmetic ++ Comparison.all.map comparison

/-- The operator applied by the node type of this name. -/
def ofTypeName? (name : String) : Option BinaryOp := all.find? (·.typeName == name)

end BinaryOp

end NodeGraph
