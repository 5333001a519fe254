import NodeGraph.Port

/-!
# Positions of the ports

Where the ports of each kind of node stand among its inputs or outputs. Every action and control
node but the start node is triggered by its first input, and action nodes continue on their first
output.
-/

namespace NodeGraph.Layout

/-- The flow input that triggers an action or control node. -/
abbrev flowIn : PortId := 0

/-- The flow output on which an action node continues. -/
abbrev flowOut : PortId := 0

namespace Binary

abbrev left : PortId := 0
abbrev right : PortId := 1

end Binary

/-- The only output of a pure node. -/
abbrev result : PortId := 0

namespace GetLocal

abbrev key : PortId := 0

end GetLocal

namespace SetLocal

abbrev key : PortId := 1
abbrev value : PortId := 2
/-- The output that passes on the value just stored. -/
abbrev stored : PortId := 1

end SetLocal

namespace Print

abbrev value : PortId := 1

end Print

namespace ForLoop

abbrev start : PortId := 1
abbrev finish : PortId := 2
abbrev step : PortId := 3
abbrev descending : PortId := 4
abbrev body : PortId := 0
abbrev index : PortId := 1
abbrev done : PortId := 2

end ForLoop

-- Both loops that test a condition have this layout.
namespace WhileLoop

abbrev condition : PortId := 1
abbrev body : PortId := 0
abbrev done : PortId := 1

end WhileLoop

namespace IfElse

abbrev condition : PortId := 1
abbrev whenTrue : PortId := 0
abbrev whenFalse : PortId := 1

end IfElse

end NodeGraph.Layout
