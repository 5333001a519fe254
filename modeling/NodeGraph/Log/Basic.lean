/-!
# Logs

A log is a sequence of lines. Each has a level, which says how important it is, and a source, which
says what part of the program wrote it.
-/

namespace NodeGraph

/-- Importance of a log line, from the loudest down. -/
inductive Level where
  | error
  | warn
  | info
  | debug
  | trace
deriving DecidableEq, Repr

namespace Level

def name : Level → String
  | error => "ERROR"
  | warn => "WARN"
  | info => "INFO"
  | debug => "DEBUG"
  | trace => "TRACE"

/-- The level with a name, in letters of either case. -/
def ofName? (name : String) : Option Level :=
  [error, warn, info, debug, trace].find? fun level => level.name == name.toUpper

/-- Detail that a level asks for: each one includes those before it. -/
def rank : Level → Nat
  | error => 1
  | warn => 2
  | info => 3
  | debug => 4
  | trace => 5

end Level

/-- The part of the program that a log line comes from. -/
inductive LogSource where
  /-- The program itself and its demonstrations. -/
  | program
  | engine
  /-- Programs with an entry node. -/
  | control
  | countingLoop
  | printing
deriving DecidableEq, Repr

/-- The path under which a filter knows a source. A path that begins another one's takes in its
lines. -/
def LogSource.path : LogSource → String
  | program => "flowgraph"
  | engine => "flowgraph::nodes::execution_engine"
  | control => "flowgraph::nodes::control_flow"
  | countingLoop => "flowgraph::nodes::control::for_loop::functions"
  | printing => "flowgraph::nodes::output::print::functions"

/-- A line of a log. -/
structure LogLine where
  level : Level
  source : LogSource
  text : String
deriving DecidableEq, Repr

end NodeGraph
