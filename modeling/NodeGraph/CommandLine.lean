import NodeGraph.Demo
import NodeGraph.Json.Record
import NodeGraph.Log.Filter

/-!
# Command line

The program runs the demonstrations with the settings of a file, or with the default settings when
it is given none, and logs what they do. A setting of the environment chooses the lines that are shown.
-/

namespace NodeGraph

/-- Where the program takes its settings from. -/
inductive ConfigSource where
  | defaults
  /-- A file with these bytes, or one that does not exist. -/
  | file (content : Option ByteArray)

/-- The settings from a source. -/
def ConfigSource.load : ConfigSource → Except Fault Config
  | defaults => .ok {}
  | file content => Config.ofFile content

/-- What a run of the program leaves behind. -/
structure CommandResult where
  exitCode : Nat
  output : String := ""
  log : List LogLine

namespace CommandLine

/-- Steps granted to each run of a demonstration; none needs half as many. -/
def stepLimit : Nat := 32

/-- Runs the program. A fault is logged and ends it with exit code 1. -/
def run (source : ConfigSource) (filter : LogFilter) : CommandResult :=
  let result : Except Fault (List LogLine) :=
    match source.load with
    | .error fault => .error fault
    | .ok config => ((Demo.all stepLimit config).run).getD (.ok [])
  match result with
  | .ok lines => { exitCode := 0, log := lines.filter filter.admits }
  | .error fault =>
    { exitCode := 1, log := [LogLine.mk .error .program fault.message].filter filter.admits }

end CommandLine

end NodeGraph
