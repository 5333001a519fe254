import NodeGraph.CommandLine

/-!
# The program

Reads the settings file that the first argument names, if there is one, and writes the log to the
error stream.
-/

open NodeGraph

/-- Bytes of a file, or `none` when it cannot be read. -/
def readBytes? (path : String) : IO (Option ByteArray) := do
  try
    return some (← IO.FS.readBinFile path)
  catch _ =>
    return none

def main (args : List String) : IO UInt32 := do
  let source ← match args.head? with
    | none => pure ConfigSource.defaults
    | some path => ConfigSource.file <$> readBytes? path
  let filter := LogFilter.ofSetting (← IO.getEnv "RUST_LOG")
  let result := CommandLine.run source filter
  for line in result.log do
    IO.eprintln s!"[{line.level.name} {line.source.path}] {line.text}"
  IO.print result.output
  return result.exitCode.toUInt32
