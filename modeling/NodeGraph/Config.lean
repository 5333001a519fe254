/-!
# Settings of a graph
-/

namespace NodeGraph

/-- What a graph records while it runs; nothing here changes what it computes. -/
structure Config where
  /-- Journal every control step. -/
  traceExecution : Bool := false
  /-- Count hits, misses, evaluations and the like. -/
  collectStatistics : Bool := true
deriving DecidableEq, Repr, Inhabited

end NodeGraph
