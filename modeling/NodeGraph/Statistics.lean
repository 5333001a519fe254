/-!
# Statistics of memoization
-/

namespace NodeGraph

/-- What a graph counts while it runs. -/
structure Statistics where
  /-- Reads of connected inputs answered from the cache of the input. -/
  hits : Nat := 0
  /-- Reads of connected inputs that went to the source. -/
  misses : Nat := 0
  /-- Bodies of nodes that ran, in pulls and in control steps. -/
  evaluations : Nat := 0
  /-- Sweeps that made every stamp stale. -/
  invalidations : Nat := 0
  /-- Times the epoch numbers started again. -/
  wraps : Nat := 0
  /-- Pulls that came back to a node still being computed. -/
  cycles : Nat := 0
deriving DecidableEq, Repr

namespace Statistics

def hit (s : Statistics) : Statistics := { s with hits := s.hits + 1 }

def miss (s : Statistics) : Statistics := { s with misses := s.misses + 1 }

def evaluation (s : Statistics) : Statistics := { s with evaluations := s.evaluations + 1 }

def invalidation (s : Statistics) : Statistics := { s with invalidations := s.invalidations + 1 }

def wrap (s : Statistics) : Statistics := { s with wraps := s.wraps + 1 }

def cycle (s : Statistics) : Statistics := { s with cycles := s.cycles + 1 }

/-- Names of the counts. -/
def fieldNames : List String :=
  ["hits", "misses", "evaluations", "invalidations", "wraps", "cycles_flagged"]

/-- The counts, in the order of their names. -/
def counts (s : Statistics) : List Nat :=
  [s.hits, s.misses, s.evaluations, s.invalidations, s.wraps, s.cycles]

/-- The counts under their names, in one line. -/
def display (s : Statistics) : String :=
  let fields := (fieldNames.zip s.counts).map fun (name, count) => name ++ ": " ++ count.repr
  "MemoStatistics \x7b " ++ ", ".intercalate fields ++ " \x7d"

/-- Share of the reads that were hits; zero before the first read. The sum is taken in 64 bits, and
both numbers are rounded to floats before the division. -/
def hitRatio (s : Statistics) : Float :=
  let total := (s.hits + s.misses) % UInt64.size
  if total = 0 then 0.0 else Float.ofNat s.hits / Float.ofNat total

end Statistics

end NodeGraph
