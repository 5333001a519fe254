import NodeGraph.Catalog
import NodeGraph.Category
import NodeGraph.CommandLine
import NodeGraph.Config
import NodeGraph.Context
import NodeGraph.Demo
import NodeGraph.Engine.Basic
import NodeGraph.Engine.Loop
import NodeGraph.Engine.Pull
import NodeGraph.Engine.Run
import NodeGraph.Engine.Step
import NodeGraph.Epoch
import NodeGraph.Event
import NodeGraph.Fault
import NodeGraph.Graph.Basic
import NodeGraph.Json.Basic
import NodeGraph.Json.Reader
import NodeGraph.Json.Record
import NodeGraph.Json.Writer
import NodeGraph.Locals
import NodeGraph.Log.Basic
import NodeGraph.Log.Filter
import NodeGraph.Main
import NodeGraph.Node.Basic
import NodeGraph.Node.Kind
import NodeGraph.Node.Layout
import NodeGraph.Node.Metadata
import NodeGraph.Number.Binary
import NodeGraph.Number.Format
import NodeGraph.Number.Numeral
import NodeGraph.Number.Shortest
import NodeGraph.Number.Word
import NodeGraph.Operator.Arithmetic
import NodeGraph.Operator.Binary
import NodeGraph.Operator.Comparison
import NodeGraph.Port
import NodeGraph.Program
import NodeGraph.Proofs.Catalog.Hierarchy
import NodeGraph.Proofs.Engine.Abreast
import NodeGraph.Proofs.Engine.Alike
import NodeGraph.Proofs.Engine.Checked
import NodeGraph.Proofs.Engine.Coherence
import NodeGraph.Proofs.Engine.Consistency
import NodeGraph.Proofs.Engine.Correspondence
import NodeGraph.Proofs.Engine.Course
import NodeGraph.Proofs.Engine.Cycles
import NodeGraph.Proofs.Engine.Epochs
import NodeGraph.Proofs.Engine.Evaluations
import NodeGraph.Proofs.Engine.Footprint
import NodeGraph.Proofs.Engine.Lockstep
import NodeGraph.Proofs.Engine.Misses
import NodeGraph.Proofs.Engine.Nesting
import NodeGraph.Proofs.Engine.Numbering
import NodeGraph.Proofs.Engine.Pull
import NodeGraph.Proofs.Engine.Repeatable
import NodeGraph.Proofs.Engine.Stamps
import NodeGraph.Proofs.Engine.Unending
import NodeGraph.Proofs.Engine.Unrecorded
import NodeGraph.Proofs.Engine.Valid
import NodeGraph.Proofs.Graph.Acyclic
import NodeGraph.Proofs.Graph.Apart
import NodeGraph.Proofs.Graph.Blank
import NodeGraph.Proofs.Graph.Built
import NodeGraph.Proofs.Graph.Checks
import NodeGraph.Proofs.Graph.Erasure
import NodeGraph.Proofs.Graph.Flow
import NodeGraph.Proofs.Graph.Links
import NodeGraph.Proofs.Graph.Lookup
import NodeGraph.Proofs.Graph.Naive
import NodeGraph.Proofs.Graph.Ports
import NodeGraph.Proofs.Graph.Pushed
import NodeGraph.Proofs.Graph.Rebuilt
import NodeGraph.Proofs.Graph.Upstream
import NodeGraph.Proofs.Graph.View
import NodeGraph.Proofs.Graph.WellFormed
import NodeGraph.Proofs.Graph.Wiring
import NodeGraph.Proofs.Json.Documents
import NodeGraph.Proofs.Json.Floats
import NodeGraph.Proofs.Json.Records
import NodeGraph.Proofs.Number.Integers
import NodeGraph.Proofs.Number.Numerals
import NodeGraph.Proofs.Number.Rounding
import NodeGraph.Proofs.Number.Shortest
import NodeGraph.Proofs.Operator.Integral
import NodeGraph.Proofs.Operator.Order
import NodeGraph.Proofs.Operator.ReadBack
import NodeGraph.Proofs.Run.Accumulation
import NodeGraph.Proofs.Run.Activation
import NodeGraph.Proofs.Run.Alike
import NodeGraph.Proofs.Run.Checked
import NodeGraph.Proofs.Run.Conditions
import NodeGraph.Proofs.Run.Correspondence
import NodeGraph.Proofs.Run.Counting
import NodeGraph.Proofs.Run.Course
import NodeGraph.Proofs.Run.Effect
import NodeGraph.Proofs.Run.Ending
import NodeGraph.Proofs.Run.EvenSums
import NodeGraph.Proofs.Run.Footprint
import NodeGraph.Proofs.Run.Lockstep
import NodeGraph.Proofs.Run.OwnContext
import NodeGraph.Proofs.Run.Pair
import NodeGraph.Proofs.Run.Products
import NodeGraph.Proofs.Run.Recursion
import NodeGraph.Proofs.Run.Scene
import NodeGraph.Proofs.Run.Steps
import NodeGraph.Proofs.Run.Twin
import NodeGraph.Proofs.Run.Unending
import NodeGraph.Proofs.Run.Unrecorded
import NodeGraph.Proofs.Run.Valid
import NodeGraph.Proofs.Session.Aftermath
import NodeGraph.Proofs.Session.Alike
import NodeGraph.Proofs.Session.Batches
import NodeGraph.Proofs.Session.Checked
import NodeGraph.Proofs.Session.ConditionActivations
import NodeGraph.Proofs.Session.Consistency
import NodeGraph.Proofs.Session.Correspondence
import NodeGraph.Proofs.Session.Counters
import NodeGraph.Proofs.Session.CountingActivations
import NodeGraph.Proofs.Session.Cycles
import NodeGraph.Proofs.Session.Ending
import NodeGraph.Proofs.Session.EntryPoints
import NodeGraph.Proofs.Session.Evaluations
import NodeGraph.Proofs.Session.Faults
import NodeGraph.Proofs.Session.Footprint
import NodeGraph.Proofs.Session.Identity
import NodeGraph.Proofs.Session.Invariant
import NodeGraph.Proofs.Session.Isolation
import NodeGraph.Proofs.Session.Likeness
import NodeGraph.Proofs.Session.Memoization
import NodeGraph.Proofs.Session.Nesting
import NodeGraph.Proofs.Session.NodeCopies
import NodeGraph.Proofs.Session.Numbers
import NodeGraph.Proofs.Session.Outcome
import NodeGraph.Proofs.Session.Pair
import NodeGraph.Proofs.Session.Repeatable
import NodeGraph.Proofs.Session.Requests
import NodeGraph.Proofs.Session.Separate
import NodeGraph.Proofs.Session.Serving
import NodeGraph.Proofs.Session.SheetCopies
import NodeGraph.Proofs.Session.Unending
import NodeGraph.Proofs.Session.Unrecorded
import NodeGraph.Proofs.Text.Bytes
import NodeGraph.Proofs.Text.Trimming
import NodeGraph.Proofs.Value.Integers
import NodeGraph.Session.Basic
import NodeGraph.Session.Command
import NodeGraph.Statistics
import NodeGraph.Text.Blank
import NodeGraph.Text.CharSet
import NodeGraph.Text.Digit
import NodeGraph.Text.Fields
import NodeGraph.Text.Pattern.Basic
import NodeGraph.Text.Pattern.Bracket
import NodeGraph.Text.Pattern.Reader
import NodeGraph.Text.Pattern.Scan
import NodeGraph.Value.Basic
import NodeGraph.Value.Coercion
