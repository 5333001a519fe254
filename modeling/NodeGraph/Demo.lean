import NodeGraph.Json.Writer
import NodeGraph.Program

/-!
# Demonstrations

Three small graphs that show what the library does: a counting loop that prints its indices, a
product built up in a local variable, and a calculation that is pulled from its last node. Each
demonstration gives the lines that it logs.
-/

namespace NodeGraph

/-- Adds nodes in order, and then links. -/
def Engine.build (e : Engine) (nodes : List Node) (links : List Link) : Except Fault Engine :=
  links.foldlM Engine.connect (nodes.foldl (fun e node => (e.addNode node).2) e)

namespace Demo

/-- What a demonstration logs. It gives nothing when a run does not end within its limit. -/
abbrev Log := ExceptT Fault Option (List LogLine)

/-- An engine without nodes. -/
def empty (config : Config) : Engine := { context := { id := 0 }, config }

/-- Builds a graph and runs it from its first node. -/
def runFirst (limit : Nat) (config : Config) (nodes : List Node) (links : List Link) :
    ExceptT Fault Option Engine := do
  let engine ← liftExcept ((empty config).build nodes links)
  let program ← liftExcept (Program.setEntry { engine } 0)
  let (result, program) ← program.run limit
  let _ ← liftExcept result
  return program.engine
where
  liftExcept {α : Type} (result : Except Fault α) : ExceptT Fault Option α := .mk (some result)

/-- The journal of an engine, and more lines behind it. -/
def report (e : Engine) (texts : List String) : List LogLine :=
  e.journal.toList.map Event.logLine ++ texts.map (⟨.info, .program, ·⟩)

/-- Texts in quotes, as a list in brackets. -/
def quoteAll (texts : List String) : String :=
  "[" ++ ", ".intercalate (texts.map fun text => String.ofList (Json.writeString text)) ++ "]"

open Layout in
/-- Prints the indices 0 to 4, and then `Done`. -/
def loop (limit : Nat) (config : Config) : Log := do
  let nodes :=
    [Node.ofKind (.action .start),
      (Node.ofKind (.control .forLoop)).withLiteral ForLoop.finish (.int 5),
      Node.ofKind (.action .print),
      (Node.ofKind (.action .print)).withLiteral Print.value (.text "Done")]
  let links : List Link :=
    [⟨⟨0, flowOut⟩, ⟨1, flowIn⟩⟩,
      ⟨⟨1, ForLoop.body⟩, ⟨2, flowIn⟩⟩,
      ⟨⟨1, ForLoop.index⟩, ⟨2, Print.value⟩⟩,
      ⟨⟨1, ForLoop.done⟩, ⟨3, flowIn⟩⟩]
  let engine ← runFirst limit config nodes links
  return report engine ["Loop printed " ++ quoteAll engine.context.printed.toList]

open Layout in
/-- Nodes that multiply the local variable `var`, `v` at first, by the indices of a loop. -/
def productNodes (v start finish step : Int64) : List Node :=
  let counter := (Node.ofKind (.control .forLoop)).withLiteral ForLoop.start (.int start)
  let counter := counter.withLiteral ForLoop.finish (.int finish)
  [Node.setLocal "var" (.int v),
    counter.withLiteral ForLoop.step (.int step),
    Node.setLocal "var" .empty,
    Node.getLocal "var",
    Node.ofKind (.pure (.binary (.arithmetic .mul)))]

open Layout in
def productLinks : List Link :=
  [⟨⟨0, flowOut⟩, ⟨1, flowIn⟩⟩,
    ⟨⟨1, ForLoop.body⟩, ⟨2, flowIn⟩⟩,
    ⟨⟨3, result⟩, ⟨4, Binary.left⟩⟩,
    ⟨⟨1, ForLoop.index⟩, ⟨4, Binary.right⟩⟩,
    ⟨⟨4, result⟩, ⟨2, SetLocal.value⟩⟩]

/-- Multiplies a local variable, 1 at first, by the numbers 1 to 4. -/
def factorial (limit : Nat) (config : Config) : Log := do
  let engine ← runFirst limit config (productNodes 1 1 5 1) productLinks
  return report engine ["var = " ++ (engine.context.locals.get "var").display]

open Layout in
/-- Pulls `(1 + 2) / 2`, and shows what was counted meanwhile. -/
def arithmetic (config : Config) : Except Fault (List LogLine) := do
  let sum := Node.ofKind (.pure (.binary (.arithmetic .add)))
  let quotient := Node.ofKind (.pure (.binary (.arithmetic .div)))
  let nodes :=
    [(sum.withLiteral Binary.left (.float 1.0)).withLiteral Binary.right (.float 2.0),
      quotient.withLiteral Binary.right (.float 2.0)]
  let engine ← (empty config).build nodes [⟨⟨0, result⟩, ⟨1, Binary.left⟩⟩]
  let (values, engine) := engine.pullOutputs [⟨1, result⟩]
  let shown := (← values).map fun value => "(1 + 2) / 2 = " ++ value.display
  return report engine (shown ++ ["Memo statistics: " ++ engine.statistics.display])

/-- All demonstrations, one after the other. -/
def all (limit : Nat) (config : Config) : Log := do
  return (← loop limit config) ++ (← factorial limit config) ++ (← .mk (some (arithmetic config)))

end Demo

end NodeGraph
