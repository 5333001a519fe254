import NodeGraph.Program

/-!
# Sessions

A session holds several graphs and contexts, each known by its position, and carries commands out
on them. It gives out the identities of contexts: every new context and every copy has one of its
own, and an identity stays with its context wherever that is moved.
-/

namespace NodeGraph

/-- A graph of a session: bare wiring, an engine, or a program. -/
inductive Sheet where
  | wiring (graph : Graph)
  | engine (engine : Engine)
  | program (program : Program)

namespace Sheet

def graph : Sheet → Graph
  | wiring g => g
  | engine e => e.graph
  | program p => p.engine.graph

/-- The engine of a sheet that can be evaluated. -/
def engine? : Sheet → Option Engine
  | wiring _ => none
  | engine e => some e
  | program p => some p.engine

/-- Puts another engine in place of the one the sheet has; bare wiring has none. -/
def withEngine : Sheet → Engine → Sheet
  | wiring g, _ => wiring g
  | engine _, e => engine e
  | program p, e => program { p with engine := e }

/-- Adds a node; also gives its position. -/
def add (s : Sheet) (node : Node) : NodeId × Sheet :=
  match s with
  | wiring g =>
    let (id, g) := g.add node
    (id, wiring g)
  | engine e =>
    let (id, e) := e.addNode node
    (id, engine e)
  | program p =>
    let (id, e) := p.engine.addNode node
    (id, program { p with engine := e })

/-- Links an output to an input. -/
def connect (s : Sheet) (link : Link) : Except Fault Sheet :=
  match s with
  | wiring g => (g.connect link).map wiring
  | engine e => (e.connect link).map engine
  | program p => (p.engine.connect link).map fun e => program { p with engine := e }

/-- Removes the link into an input; also gives the output it came from. -/
def disconnect (s : Sheet) (target : InputAddr) : Except Fault (Option OutputAddr × Sheet) :=
  match s with
  | wiring g => (g.disconnect target).map fun (source, g) => (source, wiring g)
  | engine e => (e.disconnect target).map fun (source, e) => (source, engine e)
  | program p =>
    (p.engine.disconnect target).map fun (source, e) => (source, program { p with engine := e })

/-- Adds `count` copies of a node, and links each one but the first to the copy before it as soon
as it is added. The first link that is refused ends this. -/
def addChain (s : Sheet) (node : Node) (output input : PortId) :
    (count : Nat) → (previous : Option NodeId) → Except Fault Unit × Sheet
  | 0, _ => (.ok (), s)
  | count + 1, previous =>
    let (id, s) := s.add node
    match previous with
    | none => addChain s node output input count (some id)
    | some previous =>
      match s.connect ⟨⟨previous, output⟩, ⟨id, input⟩⟩ with
      | .error fault => (.error fault, s)
      | .ok s => addChain s node output input count (some id)

end Sheet

/-- What kind of graph to open. -/
inductive SheetKind where
  | wiring
  | engine
  | program
deriving DecidableEq, Repr

/-- Graphs and contexts of a host. -/
structure Session where
  sheets : Array Sheet := #[]
  contexts : Array Context := #[]
  /-- Identity for the next context. -/
  nextContext : Nat := 0

namespace Session

/-- Opens an empty graph of a kind; also gives its position. The settings are for graphs that can
be evaluated. -/
def openSheet (s : Session) (kind : SheetKind) (config : Config) : Nat × Session :=
  let engine : Engine := { context := { id := s.nextContext }, config }
  let sheet := match kind with
    | .wiring => Sheet.wiring {}
    | .engine => Sheet.engine engine
    | .program => Sheet.program { engine }
  (s.sheets.size, { s with sheets := s.sheets.push sheet, nextContext := s.nextContext + 1 })

/-- Adds a copy of a graph; also gives its position. The copy has a context with an identity of its
own, but still remembers which context the epoch served in the graph it was taken from. -/
def copySheet (s : Session) (sheet : Sheet) : Nat × Session :=
  let copy := match sheet.engine? with
    | some e => sheet.withEngine { e with context := { e.context with id := s.nextContext } }
    | none => sheet
  (s.sheets.size, { s with sheets := s.sheets.push copy, nextContext := s.nextContext + 1 })

/-- Adds a context with these variables and lines, under an identity of its own; also gives its
position. -/
def addContext (s : Session) (locals : Locals) (printed : Array String) : Nat × Session :=
  (s.contexts.size,
    { s with
      contexts := s.contexts.push ⟨s.nextContext, locals, printed⟩
      nextContext := s.nextContext + 1 })

def setSheet (s : Session) (index : Nat) (sheet : Sheet) : Session :=
  { s with sheets := s.sheets.setIfInBounds index sheet }

end Session

end NodeGraph
