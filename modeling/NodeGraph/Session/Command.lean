import NodeGraph.Session.Basic

/-!
# Commands

What a host can ask of a graph in a session, and what it is answered. A command about a context
names an extra context of the session by its position, or by `none` the graph's own.
-/

namespace NodeGraph

/-- A request to one graph of a session. -/
inductive Command where
  | add (node : Node)
  /-- Adds copies of a node, each linked to the one before. -/
  | addChain (node : Node) (count : Nat) (output input : PortId)
  /-- Adds a copy of a node of this graph to another graph. -/
  | copyNode (id : NodeId) (sheet : Nat)
  | connect (link : Link)
  | disconnect (target : InputAddr)
  | setLiteral (addr : InputAddr) (value : Value)
  | links
  | successors (addr : OutputAddr)
  | size
  | node (id : NodeId)
  | nodes
  /-- Gives a node of bare wiring another identifier or title. -/
  | relabel (id : NodeId) (newId : Option NodeId) (title : Option String)
  | copySheet
  | openSheet (kind : SheetKind) (config : Config)
  | execute (start : NodeId) (context : Option Nat)
  | executeNodes (ids : List NodeId)
  | executeOutputs (addrs : List OutputAddr)
  | setEntry (id : NodeId)
  | entry
  | run
  | getValue (addr : InputAddr) (context : Option Nat)
  | outputValue (addr : OutputAddr)
  | pullOutput (addr : OutputAddr) (context : Nat)
  | getValues (addrs : List InputAddr)
  | pullOutputs (addrs : List OutputAddr)
  | openEpoch
  | invalidate
  | invalidateOnce (marker : Nat)
  | marker
  | hitRatio
  | resetStatistics
  | setConfig (config : Config)
  | config
  | newContext
  | copyContext (context : Option Nat)
  /-- Exchanges the graph's own context with an extra one. -/
  | swapContext (context : Nat)
  | setLocal (name : String) (value : Value) (context : Option Nat)
  | getLocal (name : String) (context : Option Nat)
  | clearLocals (context : Option Nat)
  | showContext (context : Option Nat)
  | takePrinted (context : Option Nat)

/-- The answer to a command that was not refused. -/
inductive Reply where
  | done
  /-- Position of something that was added, or a node. -/
  | index (n : Nat)
  | node? (id : Option NodeId)
  | span (first last : NodeId)
  | source (addr : Option OutputAddr)
  | links (links : List Link)
  | ids (ids : List NodeId)
  | size (n : Nat)
  | nodes (nodes : Array Node)
  | node (node : Node)
  | value (value : Value)
  | value? (value : Option Value)
  | values (values : List Value)
  | epoch (number : Int)
  | flag (b : Bool)
  | marker (marker : Option Nat)
  | ratio (x : Float)
  | config (config : Config)
  | context (context : Context)
  | lines (lines : Array String)

/-- Why a command has no answer at all. -/
inductive Refusal where
  /-- There is no such graph or context, or graphs of its kind do not have the operation. -/
  | notOffered
  /-- A run did not end within the limit on its steps. -/
  | stepLimit
deriving DecidableEq, Repr

/-- The outcome of a command: a refusal, or an answer and the session after it. -/
abbrev Outcome := Except Refusal (Except Fault Reply × Session)

namespace Session

/-- Carries out a command on the engine of a graph. -/
def onEngine (s : Session) (index : Nat) (act : Engine → Except Fault Reply × Engine) : Outcome :=
  match s.sheets[index]? with
  | none => .error .notOffered
  | some sheet =>
    match sheet.engine? with
    | none => .error .notOffered
    | some e =>
      let (reply, e) := act e
      .ok (reply, s.setSheet index (sheet.withEngine e))

/-- Carries out a command that may not end on the engine of a graph. -/
def onEngineWithin (s : Session) (index : Nat)
    (act : Engine → Option (Except Fault Reply × Engine)) : Outcome :=
  match s.sheets[index]? with
  | none => .error .notOffered
  | some sheet =>
    match sheet.engine? with
    | none => .error .notOffered
    | some e =>
      match act e with
      | none => .error .stepLimit
      | some (reply, e) => .ok (reply, s.setSheet index (sheet.withEngine e))

/-- Carries out a command on the engine of a graph together with a context: an extra one of the
session, or the graph's own. Both are put back afterwards. -/
def onMachine (s : Session) (index : Nat) (context : Option Nat)
    (act : Machine → Option (Except Fault Reply × Machine)) : Outcome :=
  match context with
  | none => s.onEngineWithin index fun e =>
    (act ⟨e, e.context⟩).map fun (reply, m) => (reply, { m.engine with context := m.context })
  | some extra =>
    match s.sheets[index]?, s.contexts[extra]? with
    | some sheet, some c =>
      match sheet.engine? with
      | none => .error .notOffered
      | some e =>
        match act ⟨e, c⟩ with
        | none => .error .stepLimit
        | some (reply, m) =>
          .ok (reply,
            { s.setSheet index (sheet.withEngine m.engine) with
              contexts := s.contexts.setIfInBounds extra m.context })
    | _, _ => .error .notOffered

/-- Carries out a command on a context alone. -/
def onContext (s : Session) (index : Nat) (context : Option Nat)
    (act : Context → Reply × Context) : Outcome :=
  s.onMachine index context fun m =>
    let (reply, c) := act m.context
    some (.ok reply, { m with context := c })

/-- Carries out a command on a program. -/
def onProgram (s : Session) (index : Nat)
    (act : Program → Option (Except Fault Reply × Program)) : Outcome :=
  match s.sheets[index]? with
  | some (.program p) =>
    match act p with
    | none => .error .stepLimit
    | some (reply, p) => .ok (reply, s.setSheet index (.program p))
  | _ => .error .notOffered

/-- Answers a question about a graph. -/
def ask (s : Session) (index : Nat) (answer : Sheet → Except Fault Reply) : Outcome :=
  match s.sheets[index]? with
  | some sheet => .ok (answer sheet, s)
  | none => .error .notOffered

/-- Changes a graph, unless a fault keeps it as it is. -/
def change (s : Session) (index : Nat) (act : Sheet → Except Fault (Reply × Sheet)) : Outcome :=
  match s.sheets[index]? with
  | none => .error .notOffered
  | some sheet =>
    match act sheet with
    | .error fault => .ok (.error fault, s)
    | .ok (reply, sheet) => .ok (.ok reply, s.setSheet index sheet)

/-- An operation of an engine that a fault leaves as it is. -/
def orUnchanged (e : Engine) : Except Fault (Reply × Engine) → Except Fault Reply × Engine
  | .error fault => (.error fault, e)
  | .ok (reply, e) => (.ok reply, e)

/-- Adds a copy of a node of one graph to another. -/
def copyNode (s : Session) (source : Nat) (id : NodeId) (target : Nat) : Outcome :=
  match s.sheets[source]?, s.sheets[target]? with
  | some sheet, some other =>
    match sheet.graph.node id with
    | .error fault => .ok (.error fault, s)
    | .ok node =>
      let (id, other) := other.add node
      .ok (.ok (.index id), s.setSheet target other)
  | _, _ => .error .notOffered

/-- Exchanges the own context of a graph with an extra one. -/
def swapContext (s : Session) (index extra : Nat) : Outcome :=
  match s.sheets[index]?, s.contexts[extra]? with
  | some sheet, some c =>
    match sheet.engine? with
    | none => .error .notOffered
    | some e =>
      .ok (.ok .done,
        { s.setSheet index (sheet.withEngine { e with context := c }) with
          contexts := s.contexts.setIfInBounds extra e.context })
  | _, _ => .error .notOffered

/-- The context a command names: an extra one, or the own one of a graph. -/
def context? (s : Session) (index : Nat) (context : Option Nat) : Option Context :=
  match context with
  | some extra => s.contexts[extra]?
  | none => (s.sheets[index]?.bind Sheet.engine?).map (·.context)

/-- Carries out a command on the graph at a position. Runs are given `limit` steps each. -/
def perform (limit : Nat) (s : Session) (index : Nat) : Command → Outcome
  | .add node => s.change index fun sheet =>
    let (id, sheet) := sheet.add node
    .ok (.index id, sheet)
  | .addChain node count output input =>
    match s.sheets[index]? with
    | none => .error .notOffered
    | some sheet =>
      let first := sheet.graph.size
      let (result, sheet) := sheet.addChain node output input count none
      .ok (result.map fun _ => .span first (first + count - 1), s.setSheet index sheet)
  | .copyNode id target => s.copyNode index id target
  | .connect link => s.change index fun sheet => (sheet.connect link).map (.done, ·)
  | .disconnect target => s.change index fun sheet =>
    (sheet.disconnect target).map fun (source, sheet) => (.source source, sheet)
  | .setLiteral addr value => s.onEngine index fun e =>
    orUnchanged e ((e.setLiteral addr value).map (.done, ·))
  | .links => s.ask index fun sheet => .ok (.links sheet.graph.links)
  | .successors addr => s.ask index fun sheet => .ok (.ids (sheet.graph.successors addr))
  | .size => s.ask index fun sheet => .ok (.size sheet.graph.size)
  | .node id => s.ask index fun sheet => (sheet.graph.node id).map .node
  | .nodes => s.ask index fun sheet => .ok (.nodes sheet.graph.nodes)
  | .relabel id newId title =>
    match s.sheets[index]? with
    | some (.wiring g) =>
      match g.relabel id newId title with
      | .error fault => .ok (.error fault, s)
      | .ok g => .ok (.ok .done, s.setSheet index (.wiring g))
    | _ => .error .notOffered
  | .copySheet =>
    match s.sheets[index]? with
    | none => .error .notOffered
    | some sheet =>
      let (position, s) := s.copySheet sheet
      .ok (.ok (.index position), s)
  | .openSheet kind config =>
    let (position, s) := s.openSheet kind config
    .ok (.ok (.index position), s)
  | .execute start context => s.onMachine index context fun m =>
    (m.execute limit start).map fun (result, m) => (result.map .index, m)
  | .executeNodes ids => s.onEngineWithin index fun e =>
    (e.executeNodes limit ids).map fun (result, e) => (result.map fun _ => .done, e)
  | .executeOutputs addrs => s.onEngineWithin index fun e =>
    (e.executeOutputs limit addrs).map fun (result, e) => (result.map fun _ => .done, e)
  | .setEntry id => s.onProgram index fun p =>
    match p.setEntry id with
    | .error fault => some (.error fault, p)
    | .ok p => some (.ok .done, p)
  | .entry => s.onProgram index fun p => some (.ok (.node? p.entry), p)
  | .run => s.onProgram index fun p =>
    (p.run limit).map fun (result, p) => (result.map .node?, p)
  | .getValue addr context => s.onMachine index context fun m =>
    let (result, e) := m.engine.getValue addr m.context
    some (result.map .value, { m with engine := e })
  | .outputValue addr => s.onEngine index fun e => ((e.outputValue addr).map .value, e)
  | .pullOutput addr context => s.onMachine index (some context) fun m =>
    let (result, e) := m.engine.pullOutput addr m.context
    some (result.map .value, { m with engine := e })
  | .getValues addrs => s.onEngine index fun e =>
    let (result, e) := e.getValues addrs
    (result.map .values, e)
  | .pullOutputs addrs => s.onEngine index fun e =>
    let (result, e) := e.pullOutputs addrs
    (result.map .values, e)
  | .openEpoch => s.onEngine index fun e =>
    let e := e.openEpoch
    (.ok (.epoch e.epoch.number), e)
  | .invalidate => s.onEngine index fun e => (.ok .done, e.invalidate)
  | .invalidateOnce marker => s.onEngine index fun e =>
    let (fresh, e) := e.invalidateOnce marker
    (.ok (.flag fresh), e)
  | .marker => s.onEngine index fun e => (.ok (.marker e.marker), e)
  | .hitRatio => s.onEngine index fun e => (.ok (.ratio e.statistics.hitRatio), e)
  | .resetStatistics => s.onEngine index fun e => (.ok .done, e.resetStatistics)
  | .setConfig config => s.onEngine index fun e => (.ok .done, { e with config })
  | .config => s.onEngine index fun e => (.ok (.config e.config), e)
  | .newContext =>
    let (position, s) := s.addContext .empty #[]
    .ok (.ok (.index position), s)
  | .copyContext context =>
    match s.context? index context with
    | none => .error .notOffered
    | some c =>
      let (position, s) := s.addContext c.locals c.printed
      .ok (.ok (.index position), s)
  | .swapContext extra => s.swapContext index extra
  | .setLocal name value context =>
    s.onContext index context fun c => (.done, c.setLocal name value)
  | .getLocal name context =>
    s.onContext index context fun c => (.value? (c.locals.get? name), c)
  | .clearLocals context => s.onContext index context fun c => (.done, c.clearLocals)
  | .showContext context => s.onContext index context fun c => (.context c, c)
  | .takePrinted context => s.onContext index context fun c =>
    let (lines, c) := c.takePrinted
    (.lines lines, c)

/-- Puts the epoch counter of a graph at a number and touches nothing else. -/
def placeEpoch (s : Session) (index : Nat) (number : Int) : Session :=
  match s.sheets[index]? with
  | none => s
  | some sheet =>
    match sheet.engine? with
    | none => s
    | some e => s.setSheet index (sheet.withEngine { e with epoch := ⟨number⟩ })

/-- Hands out the journal of a graph and starts a new one. -/
def takeJournal (s : Session) (index : Nat) : Array Event × Session :=
  match s.sheets[index]? with
  | none => (#[], s)
  | some sheet =>
    match sheet.engine? with
    | none => (#[], s)
    | some e =>
      let (events, e) := e.takeJournal
      (events, s.setSheet index (sheet.withEngine e))

end Session

end NodeGraph
