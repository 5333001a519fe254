import NodeGraph.Proofs.Run.Valid
import NodeGraph.Proofs.Session.Outcome

/-!
# Invariants of sessions

What every operation of an engine keeps holds of every engine of a session that was reached by
commands from the empty one (`Session.Reachable.holds`). So all these engines are valid.
-/

namespace NodeGraph

/-- A property of engines that every operation keeps, on well-formed graphs. -/
structure EngineInvariant (P : Engine → Prop) : Prop where
  wellFormed : ∀ {e}, P e → e.graph.WellFormed
  new : ∀ context config, P { context, config }
  /-- The context, the marker and what is recorded do not matter. -/
  beside : ∀ {e : Engine} context marker statistics config journal, P e →
    P { e with context, marker, statistics, config, journal }
  addNode : ∀ {e node}, P e → node.LaidOut → P (e.addNode node).2
  connect : ∀ {e e' link}, P e → e.connect link = .ok e' → P e'
  disconnect : ∀ {e e' target source}, P e → e.disconnect target = .ok (source, e') → P e'
  setLiteral : ∀ {e e' addr value}, P e → e.setLiteral addr value = .ok e' → P e'
  openEpoch : ∀ {e}, P e → P e.openEpoch
  invalidate : ∀ {e}, P e → P e.invalidate
  getValue : ∀ {e addr context}, P e → P (e.getValue addr context).2
  pullOutput : ∀ {e addr context}, P e → P (e.pullOutput addr context).2
  execute : ∀ {limit m m' start result}, P m.engine →
    Machine.execute limit m start = some (result, m') → P m'.engine

/-- Bare wiring is well formed, and other graphs have engines with the property. -/
def Sheet.Holds (P : Engine → Prop) : Sheet → Prop
  | wiring g => g.WellFormed
  | engine e => P e
  | program p => P p.engine

/-- Every graph of the session has the property. -/
def Session.Holds (P : Engine → Prop) (s : Session) : Prop :=
  ∀ (index : Nat) (sheet : Sheet), s.sheets[index]? = some sheet → sheet.Holds P

/-- The node that a command brings along. -/
def Command.brings? : Command → Option Node
  | .add added => some added
  | .addChain added _ _ _ => some added
  | _ => none

/-- What a command brings along has the ports of its kind. -/
def Command.LaidOut (command : Command) : Prop := ∀ node ∈ command.brings?, node.LaidOut

instance (command : Command) : Decidable command.LaidOut :=
  inferInstanceAs (Decidable (∀ node ∈ command.brings?, node.LaidOut))

/-- The sessions that commands lead to. -/
inductive Session.Reachable : Session → Prop where
  | empty : Reachable {}
  | perform {s s' : Session} {limit index : Nat} {command : Command} {reply : Except Fault Reply} :
    s.Reachable → command.LaidOut → s.perform limit index command = .ok (reply, s') → s'.Reachable
  | takeJournal {s : Session} (index : Nat) : s.Reachable → (s.takeJournal index).2.Reachable

/-- The engine of the graph at a position. -/
def Session.engine? (s : Session) (index : Nat) : Option Engine :=
  s.sheets[index]?.bind Sheet.engine?

/-- The engines of such sessions. -/
def Engine.Reachable (e : Engine) : Prop :=
  ∃ (s : Session) (index : Nat), s.Reachable ∧ s.engine? index = some e

theorem eq_ok_of_toOption {ε α : Type} {result : Except ε α} {a : α}
    (got : result.toOption = some a) : result = .ok a := by
  cases result with
  | error fault => cases got
  | ok b => exact congrArg Except.ok (Option.some.inj got)

theorem map_eq_ok {ε α β : Type} {result : Except ε α} {f : α → β} {b : β}
    (mapped : result.map f = .ok b) : ∃ a, result = .ok a ∧ f a = b := by
  cases result with
  | error fault => cases mapped
  | ok a => exact ⟨a, rfl, Except.ok.inj mapped⟩

/-- Carries out commands on the first graph; those that are refused do nothing. -/
def Session.script (limit : Nat) : List Command → Session → Session
  | [], s => s
  | command :: rest, s =>
    match s.perform limit 0 command with
    | .ok (_, s) => script limit rest s
    | .error _ => script limit rest s

/-- What every command keeps, a script keeps. -/
theorem Session.script_keeps {P : Session → Prop} {limit : Nat}
    (keeps : ∀ {s s' command reply}, P s → Command.LaidOut command →
      s.perform limit 0 command = .ok (reply, s') → P s')
    {commands : List Command} (laid : ∀ command ∈ commands, command.LaidOut) {s : Session}
    (h : P s) : P (s.script limit commands) := by
  induction commands generalizing s with
  | nil => exact h
  | cons command rest ih =>
    have others : ∀ command ∈ rest, command.LaidOut :=
      fun other member => laid other (List.mem_cons_of_mem command member)
    unfold Session.script
    split
    next performed => exact ih others (keeps h (laid command List.mem_cons_self) performed)
    next => exact ih others h

theorem Session.Reachable.script {s : Session} (reachable : s.Reachable) (limit : Nat)
    {commands : List Command} (laid : ∀ command ∈ commands, command.LaidOut) :
    (s.script limit commands).Reachable :=
  Session.script_keeps (fun reachable laid performed => reachable.perform laid performed) laid
    reachable

/-- The engine that commands build, the first of which opens its graph. -/
def Engine.built (commands : List Command) : Engine :=
  ((Session.script 0 commands {}).engine? 0).getD { context := { id := 0 } }

theorem Engine.reachable_built {commands : List Command}
    (laid : ∀ command ∈ commands, command.LaidOut)
    (opened : ((Session.script 0 commands {}).engine? 0).isSome = true) :
    (Engine.built commands).Reachable := by
  refine ⟨_, 0, Session.Reachable.empty.script 0 laid, ?_⟩
  obtain ⟨e, has⟩ := Option.isSome_iff_exists.mp opened
  rw [built, has, Option.getD_some]

variable {P : Engine → Prop}

namespace Engine

variable {e e' : Engine}

/-- What every run from one node keeps, runs from several nodes keep. -/
theorem executeNodes_keeps {limit : Nat} {ids : List NodeId} {result : Except Fault Unit} (he : P e)
    (one : ∀ {e e' start result}, P e → e.execute limit start = some (result, e') → P e')
    (executed : e.executeNodes limit ids = some (result, e')) : P e' := by
  induction ids generalizing e with
  | nil =>
    obtain ⟨-, rfl⟩ := Prod.mk.inj (Option.some.inj executed)
    exact he
  | cons id rest ih =>
    unfold Engine.executeNodes at executed
    split at executed
    · cases executed
    next first =>
      obtain ⟨-, rfl⟩ := Prod.mk.inj (Option.some.inj executed)
      exact one he first
    next first => exact ih (one he first) executed

theorem executeOutputs_keeps {limit : Nat} {addrs : List OutputAddr} {result : Except Fault Unit}
    (he : P e) (one : ∀ {e e' start result}, P e → e.execute limit start = some (result, e') → P e')
    (executed : e.executeOutputs limit addrs = some (result, e')) : P e' := by
  induction addrs generalizing e with
  | nil =>
    obtain ⟨-, rfl⟩ := Prod.mk.inj (Option.some.inj executed)
    exact he
  | cons addr rest ih =>
    unfold Engine.executeOutputs at executed
    split at executed
    · cases executed
    next first =>
      obtain ⟨-, rfl⟩ := Prod.mk.inj (Option.some.inj executed)
      exact executeNodes_keeps he one first
    next first => exact ih (executeNodes_keeps he one first) executed

end Engine

namespace EngineInvariant

variable {e e' : Engine}

section Operations

variable (inv : EngineInvariant P)

include inv

theorem invalidateOnce {marker : Nat} (he : P e) : P (e.invalidateOnce marker).2 := by
  unfold Engine.invalidateOnce
  split
  · exact he
  · exact inv.beside _ (some marker) _ _ _ (inv.invalidate he)

omit inv in
theorem collect {α : Type} {f : α → Engine → Except Fault Value × Engine}
    (keeps : ∀ a e, P e → P (f a e).2) (requests : List α) (he : P e) :
    P (Engine.collect f requests e).2 := by
  induction requests generalizing e with
  | nil => exact he
  | cons a rest ih =>
    have first := keeps a e he
    have others := ih first
    unfold Engine.collect
    split
    next fault e' answered =>
      rw [answered] at first
      exact first
    next value e' answered =>
      rw [answered] at others
      split
      next collected =>
        rw [collected] at others
        exact others
      next collected =>
        rw [collected] at others
        exact others

theorem getValues {addrs : List InputAddr} (he : P e) : P (e.getValues addrs).2 :=
  collect (fun _ _ he => inv.getValue he) addrs (inv.openEpoch he)

theorem pullOutputs {addrs : List OutputAddr} (he : P e) : P (e.pullOutputs addrs).2 :=
  collect (fun _ _ he => inv.pullOutput he) addrs (inv.openEpoch he)

variable {limit : Nat}

/-- A run for the engine's own context. -/
theorem executeOwn {start : NodeId} {result : Except Fault NodeId} (he : P e)
    (executed : e.execute limit start = some (result, e')) : P e' := by
  obtain ⟨⟨result, m⟩, ended, equal⟩ := Option.map_eq_some_iff.mp executed
  obtain ⟨-, rfl⟩ := Prod.mk.inj equal
  exact inv.beside m.context _ _ _ _ (inv.execute (m := ⟨e, e.context⟩) he ended)

theorem run {p p' : Program} {result : Except Fault (Option NodeId)} (hp : P p.engine)
    (ran : p.run limit = some (result, p')) : P p'.engine := by
  unfold Program.run at ran
  split at ran
  · obtain ⟨-, rfl⟩ := Prod.mk.inj (Option.some.inj ran)
    exact inv.beside p.engine.context p.engine.marker _ _ _ hp
  · obtain ⟨⟨result, e⟩, executed, equal⟩ := Option.map_eq_some_iff.mp ran
    obtain ⟨-, rfl⟩ := Prod.mk.inj equal
    exact inv.executeOwn hp executed

end Operations

end EngineInvariant

namespace Sheet.Holds

variable {sheet : Sheet} {e : Engine}

theorem of_engine? (h : sheet.Holds P) (has : sheet.engine? = some e) : P e := by
  cases sheet with
  | wiring g => cases has
  | engine e => exact Option.some.inj has ▸ h
  | program p => exact Option.some.inj has ▸ h

theorem withEngine (h : sheet.Holds P) (he : P e) : (sheet.withEngine e).Holds P := by
  cases sheet with
  | wiring g => exact h
  | engine e => exact he
  | program p => exact he

theorem wellFormed (inv : EngineInvariant P) (h : sheet.Holds P) : sheet.graph.WellFormed := by
  cases sheet with
  | wiring g => exact h
  | engine e => exact inv.wellFormed h
  | program p => exact inv.wellFormed h

theorem add (inv : EngineInvariant P) (h : sheet.Holds P) {node : Node} (laid : node.LaidOut) :
    (sheet.add node).2.Holds P := by
  cases sheet with
  | wiring g => exact Graph.WellFormed.add h laid
  | engine e => exact inv.addNode h laid
  | program p => exact inv.addNode h laid

theorem connect (inv : EngineInvariant P) (h : sheet.Holds P) {link : Link} {sheet' : Sheet}
    (connected : sheet.connect link = .ok sheet') : sheet'.Holds P := by
  cases sheet with
  | wiring g =>
    obtain ⟨g', changed, rfl⟩ := map_eq_ok connected
    exact Graph.WellFormed.connect h changed
  | engine e =>
    obtain ⟨e', changed, rfl⟩ := map_eq_ok connected
    exact inv.connect h changed
  | program p =>
    obtain ⟨e', changed, rfl⟩ := map_eq_ok connected
    exact inv.connect h changed

theorem disconnect (inv : EngineInvariant P) (h : sheet.Holds P) {target : InputAddr}
    {source : Option OutputAddr} {sheet' : Sheet}
    (disconnected : sheet.disconnect target = .ok (source, sheet')) : sheet'.Holds P := by
  cases sheet with
  | wiring g =>
    obtain ⟨⟨source, g'⟩, changed, equal⟩ := map_eq_ok disconnected
    obtain ⟨rfl, rfl⟩ := Prod.mk.inj equal
    exact Graph.WellFormed.disconnect h changed
  | engine e =>
    obtain ⟨⟨source, e'⟩, changed, equal⟩ := map_eq_ok disconnected
    obtain ⟨rfl, rfl⟩ := Prod.mk.inj equal
    exact inv.disconnect h changed
  | program p =>
    obtain ⟨⟨source, e'⟩, changed, equal⟩ := map_eq_ok disconnected
    obtain ⟨rfl, rfl⟩ := Prod.mk.inj equal
    exact inv.disconnect h changed

theorem addChain (inv : EngineInvariant P) (h : sheet.Holds P) {node : Node} (laid : node.LaidOut)
    (output input : PortId) (count : Nat) (previous : Option NodeId) :
    (sheet.addChain node output input count previous).2.Holds P := by
  induction count generalizing sheet previous with
  | zero => exact h
  | succ count ih =>
    have added := h.add inv laid
    unfold Sheet.addChain
    dsimp only
    cases previous with
    | none => exact ih added _
    | some previous =>
      dsimp only
      split
      · exact added
      next connected => exact ih (added.connect inv connected) _

end Sheet.Holds

namespace Session

variable {s s' : Session} {index : Nat} {reply : Except Fault Reply}

theorem Holds.setSheet (h : s.Holds P) (index : Nat) {sheet : Sheet} (hs : sheet.Holds P) :
    (s.setSheet index sheet).Holds P := by
  intro other found place
  rw [Session.setSheet, Array.getElem?_setIfInBounds] at place
  split at place
  · split at place
    · obtain rfl := Option.some.inj place
      exact hs
    · cases place
  · exact h other found place

/-- The positions of contexts and their identities do not matter. -/
theorem Holds.of_sheets (h : s.Holds P) (sheets : s'.sheets = s.sheets) : s'.Holds P := by
  intro other found place
  rw [sheets] at place
  exact h other found place

theorem Holds.push (h : s.Holds P) {sheet : Sheet} (hs : sheet.Holds P)
    (sheets : s'.sheets = s.sheets.push sheet) : s'.Holds P := by
  intro other found place
  rw [sheets, Array.getElem?_push] at place
  split at place
  · obtain rfl := Option.some.inj place
    exact hs
  · exact h other found place

theorem Holds.onEngine (h : s.Holds P) {act : Engine → Except Fault Reply × Engine}
    (keeps : ∀ e, P e → P (act e).2) (performed : s.onEngine index act = .ok (reply, s')) :
    s'.Holds P := by
  obtain ⟨sheet, e, found, has, _, rfl⟩ := onEngine_eq_ok_iff.mp performed
  have hs := h index sheet found
  exact h.setSheet index (hs.withEngine (keeps e (hs.of_engine? has)))

theorem Holds.onEngineWithin (h : s.Holds P) {act : Engine → Option (Except Fault Reply × Engine)}
    (keeps : ∀ e reply e', P e → act e = some (reply, e') → P e')
    (performed : s.onEngineWithin index act = .ok (reply, s')) : s'.Holds P := by
  obtain ⟨sheet, e, e', found, has, acted, rfl⟩ := onEngineWithin_eq_ok_iff.mp performed
  have hs := h index sheet found
  exact h.setSheet index (hs.withEngine (keeps e _ e' (hs.of_engine? has) acted))

theorem Holds.onMachine (inv : EngineInvariant P) (h : s.Holds P) {context : Option Nat}
    {act : Machine → Option (Except Fault Reply × Machine)}
    (keeps : ∀ m reply m', P m.engine → act m = some (reply, m') → P m'.engine)
    (performed : s.onMachine index context act = .ok (reply, s')) : s'.Holds P := by
  cases context with
  | none =>
    obtain ⟨sheet, e, m', found, has, acted, rfl⟩ := onMachine_own_eq_ok_iff.mp performed
    have hs := h index sheet found
    have kept := keeps ⟨e, e.context⟩ _ m' (hs.of_engine? has) acted
    exact h.setSheet index (hs.withEngine (inv.beside m'.context _ _ _ _ kept))
  | some extra =>
    obtain ⟨sheet, e, c, m', found, has, _, acted, rfl⟩ := onMachine_extra_eq_ok_iff.mp performed
    have hs := h index sheet found
    have kept := keeps ⟨e, c⟩ _ m' (hs.of_engine? has) acted
    exact (h.setSheet index (hs.withEngine kept)).of_sheets rfl

theorem Holds.onContext (inv : EngineInvariant P) (h : s.Holds P) {context : Option Nat}
    {act : Context → Reply × Context}
    (performed : s.onContext index context act = .ok (reply, s')) : s'.Holds P := by
  refine h.onMachine inv ?_ performed
  intro m reply m' hm acted
  obtain ⟨-, rfl⟩ := Prod.mk.inj (Option.some.inj acted)
  exact hm

theorem Holds.onProgram (h : s.Holds P) {act : Program → Option (Except Fault Reply × Program)}
    (keeps : ∀ p reply p', P p.engine → act p = some (reply, p') → P p'.engine)
    (performed : s.onProgram index act = .ok (reply, s')) : s'.Holds P := by
  obtain ⟨p, p', found, acted, rfl⟩ := onProgram_eq_ok_iff.mp performed
  have kept : Sheet.Holds P (.program p') := keeps p _ p' (h index _ found) acted
  exact h.setSheet index kept

theorem Holds.ask (h : s.Holds P) {answer : Sheet → Except Fault Reply}
    (performed : s.ask index answer = .ok (reply, s')) : s'.Holds P := by
  obtain ⟨_, rfl⟩ := ask_eq_ok_iff.mp performed
  exact h

theorem Holds.change (h : s.Holds P) {act : Sheet → Except Fault (Reply × Sheet)}
    (keeps : ∀ sheet reply sheet', sheet.Holds P → act sheet = .ok (reply, sheet') →
      sheet'.Holds P)
    (performed : s.change index act = .ok (reply, s')) : s'.Holds P := by
  obtain ⟨sheet, found, ⟨_, _, _, rfl⟩ | ⟨answer, sheet', acted, _, rfl⟩⟩ :=
    change_eq_ok_iff.mp performed
  · exact h
  · exact h.setSheet index (keeps sheet _ sheet' (h index sheet found) acted)

theorem Holds.copyNode (inv : EngineInvariant P) (h : s.Holds P) {id : NodeId} {target : Nat}
    (performed : s.copyNode index id target = .ok (reply, s')) : s'.Holds P := by
  obtain ⟨sheet, other, found, there, ⟨_, _, _, rfl⟩ | ⟨node, place, _, rfl⟩⟩ :=
    copyNode_eq_ok_iff.mp performed
  · exact h
  · have laid := ((h index sheet found).wellFormed inv).laidOut (Graph.node_eq_ok_iff.mp place)
    exact h.setSheet target ((h target other there).add inv laid)

theorem Holds.relabel (h : s.Holds P) (limit : Nat) {id : NodeId} {newId : Option NodeId}
    {title : Option String}
    (performed : s.perform limit index (.relabel id newId title) = .ok (reply, s')) :
    s'.Holds P := by
  obtain ⟨g, found, ⟨_, _, _, rfl⟩ | ⟨g', changed, _, rfl⟩⟩ := relabel_eq_ok_iff.mp performed
  · exact h
  · have kept : Sheet.Holds P (.wiring g') := Graph.WellFormed.relabel (h index _ found) changed
    exact h.setSheet index kept

theorem Holds.setEntry (h : s.Holds P) (limit : Nat) {id : NodeId}
    (performed : s.perform limit index (.setEntry id) = .ok (reply, s')) : s'.Holds P := by
  obtain ⟨p, found, ⟨_, _, _, rfl⟩ | ⟨_, _, _, rfl⟩⟩ := setEntry_eq_ok_iff.mp performed
  · exact h.setSheet index (h index _ found)
  · have he : P p.engine := h index (.program p) found
    have kept : Sheet.Holds P (.program { p with entry := some id }) := he
    exact h.setSheet index kept

theorem Holds.swapContext (inv : EngineInvariant P) (h : s.Holds P) {extra : Nat}
    (performed : s.swapContext index extra = .ok (reply, s')) : s'.Holds P := by
  obtain ⟨sheet, e, c, found, has, _, _, rfl⟩ := swapContext_eq_ok_iff.mp performed
  have hs := h index sheet found
  have he := inv.beside c e.marker e.statistics e.config e.journal (hs.of_engine? has)
  exact (h.setSheet index (hs.withEngine he)).of_sheets rfl

theorem Holds.perform (inv : EngineInvariant P) (h : s.Holds P) {limit : Nat} {command : Command}
    (laid : command.LaidOut) (performed : s.perform limit index command = .ok (reply, s')) :
    s'.Holds P := by
  cases command with dsimp only [Session.perform] at performed
  | add node =>
    refine h.change ?_ performed
    intro sheet _ sheet' hs acted
    obtain ⟨-, rfl⟩ := Prod.mk.inj (Except.ok.inj acted)
    exact hs.add inv (laid node rfl)
  | addChain node count output input =>
    split at performed
    · cases performed
    next sheet found =>
      obtain ⟨-, rfl⟩ := Prod.mk.inj (Except.ok.inj performed)
      have chained := (h index sheet found).addChain inv (laid node rfl) output input count none
      exact h.setSheet index chained
  | copyNode id target => exact h.copyNode inv performed
  | connect link =>
    refine h.change ?_ performed
    intro sheet _ sheet' hs acted
    obtain ⟨after, connected, equal⟩ := map_eq_ok acted
    obtain ⟨-, rfl⟩ := Prod.mk.inj equal
    exact hs.connect inv connected
  | disconnect target =>
    refine h.change ?_ performed
    intro sheet _ sheet' hs acted
    obtain ⟨⟨source, after⟩, disconnected, equal⟩ := map_eq_ok acted
    obtain ⟨-, rfl⟩ := Prod.mk.inj equal
    exact hs.disconnect inv disconnected
  | setLiteral addr value =>
    refine h.onEngine ?_ performed
    intro e he
    cases set : e.setLiteral addr value with
    | error fault => exact he
    | ok e' => exact inv.setLiteral he set
  | links | successors addr | size | node id | nodes => exact h.ask performed
  | relabel id newId title => exact h.relabel limit performed
  | copySheet =>
    split at performed
    · cases performed
    next sheet found =>
      obtain ⟨-, rfl⟩ := Prod.mk.inj (Except.ok.inj performed)
      have hs := h index sheet found
      refine h.push ?_ rfl
      cases has : sheet.engine? with
      | none => exact hs
      | some e => exact hs.withEngine (inv.beside _ e.marker _ _ _ (hs.of_engine? has))
  | openSheet kind config =>
    obtain ⟨-, rfl⟩ := Prod.mk.inj (Except.ok.inj performed)
    refine h.push ?_ rfl
    cases kind with
    | wiring => exact Graph.wellFormed_empty
    | engine => exact inv.new _ config
    | program => exact inv.new _ config
  | execute start context =>
    refine h.onMachine inv ?_ performed
    intro m _ m' hm acted
    obtain ⟨⟨result, after⟩, executed, equal⟩ := Option.map_eq_some_iff.mp acted
    obtain ⟨-, rfl⟩ := Prod.mk.inj equal
    exact inv.execute hm executed
  | executeNodes ids =>
    refine h.onEngineWithin ?_ performed
    intro e _ e' he acted
    obtain ⟨⟨result, after⟩, executed, equal⟩ := Option.map_eq_some_iff.mp acted
    obtain ⟨-, rfl⟩ := Prod.mk.inj equal
    exact Engine.executeNodes_keeps he inv.executeOwn executed
  | executeOutputs addrs =>
    refine h.onEngineWithin ?_ performed
    intro e _ e' he acted
    obtain ⟨⟨result, after⟩, executed, equal⟩ := Option.map_eq_some_iff.mp acted
    obtain ⟨-, rfl⟩ := Prod.mk.inj equal
    exact Engine.executeOutputs_keeps he inv.executeOwn executed
  | setEntry id => exact h.setEntry limit performed
  | entry =>
    refine h.onProgram ?_ performed
    intro p _ p' hp acted
    obtain ⟨-, rfl⟩ := Prod.mk.inj (Option.some.inj acted)
    exact hp
  | run =>
    refine h.onProgram ?_ performed
    intro p _ p' hp acted
    obtain ⟨⟨result, after⟩, ran, equal⟩ := Option.map_eq_some_iff.mp acted
    obtain ⟨-, rfl⟩ := Prod.mk.inj equal
    exact inv.run hp ran
  | getValue addr context =>
    refine h.onMachine inv ?_ performed
    intro m _ m' hm acted
    obtain ⟨-, rfl⟩ := Prod.mk.inj (Option.some.inj acted)
    exact inv.getValue hm
  | outputValue addr => exact h.onEngine (fun _ he => he) performed
  | pullOutput addr context =>
    refine h.onMachine inv ?_ performed
    intro m _ m' hm acted
    obtain ⟨-, rfl⟩ := Prod.mk.inj (Option.some.inj acted)
    exact inv.pullOutput hm
  | getValues addrs => exact h.onEngine (fun _ he => inv.getValues he) performed
  | pullOutputs addrs => exact h.onEngine (fun _ he => inv.pullOutputs he) performed
  | openEpoch => exact h.onEngine (fun _ he => inv.openEpoch he) performed
  | invalidate => exact h.onEngine (fun _ he => inv.invalidate he) performed
  | invalidateOnce marker => exact h.onEngine (fun _ he => inv.invalidateOnce he) performed
  | marker | hitRatio | config => exact h.onEngine (fun _ he => he) performed
  | resetStatistics =>
    exact h.onEngine (fun e he => inv.beside e.context e.marker _ e.config e.journal he) performed
  | setConfig config =>
    exact h.onEngine (fun e he => inv.beside e.context e.marker _ _ e.journal he) performed
  | newContext =>
    obtain ⟨-, rfl⟩ := Prod.mk.inj (Except.ok.inj performed)
    exact h.of_sheets rfl
  | copyContext context =>
    split at performed
    · cases performed
    · obtain ⟨-, rfl⟩ := Prod.mk.inj (Except.ok.inj performed)
      exact h.of_sheets rfl
  | swapContext extra => exact h.swapContext inv performed
  | setLocal name value context | getLocal name context | clearLocals context
  | showContext context | takePrinted context => exact h.onContext inv performed

theorem Holds.takeJournal (inv : EngineInvariant P) (h : s.Holds P) (index : Nat) :
    (s.takeJournal index).2.Holds P := by
  unfold Session.takeJournal
  split
  · exact h
  next sheet found =>
    split
    · exact h
    next e has =>
      have hs := h index sheet found
      have he := inv.beside e.context e.marker e.statistics e.config #[] (hs.of_engine? has)
      exact h.setSheet index (hs.withEngine he)

/-- The property holds of all engines of every session that commands lead to. -/
theorem Reachable.holds (inv : EngineInvariant P) (reachable : s.Reachable) : s.Holds P := by
  induction reachable with
  | empty =>
    intro index sheet found
    simp at found
  | perform _ laid performed h => exact h.perform inv laid performed
  | takeJournal index _ h => exact h.takeJournal inv index

end Session

theorem Engine.Reachable.holds {e : Engine} (inv : EngineInvariant P) (reachable : e.Reachable) :
    P e := by
  obtain ⟨s, index, reachable, has⟩ := reachable
  obtain ⟨sheet, found, has⟩ := Option.bind_eq_some_iff.mp has
  exact (reachable.holds inv index sheet found).of_engine? has

/-- Every operation keeps an engine valid. -/
theorem valid_invariant : EngineInvariant Engine.Valid where
  wellFormed valid := valid.wellFormed
  new := Engine.Valid.new
  beside _ _ _ _ _ valid := valid.of_eq rfl rfl rfl
  addNode valid laid := valid.addNode laid
  connect valid connected := valid.connect connected
  disconnect valid disconnected := valid.disconnect disconnected
  setLiteral valid set := valid.setLiteral set
  openEpoch valid := valid.openEpoch.1
  invalidate valid := valid.invalidate
  getValue valid := valid.getValue _ _
  pullOutput valid := valid.pullOutput _ _
  execute valid executed := (Machine.works_execute valid executed).1

theorem Engine.Reachable.valid {e : Engine} (reachable : e.Reachable) : e.Valid :=
  reachable.holds valid_invariant

end NodeGraph
