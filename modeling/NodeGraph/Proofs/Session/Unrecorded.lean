import NodeGraph.Proofs.Run.Unrecorded
import NodeGraph.Proofs.Session.Isolation
import NodeGraph.Proofs.Session.Pair

/-!
# Settings cannot be observed

Whatever the settings say that a graph records, it gives the same answers, prints the same lines
and is left with the same values, stamps and counts of its nodes
(`Session.Reachable.configs_unobservable`). Only what is recorded shows them: the statistics, their
hit ratio and the journal, and the settings themselves.
-/

namespace NodeGraph

/-- The graph without the record of its engine. -/
def Sheet.unrecorded : Sheet → Sheet
  | wiring g => wiring g
  | engine e => engine e.unrecorded
  | program p => program { p with engine := p.engine.unrecorded }

/-- The answer without what is read off a record. -/
def Reply.unrecorded : Reply → Reply
  | ratio _ => ratio 0
  | config _ => config {}
  | reply => reply

/-- The command with the default settings in place of those it gives. -/
def Command.unrecorded : Command → Command
  | openSheet kind _ => openSheet kind {}
  | setConfig _ => setConfig {}
  | command => command

theorem Command.unrecorded_eq (command : Command) :
    command.unrecorded = command.mapConfig fun _ => {} := by
  cases command <;> rfl

/-- Graphs without their records are the same if they are but for the records of their engines. -/
theorem Sheet.unrecorded_eq_iff {sheet sheet' : Sheet} :
    sheet'.unrecorded = sheet.unrecorded ↔ sheet.Related Eq Engine.Reconfigured sheet' := by
  constructor
  · intro same
    cases sheet with
    | wiring g =>
      cases sheet' with
      | wiring g' => exact .wiring (Sheet.wiring.inj same).symm
      | engine e' => cases same
      | program p' => cases same
    | engine e =>
      cases sheet' with
      | wiring g' => cases same
      | engine e' => exact .engine (Sheet.engine.inj same)
      | program p' => cases same
    | program p =>
      cases sheet' with
      | wiring g' => cases same
      | engine e' => cases same
      | program p' =>
        obtain ⟨e, entry⟩ := p
        obtain ⟨e', entry'⟩ := p'
        obtain ⟨engines, rfl⟩ := Program.mk.inj (Sheet.program.inj same)
        exact .program engines
  · intro related
    cases related with
    | wiring graphs => rw [graphs]
    | engine engines => exact congrArg Sheet.engine engines
    | @program _ _ entry engines => exact congrArg (fun e => Sheet.program ⟨e, entry⟩) engines

namespace Session

/-- The session without the records of its engines. -/
def unrecorded (s : Session) : Session := { s with sheets := s.sheets.map Sheet.unrecorded }

/-- The second session differs from the first one in the records of its engines at most. -/
def Reconfigured (s s' : Session) : Prop := s'.unrecorded = s.unrecorded

theorem reconfigured_iff {s s' : Session} :
    s.Reconfigured s' ↔ s.Alongside (fun _ => Sheet.Related Eq Engine.Reconfigured) s' := by
  have sheets : (∀ index : Nat,
      Option.Rel (Sheet.Related Eq Engine.Reconfigured) s.sheets[index]? s'.sheets[index]?) ↔
      s'.sheets.map Sheet.unrecorded = s.sheets.map Sheet.unrecorded := by
    simp only [← rel_getElem?_iff, Sheet.unrecorded_eq_iff]
  constructor
  · intro same
    have mapped := congrArg Session.sheets same
    have contexts := congrArg Session.contexts same
    have next := congrArg Session.nextContext same
    refine ⟨sheets.mpr mapped, ?_, contexts, next⟩
    simpa [unrecorded] using congrArg Array.size mapped
  · intro h
    unfold Reconfigured unrecorded
    rw [sheets.mp h.sheets, h.contexts, h.next]

/-- Answers that differ in what is read off a record at most. -/
def SameButRecord (answer answer' : Except Fault Reply) : Prop :=
  answer'.map Reply.unrecorded = answer.map Reply.unrecorded

/-- Engines that differ in their records, and everything else the same. -/
def reconfiguring : Likeness where
  answers _ := SameButRecord
  nodes := Eq
  added := Eq
  wirings := Eq
  engines := Engine.Reconfigured
  idle e e' := e.Valid ∧ e.Reconfigured e'
  running m m' := m.engine.Valid ∧ m.Reconfigured m'
  identities := Eq
  extras _ := Context.Corresponds Eq
  named _ := True
  used _ := True
  known _ m _ := m.engine.Valid
  settings _ := {}

namespace reconfiguring

theorem answers : reconfiguring.Answers where
  same _ _ := rfl
  node {n n'} _ same := by
    obtain rfl : n = n' := same
    rfl
  nodes {ns ns'} same := by
    have equal : ns' = ns := by
      refine Array.ext_getElem? fun id => ?_
      rcases relCases (same id) with ⟨none, none'⟩ | ⟨n, n', found, found', equal⟩
      · rw [none, none']
      · rw [found, found', show n = n' from equal]
    rw [equal]
    rfl
  context _ same := by
    rw [Context.corresponds_eq_iff.mp same]
    rfl

theorem engines : reconfiguring.Engines where
  shows {e e'} engines := by
    rw [engines.graph]
    exact .refl (fun _ => rfl) e.graph
  add {e e' n n'} engines same := by
    obtain rfl : n = n' := same
    exact (engines.addNode n).2
  connect engines := engines.connect
  disconnect engines := engines.disconnect
  setLiteral engines := engines.setLiteral
  own engines := Context.corresponds_eq_iff.mpr engines.context
  withContext {_ _ c c'} engines contexts := by
    obtain rfl := Context.corresponds_eq_iff.mp contexts
    have named : Engine.Blind fun e => { e with context := c' } := fun _ => rfl
    exact engines.act named
  log engines event := engines.act (Engine.blind_log event)
  openEpoch {m m'} _ engines := by
    have opened := engines.act Engine.blind_openEpoch
    refine ⟨?_, opened⟩
    rw [opened.epoch]
    rfl
  invalidate engines := engines.act Engine.blind_invalidate
  invalidateOnce engines := engines.invalidateOnce
  marker engines := engines.marker
  hitRatio _ := rfl
  resetStatistics engines := engines
  config _ := rfl
  setConfig engines _ := engines

theorem evaluations : reconfiguring.Evaluations where
  outputValue engines addr := by
    rw [engines.outputValue_eq]
    rfl
  getValue {m m' addr context} _ engines contexts := by
    have same : m'.context = m.context := by
      cases context <;> exact Context.corresponds_eq_iff.mp contexts
    obtain ⟨value, after⟩ := engines.getValue addr m.context
    rw [same, value]
    exact ⟨rfl, after⟩
  pullOutput {m m' addr extra} _ engines contexts := by
    obtain ⟨value, after⟩ := engines.pullOutput addr m.context
    rw [Context.corresponds_eq_iff.mp contexts, value]
    exact ⟨rfl, after⟩
  getValues _ engines := engines.getValues _
  pullOutputs _ engines := engines.pullOutputs _
  runs := reconfigured_runs
  ready _ valid engines contexts := ⟨valid, Context.corresponds_eq_iff.mp contexts, engines⟩
  ended := fun ⟨_, after⟩ => ⟨after.engines, Context.corresponds_eq_iff.mpr after.context⟩

theorem laws : reconfiguring.Lawful where
  answers := answers
  wirings := Likeness.wirings_of_eq rfl (fun _ => rfl) fun same => congrArg _ same.symm
  engines := engines
  evaluations := evaluations
  added _ := rfl
  extras _ := Iff.rfl

end reconfiguring

/-- Graphs and contexts that are put back on both sides keep sessions alike. -/
theorem reconfigured_pair : SessionPair (fun _ => reconfiguring)
    (Alongside fun _ => Sheet.Related Eq Engine.Reconfigured) where
  sheet index :=
    { laws := reconfiguring.laws
      sheet? := fun h => h.sheets index
      setSheet := fun h sheets => h.setSheet sheets
      extra? := fun h _ => h.extra? _
      setExtra := fun h _ contexts => h.setExtra contexts }
  sheetCount h := h.sheetCount
  next h := h.next
  identities _ _ := rfl
  copied same := same
  opened _ _ _ _ := rfl
  empty _ := rfl
  behind _ sheets := sheets
  push h sheets := h.push sheets
  addContext h := h.addContext

/-- Whatever the command, it goes on alike on both sides, whichever settings it gives on the first
one. -/
theorem Reconfigured.perform {s s' : Session} (h : s.Reconfigured s') (valid : s.Holds Engine.Valid)
    (limit index : Nat) (command : Command) :
    ResultsAgree (Both SameButRecord Reconfigured) (s.perform limit index command)
      (s'.perform limit index command.unrecorded) := by
  rw [command.unrecorded_eq]
  refine (reconfigured_pair.perform (reconfigured_iff.mp h) limit
    ⟨fun _ _ => trivial, fun _ _ => trivial⟩ fun m m' there _ _ => valid.engine? there).mono ?_
  intro r r' answered
  exact ⟨answered.1, reconfigured_iff.mpr answered.2⟩

/-- The order with the default settings in place of those it gives. -/
def Order.unrecorded (order : Order) : Order := { order with command := order.command.unrecorded }

/-- An order and its outcome, without the settings it gives and without all that is recorded. -/
def unrecordedEntry (entry : Order × Outcome) : Order × Outcome :=
  (entry.1.unrecorded, entry.2.map fun (answer, s) => (answer.map Reply.unrecorded, s.unrecorded))

theorem Order.unrecorded_unrecorded (order : Order) :
    order.unrecorded.unrecorded = order.unrecorded := by
  obtain ⟨limit, index, command⟩ := order
  cases command <;> rfl

theorem Order.laidOut_unrecorded (order : Order) :
    order.unrecorded.command.LaidOut ↔ order.command.LaidOut := by
  obtain ⟨limit, index, command⟩ := order
  cases command <;> rfl

theorem unrecordedEntry_congr {order order' : Order} {outcome outcome' : Outcome}
    (orders : order'.unrecorded = order.unrecorded)
    (outcomes : ResultsAgree (Both SameButRecord Reconfigured) outcome outcome') :
    unrecordedEntry (order', outcome') = unrecordedEntry (order, outcome) := by
  refine Prod.ext orders ?_
  cases outcomes with
  | refused refusal => rfl
  | done same => exact congrArg Except.ok (Prod.ext same.1 same.2)

theorem Reconfigured.after {s s' : Session} (h : s.Reconfigured s') (valid : s.Holds Engine.Valid)
    {order : Order} (laid : order.command.LaidOut) :
    (s.after order).Reconfigured (s'.after order.unrecorded) ∧
      (s.after order).Holds Engine.Valid := by
  have outcomes := h.perform valid order.limit order.index order.command
  dsimp only [Session.after, Order.unrecorded]
  generalize performed : s.perform order.limit order.index order.command = result at outcomes ⊢
  generalize s'.perform order.limit order.index order.command.unrecorded = result' at outcomes ⊢
  cases outcomes with
  | refused refusal => exact ⟨h, valid⟩
  | done answered => exact ⟨answered.2, valid.perform valid_invariant laid performed⟩

/-- Whatever settings orders give, they go on like orders that give the default ones. -/
theorem Reconfigured.history {s s' : Session} (h : s.Reconfigured s') (valid : s.Holds Engine.Valid)
    {orders : List Order} (laid : ∀ order ∈ orders, order.command.LaidOut) :
    (s'.history (orders.map Order.unrecorded)).map unrecordedEntry =
      (s.history orders).map unrecordedEntry := by
  induction orders generalizing s s' with
  | nil => rfl
  | cons order rest ih =>
    have outcomes := h.perform valid order.limit order.index order.command
    obtain ⟨after, validAfter⟩ := h.after valid (laid order List.mem_cons_self)
    have others := ih after validAfter fun other member =>
      laid other (List.mem_cons_of_mem order member)
    exact List.cons_eq_cons.mpr
      ⟨unrecordedEntry_congr order.unrecorded_unrecorded outcomes, others⟩

/-- Two runs of the same orders that give other settings at any point, on sessions whose graphs were
recorded in different ways before, have the same outcomes but for what is recorded. -/
theorem Reachable.configs_unobservable {s s' : Session} (reachable : s.Reachable)
    (reachable' : s'.Reachable) (same : s'.unrecorded = s.unrecorded) {orders orders' : List Order}
    (laid : ∀ order ∈ orders, order.command.LaidOut)
    (reconfigured : orders'.map Order.unrecorded = orders.map Order.unrecorded) :
    (s'.history orders').map unrecordedEntry = (s.history orders).map unrecordedEntry := by
  have laid' : ∀ order ∈ orders', order.command.LaidOut := by
    intro order' member'
    have member := List.mem_map_of_mem (f := Order.unrecorded) member'
    rw [reconfigured] at member
    obtain ⟨order, ordered, plain⟩ := List.mem_map.mp member
    rw [← order'.laidOut_unrecorded, ← plain, order.laidOut_unrecorded]
    exact laid order ordered
  have valid := reachable.holds valid_invariant
  have valid' := reachable'.holds valid_invariant
  have itself : s'.Reconfigured s' := rfl
  calc (s'.history orders').map unrecordedEntry
      = (s'.history (orders'.map Order.unrecorded)).map unrecordedEntry :=
        (itself.history valid' laid').symm
    _ = (s'.history (orders.map Order.unrecorded)).map unrecordedEntry := by rw [reconfigured]
    _ = (s.history orders).map unrecordedEntry := Reconfigured.history same valid laid

/-- Doubles `x`, prints it and reads it again under other settings than before. -/
def overseen (config config' : Config) : List Order :=
  [.openSheet .engine config, .add (Node.getLocal "x"),
    .add (Node.ofKind (.pure (.binary (.arithmetic .add)))), .add (Node.ofKind (.action .print)),
    .connect ⟨⟨0, 0⟩, ⟨1, 0⟩⟩, .connect ⟨⟨0, 0⟩, ⟨1, 1⟩⟩, .connect ⟨⟨1, 0⟩, ⟨2, 1⟩⟩,
    .setLocal "x" (.int 21) none, .getValue ⟨2, 1⟩ none, .setConfig config', .execute 2 none,
    .getValue ⟨2, 1⟩ none].map (Order.mk 1 0)

/-- The hits, misses and evaluations that the first graph counted by then, and the length of its
journal. -/
def recorded : Order × Outcome → Option (Nat × Nat × Nat × Nat)
  | (_, .ok (_, s)) => (s.engine? 0).map fun e =>
    (e.statistics.hits, e.statistics.misses, e.statistics.evaluations, e.journal.size)
  | _ => none

theorem configs_overseen :
    let quiet := ({} : Session).history (overseen ⟨false, false⟩ ⟨false, false⟩)
    let traced := ({} : Session).history (overseen {} ⟨true, true⟩)
    traced.map unrecordedEntry = quiet.map unrecordedEntry ∧
      quiet.filterMap displayed = ["42", "42"] ∧ traced.filterMap displayed = ["42", "42"] ∧
      quiet.getLast?.bind recorded = some (0, 0, 0, 4) ∧
      traced.getLast?.bind recorded = some (1, 6, 5, 5) := by
  refine ⟨?_, by decide +kernel, by decide +kernel, by decide +kernel, by decide +kernel⟩
  exact Reachable.empty.configs_unobservable .empty rfl (by decide +kernel) rfl

end Session

end NodeGraph
