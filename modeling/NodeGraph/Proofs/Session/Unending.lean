import NodeGraph.Proofs.Run.Unending
import NodeGraph.Proofs.Session.Isolation
import NodeGraph.Proofs.Session.Pair

/-!
# Epoch numbers cannot be observed

A graph whose epoch numbers run out and start again answers every command like one whose numbers
never run out (`Session.numbers_unobservable`), wherever its count began and however often it has
started again.
-/

namespace NodeGraph

/-- The second engine goes on like the first one with epoch numbers that never run out. Graphs that
were opened behind the first graph have such numbers on neither side, and do not differ at all. -/
def Engine.Renumbered (index : Nat) (e e' : Engine) : Prop := e.Unending e' ∨ 0 < index ∧ e' = e

/-- The same graph, but for the epoch numbers of its engine. -/
abbrev Sheet.Renumbered (index : Nat) : Sheet → Sheet → Prop :=
  Sheet.Related Eq (Engine.Renumbered index)

/-- The answer without epoch numbers and stamps. -/
def Reply.unnumbered : Reply → Reply
  | epoch _ => epoch 0
  | node n => node n.invalidate
  | nodes ns => nodes (ns.map Node.invalidate)
  | reply => reply

/-- The answers are the same, but for epoch numbers and stamps. -/
def SameReply (answer answer' : Except Fault Reply) : Prop :=
  answer'.map Reply.unnumbered = answer.map Reply.unnumbered

theorem SameReply.of_eq {answer answer' : Except Fault Reply} (same : answer' = answer) :
    SameReply answer answer' := congrArg (Except.map Reply.unnumbered) same

/-- Graphs that differ in stamps tell the same. -/
theorem Graph.shows_of_invalidate_eq {g g' : Graph} (same : g'.invalidate = g.invalidate) :
    g.Shows (fun n n' => n'.invalidate = n.invalidate) g' where
  links := by
    rw [← View.allStale.links_graph g', View.graph_allStale, same, ← View.graph_allStale,
      View.links_graph]
  successors := by
    refine successors_eq_of_frame_eq ?_
    rw [frame, ← erase_invalidate, same, erase_invalidate]
    rfl
  nodes := rel_getElem?_iff.mpr (congrArg Graph.nodes same)

theorem Node.detach_eq_of_invalidate_eq {node node' : Node}
    (same : node'.invalidate = node.invalidate) : node'.detach = node.detach := by
  have detached (node : Node) : node.invalidate.detach = node.detach := by
    have inputs : Input.unlink ∘ Input.invalidate = Input.unlink := rfl
    simp [Node.invalidate, Node.detach, inputs]
  rw [← detached, same, detached]

theorem Engine.Unending.invalidate_eq {e e' : Engine} (h : e.Unending e') :
    e'.graph.invalidate = e.graph.invalidate := by
  rw [← Graph.invalidate_unnumbered e'.graph e'.epoch, h.graphs, Graph.invalidate_unnumbered]

namespace Engine.Renumbered

variable {index : Nat} {e e' : Engine}

theorem told (h : e.Renumbered index e') {α : Type} {f : Engine → α}
    (same : e.Unending e' → f e' = f e) : f e' = f e := by
  rcases h with h | ⟨_, rfl⟩
  · exact same h
  · rfl

theorem both (h : e.Renumbered index e') {α : Type} {P : Engine → Engine → Prop}
    (weaken : ∀ {e e'}, P e e' → Unending e e') {f : Engine → α × Engine}
    (acts : e.Unending e' → (f e').1 = (f e).1 ∧ P (f e).2 (f e').2) :
    (f e').1 = (f e).1 ∧ (f e).2.Renumbered index (f e').2 := by
  rcases h with h | ⟨behind, rfl⟩
  · exact ⟨(acts h).1, .inl (weaken (acts h).2)⟩
  · exact ⟨rfl, .inr ⟨behind, rfl⟩⟩

theorem update (h : e.Renumbered index e') {f : Engine → Engine}
    (acts : e.Unending e' → (f e).Unending (f e')) : (f e).Renumbered index (f e') := by
  rcases h with h | ⟨behind, rfl⟩
  · exact .inl (acts h)
  · exact .inr ⟨behind, rfl⟩

theorem results (h : e.Renumbered index e') {α : Type} {P Q : α → α → Prop}
    (weaken : ∀ {a b}, P a b → Q a b) (refl : 0 < index → ∀ a, Q a a) {f : Engine → Except Fault α}
    (acts : e.Unending e' → ResultsAgree P (f e) (f e')) : ResultsAgree Q (f e) (f e') := by
  rcases h with h | ⟨behind, rfl⟩
  · exact (acts h).mono weaken
  · exact .refl (refl behind) _

end Engine.Renumbered

/-- Engines with other epoch numbers, and everything else the same. -/
def renumbering (index : Nat) : Likeness where
  answers _ := SameReply
  nodes n n' := n'.invalidate = n.invalidate
  added n n' := n'.invalidate = n.invalidate
  wirings := Eq
  engines := Engine.Renumbered index
  idle e e' := e.Twinned e' ∨ 0 < index ∧ e' = e
  running m m' := m.Twinned m' ∨ 0 < index ∧ m' = m
  identities := Eq
  extras _ := Context.Corresponds Eq
  named _ := True
  used _ := True
  known _ m m' := m.engine.Valid ∧ m'.engine.Valid
  settings := id

namespace renumbering

variable {index : Nat}

theorem answers : (renumbering index).Answers where
  same _ _ := rfl
  node _ same := congrArg (fun n => Except.ok (Reply.node n)) same
  nodes same := congrArg (fun ns => Except.ok (Reply.nodes ns)) (rel_getElem?_iff.mp same)
  context _ contexts := by
    rw [Context.corresponds_eq_iff.mp contexts]
    rfl

theorem engines : (renumbering index).Engines where
  shows engines := by
    rcases engines with h | ⟨_, rfl⟩
    · exact Graph.shows_of_invalidate_eq h.invalidate_eq
    · exact .refl (N := fun n n' => n'.invalidate = n.invalidate) (fun _ => rfl) _
  add {e e' n n'} engines nodes := by
    have added : e'.addNode n' = e'.addNode n := by
      simp only [Engine.addNode, Graph.add, Node.detach_eq_of_invalidate_eq nodes]
    rw [added]
    exact (engines.both id (f := fun e => e.addNode n) fun h => h.addNode rfl).2
  connect engines link :=
    engines.results .inl (fun behind _ => .inr ⟨behind, rfl⟩)
      (f := fun e => e.connect link) fun h => h.connect link
  disconnect engines target :=
    engines.results (fun both => ⟨both.1, .inl both.2⟩)
      (fun behind _ => ⟨fun _ => rfl, .inr ⟨behind, rfl⟩⟩)
      (f := fun e => e.disconnect target) fun h => h.disconnect target
  setLiteral engines addr value :=
    engines.results .inl (fun behind _ => .inr ⟨behind, rfl⟩)
      (f := fun e => e.setLiteral addr value) fun h => h.setLiteral addr value
  own engines := Context.corresponds_eq_iff.mpr
    (engines.told (f := Engine.context) fun h => h.context)
  withContext {_ _ c c'} engines contexts := by
    rw [Context.corresponds_eq_iff.mp contexts]
    exact engines.update (f := fun e => { e with context := c })
      fun h => h.withContext c
  log engines event :=
    engines.update (f := fun e => e.log event) fun h => h.log rfl
  openEpoch {m m'} known engines :=
    ⟨rfl, engines.update (f := Engine.openEpoch)
      fun h => (Engine.Twinned.openEpoch ⟨h, known.1, known.2⟩).unending⟩
  invalidate engines :=
    engines.update (f := Engine.invalidate) fun h => h.invalidate
  invalidateOnce engines marker :=
    engines.both id (f := fun e => e.invalidateOnce marker)
      fun h => h.invalidateOnce marker
  marker engines := engines.told (f := Engine.marker) fun h => h.marker
  hitRatio engines := by
    have same := engines.told (f := fun e => e.statistics.hitRatio)
      fun h => h.hitRatio
    exact .of_eq (congrArg (fun ratio => Except.ok (Reply.ratio ratio)) same)
  resetStatistics engines :=
    engines.update (f := Engine.resetStatistics) fun h => h.resetStatistics
  config engines := by
    have same := engines.told (f := Engine.config) fun h => h.config
    exact .of_eq (congrArg (fun config => Except.ok (Reply.config config)) same)
  setConfig engines config :=
    engines.update (f := fun e => { e with config }) fun h => h.withConfig config

theorem evaluations : (renumbering index).Evaluations where
  outputValue engines addr := by
    have same := engines.told (f := fun e => e.outputValue addr)
      fun h => h.output_eq addr
    exact .of_eq (congrArg (Except.map Reply.value) same)
  getValue {m m' addr context} known engines contexts := by
    have same : m'.context = m.context := by
      cases context <;> exact Context.corresponds_eq_iff.mp contexts
    rw [same]
    obtain ⟨value, after⟩ := engines.both Engine.Twinned.unending
      (f := fun e => e.getValue addr m.context)
      fun h => Engine.Twinned.getValue ⟨h, known.1, known.2⟩ addr m.context
    exact ⟨.of_eq (congrArg (Except.map Reply.value) value), after⟩
  pullOutput {m m' addr extra} known engines contexts := by
    rw [Context.corresponds_eq_iff.mp contexts]
    obtain ⟨value, after⟩ := engines.both Engine.Twinned.unending
      (f := fun e => e.pullOutput addr m.context)
      fun h => Engine.Twinned.pullOutput ⟨h, known.1, known.2⟩ addr m.context
    exact ⟨.of_eq (congrArg (Except.map Reply.value) value), after⟩
  getValues {_ _ addrs} known engines :=
    engines.both Engine.Twinned.unending (f := fun e => e.getValues addrs)
      fun h => Engine.Twinned.getValues ⟨h, known.1, known.2⟩ addrs
  pullOutputs {_ _ addrs} known engines :=
    engines.both Engine.Twinned.unending (f := fun e => e.pullOutputs addrs)
      fun h => Engine.Twinned.pullOutputs ⟨h, known.1, known.2⟩ addrs
  runs := twinned_runs.orSame (0 < index)
  ready {m m' _} _ known engines contexts := by
    have same := Context.corresponds_eq_iff.mp contexts
    rcases engines with h | ⟨behind, equal⟩
    · exact .inl ⟨same, h, known.1, known.2⟩
    · obtain ⟨e, c⟩ := m
      obtain ⟨e', c'⟩ := m'
      dsimp only at equal same
      rw [equal, same]
      exact .inr ⟨behind, rfl⟩
  ended := by
    rintro m m' (after | ⟨behind, rfl⟩)
    · exact ⟨.inl after.engines.unending, Context.corresponds_eq_iff.mpr after.context⟩
    · exact ⟨.inr ⟨behind, rfl⟩, Context.corresponds_eq_iff.mpr rfl⟩

theorem laws : (renumbering index).Lawful where
  answers := answers
  wirings := Likeness.wirings_of_eq rfl (fun _ => rfl) Node.detach_eq_of_invalidate_eq
  engines := engines
  evaluations := evaluations
  added _ := rfl
  extras _ := Iff.rfl

end renumbering

namespace Session

/-- The same graphs, but for the epoch numbers of their engines, and the same contexts. -/
structure Renumbered (s s' : Session) : Prop extends Alongside Sheet.Renumbered s s' where
  opened : 0 < s.sheets.size

/-- Graphs and contexts that are put back on both sides keep sessions alike. -/
theorem renumbered_pair : SessionPair renumbering Renumbered where
  sheet index :=
    { laws := renumbering.laws
      sheet? := fun h => h.sheets index
      setSheet := fun h sheets =>
        ⟨h.toAlongside.setSheet sheets, by simpa [Session.setSheet] using h.opened⟩
      extra? := fun h _ => h.toAlongside.extra? _
      setExtra := fun h _ contexts => ⟨h.toAlongside.setExtra contexts, h.opened⟩ }
  sheetCount h := h.sheetCount
  next h := h.next
  identities _ _ := rfl
  copied same := same
  opened h _ _ _ := .inr ⟨h.opened, rfl⟩
  empty _ := rfl
  behind h sheets := sheets.mono fun engines => engines.imp id fun same => ⟨h.opened, same.2⟩
  push h sheets next := ⟨h.toAlongside.push sheets next, by simp⟩
  addContext h locals printed :=
    ⟨(h.toAlongside.addContext locals printed).1, (h.toAlongside.addContext locals printed).2,
      h.opened⟩

/-- Whatever the command, it goes on alike on both sides. -/
theorem Renumbered.perform {s s' : Session} (h : s.Renumbered s') (valid : s.Holds Engine.Valid)
    (valid' : s'.Holds Engine.Valid) (limit index : Nat) (command : Command) :
    ResultsAgree (Both SameReply Renumbered) (s.perform limit index command)
      (s'.perform limit index command) := by
  rw [← s'.perform_mapConfig_id]
  exact renumbered_pair.perform h limit ⟨fun _ _ => trivial, fun _ _ => trivial⟩
    fun m m' there there' _ => ⟨valid.engine? there, valid'.engine? there'⟩

/-- Outcomes of one order that show nothing of the epoch numbers. -/
def Indistinct (entry entry' : Order × Outcome) : Prop :=
  entry'.1 = entry.1 ∧ ResultsAgree (Both SameReply Renumbered) entry.2 entry'.2

theorem Renumbered.history {s s' : Session} (h : s.Renumbered s') (valid : s.Holds Engine.Valid)
    (valid' : s'.Holds Engine.Valid) {orders : List Order}
    (laid : ∀ order ∈ orders, order.command.LaidOut) :
    List.Forall₂ Indistinct (s.history orders) (s'.history orders) := by
  induction orders generalizing s s' with
  | nil => exact .nil
  | cons order rest ih =>
    have laidNow := laid order List.mem_cons_self
    have outcomes := h.perform valid valid' order.limit order.index order.command
    suffices (s.after order).Renumbered (s'.after order) ∧ (s.after order).Holds Engine.Valid ∧
        (s'.after order).Holds Engine.Valid by
      obtain ⟨after, valid, valid'⟩ := this
      exact .cons ⟨rfl, outcomes⟩ (ih after valid valid'
        fun other member => laid other (List.mem_cons_of_mem order member))
    unfold Session.after
    generalize performed : s.perform order.limit order.index order.command = result at outcomes ⊢
    generalize performed' : s'.perform order.limit order.index order.command = result' at outcomes ⊢
    cases outcomes with
    | refused refusal => exact ⟨h, valid, valid'⟩
    | @done r r' answered =>
      exact ⟨answered.2, valid.perform valid_invariant laidNow performed,
        valid'.perform valid_invariant laidNow performed'⟩

/-- A session with one empty graph. Its epochs are numbered from `start` on, and after `last`, where
there is a last number, from zero. -/
def counting (kind : SheetKind) (config : Config) (start : Int) (last : Option Int) : Session :=
  let engine : Engine := { context := { id := 0 }, config, epoch := ⟨start⟩, lastEpoch := last }
  let sheet := match kind with
    | .wiring => Sheet.wiring {}
    | .engine => Sheet.engine engine
    | .program => Sheet.program { engine }
  { sheets := #[sheet], nextContext := 1 }

theorem holds_counting (kind : SheetKind) (config : Config) {start : Int} (nonneg : 0 ≤ start)
    (last : Option Int) : (counting kind config start last).Holds Engine.Valid := by
  have valid :
      Engine.Valid { context := { id := 0 }, config, epoch := ⟨start⟩, lastEpoch := last } :=
    { Engine.Valid.new { id := 0 } config with
      nonneg := nonneg
      issued := Graph.stamps_empty _
      unserved := fun _ => Graph.stamps_empty _ }
  intro index sheet found
  obtain ⟨_, rfl⟩ := Array.getElem?_eq_some_iff.mp found
  obtain rfl : index = 0 := by
    have : index < 1 := by assumption
    omega
  cases kind with
  | wiring => exact Graph.wellFormed_empty
  | engine => exact valid
  | program => exact valid

theorem renumbered_counting (kind : SheetKind) (config : Config) {start start' : Int}
    (nonneg : 0 ≤ start) (nonneg' : 0 ≤ start') (last : Option Int) :
    (counting kind config start last).Renumbered (counting kind config start' none) where
  sheets index := by
    have engines : Engine.Unending
        { context := { id := 0 }, config, epoch := ⟨start⟩, lastEpoch := last }
        { context := { id := 0 }, config, epoch := ⟨start'⟩, lastEpoch := none } :=
      ⟨by simp [Engine.unnumbered, View.graph, Graph.mapNodes], rfl, rfl, rfl, nonneg, nonneg'⟩
    cases index with
    | zero =>
      cases kind with
      | wiring => exact .some (.wiring rfl)
      | engine => exact .some (.engine (.inl engines))
      | program => exact .some (.program (.inl engines))
    | succ index => exact .none
  sheetCount := rfl
  opened := Nat.one_pos
  contexts := rfl
  next := rfl

/-- Whatever is asked of an empty graph whose epoch numbers start anywhere and start again when they
run out, it is answered and goes on like one whose numbers never run out. -/
theorem numbers_unobservable (kind : SheetKind) (config : Config) {start start' : Int}
    (nonneg : 0 ≤ start) (nonneg' : 0 ≤ start') {orders : List Order}
    (laid : ∀ order ∈ orders, order.command.LaidOut) :
    List.Forall₂ Indistinct
      ((counting kind config start (some Epoch.lastNumber)).history orders)
      ((counting kind config start' none).history orders) :=
  (renumbered_counting kind config nonneg nonneg' _).history (holds_counting kind config nonneg _)
    (holds_counting kind config nonneg' _) laid

example (kind : SheetKind) (config : Config) (start : Int) :
    counting kind config start (some Epoch.lastNumber) =
      (openSheet {} kind config).2.placeEpoch 0 start := by
  cases kind <;> rfl

/-- Reads twice `x`, then sets `x` and prints that, and reads it again. -/
def redoubling : List Order :=
  [.add (Node.setLocal "x" (.int 21)), .add (Node.ofKind (.action .print)),
    .add (Node.getLocal "x"), .add (Node.ofKind (.pure (.binary (.arithmetic .add)))),
    .connect ⟨⟨0, 0⟩, ⟨1, 0⟩⟩, .connect ⟨⟨2, 0⟩, ⟨3, 0⟩⟩, .connect ⟨⟨2, 0⟩, ⟨3, 1⟩⟩,
    .connect ⟨⟨3, 0⟩, ⟨1, 1⟩⟩, .setLocal "x" (.int 4) none, .getValue ⟨1, 1⟩ none,
    .execute 0 none, .getValue ⟨1, 1⟩ none].map (Order.mk 2 0)

/-- Sweeps and new starts that the first graph counted by then. -/
def sweeps : Order × Outcome → Option (Nat × Nat)
  | (_, .ok (_, s)) => (s.engine? 0).map fun e => (e.statistics.invalidations, e.statistics.wraps)
  | _ => none

/-- The numbers start again in the middle of the run. -/
theorem numbers_redoubling :
    let began := (counting .engine {} (Epoch.lastNumber - 1) (some Epoch.lastNumber)).history
      redoubling
    let reference := (counting .engine {} 5 none).history redoubling
    List.Forall₂ Indistinct began reference ∧
      began.filterMap displayed = ["8", "42"] ∧ reference.filterMap displayed = ["8", "42"] ∧
      began.getLast?.bind sweeps = some (5, 1) ∧ reference.getLast?.bind sweeps = some (4, 0) := by
  refine ⟨?_, by decide +kernel, by decide +kernel, by decide +kernel, by decide +kernel⟩
  exact numbers_unobservable .engine {} (by decide +kernel) (by decide +kernel) (by decide +kernel)

end Session

end NodeGraph
