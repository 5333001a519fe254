import Mathlib.Data.List.Forall2
import NodeGraph.Proofs.Session.Alike

/-!
# Isolation of contexts

What is read for one context never reaches another one. Two runs of the same commands, in which one
context is only read for and has different variables, give the same answers for all other contexts
and leave the same variables and lines in them (`Session.Reachable.isolates`).
-/

namespace NodeGraph

namespace Command

/-- The command has no use for the extra context at a position, except to read for it. -/
def Spares (position : Nat) (command : Command) : Prop := command.uses? ≠ some position

instance (position : Nat) (command : Command) : Decidable (command.Spares position) :=
  inferInstanceAs (Decidable (command.uses? ≠ some position))

/-- The answer is not read for the extra context at a position, and does not show what lies in the
graph, where a read for that context may have left it. -/
def Shields (position : Nat) : Command → Prop
  | .getValue _ context => context ≠ some position
  | .pullOutput _ context => context ≠ position
  | .outputValue _ | .node _ | .nodes => False
  | _ => True

/-- A command with an answer that is not read for the extra context names another one. -/
theorem names?_ne_of_shields {position : Nat} (command : Command) (spared : command.Spares position)
    (shields : command.Shields position) : command.names? ≠ some position := by
  cases command with
  | getValue addr context => exact shields
  | pullOutput addr extra => exact fun equal => shields (Option.some.inj equal)
  | _ => exact spared

end Command

/-- What is known of a machine that a command finds. -/
structure Machine.Shielded (position hidden : Nat) (command : Command) (m : Machine) : Prop where
  valid : m.engine.Valid
  acyclic : command.evaluates = true → m.engine.graph.Acyclic
  own : m.engine.context.id ≠ hidden
  context : command.Shields position → m.context.id ≠ hidden

/-- Graphs, engines and contexts that differ in what was read for the hidden context, which is at
this position among the extra ones. -/
def alikeness (position hidden : Nat) : Likeness where
  answers command answer answer' := command.Shields position → answer' = answer
  nodes n n' := n'.blank = n.blank
  added n n' := n'.blank = n.blank
  wirings g g' := g'.blank = g.blank
  engines := Engine.Alike hidden
  idle := Engine.Paired hidden
  running := Machine.Paired hidden
  identities := Eq
  extras extra := Context.Alike hidden (some extra ≠ some position)
  named _ := True
  used extra := some extra ≠ some position
  known command m _ := m.Shielded position hidden command
  settings := id

namespace alikeness

variable {position hidden : Nat}

theorem shows {g g' : Graph} (same : g'.blank = g.blank) :
    g.Shows (fun n n' => n'.blank = n.blank) g' where
  links := by rw [← Graph.links_blank, same, Graph.links_blank]
  successors := Graph.successors_eq_of_frame_eq (Graph.frame_eq_of_blank_eq _ same)
  nodes := rel_getElem?_iff.mpr (congrArg Graph.nodes same)

/-- What a node remembers may differ, so answers that show a node are left open. -/
theorem answers : (alikeness position hidden).Answers where
  same _ _ _ := rfl
  node _ _ shown := shown.elim
  nodes _ shown := shown.elim
  context _ contexts _ := by rw [Context.corresponds_eq_iff.mp contexts]

theorem wirings : (alikeness position hidden).Wirings where
  shows := shows
  add graphs nodes := Graph.blank_add_congr graphs nodes
  connect {g g'} graphs link := by
    refine resultsAgree_of_map_eq ?_
    rw [← Graph.blank_connect, ← Graph.blank_connect, show g'.blank = g.blank from graphs]
  disconnect {g g'} graphs target := by
    have same : (g'.disconnect target).map (fun r => (r.1, r.2.blank)) =
        (g.disconnect target).map fun r => (r.1, r.2.blank) := by
      rw [← Graph.blank_disconnect, ← Graph.blank_disconnect, show g'.blank = g.blank from graphs]
    refine (resultsAgree_of_map_eq same).mono ?_
    intro r r' same
    obtain ⟨sources, graphs⟩ := Prod.mk.inj same
    exact ⟨fun _ => sources, graphs⟩
  relabel {g g'} graphs id newId title := by
    refine resultsAgree_of_map_eq ?_
    rw [← Graph.blank_relabel, ← Graph.blank_relabel, show g'.blank = g.blank from graphs]

theorem engines : (alikeness position hidden).Engines where
  shows engines := shows engines.aligned.blank
  add engines nodes := (engines.addNode nodes).2
  connect engines := engines.connect
  disconnect engines target :=
    (engines.disconnect target).mono fun both => ⟨fun _ => both.1, both.2⟩
  setLiteral engines := engines.setLiteral
  own {e e'} engines := by
    refine Context.corresponds_eq_iff.mpr ?_
    rw [engines.aligned.rest]
  withContext {_ _ c c'} engines contexts := by
    rw [Context.corresponds_eq_iff.mp contexts]
    exact engines.withContext c
  log engines := engines.log
  openEpoch known engines := by
    have opened := engines.openEpoch known.valid
    refine ⟨?_, opened⟩
    intro _
    rw [opened.aligned.epoch]
  invalidate engines := .invalidate engines.aligned
  invalidateOnce engines := engines.invalidateOnce
  marker engines := by rw [engines.aligned.rest]
  hitRatio engines _ := by rw [engines.aligned.rest]
  resetStatistics engines := engines.update (f := Engine.resetStatistics)
    (fun _ _ => rfl) (fun _ => rfl) rfl rfl
  config engines _ := by rw [engines.aligned.rest]
  setConfig engines config := engines.update (f := fun e => { e with config })
    (fun _ _ => rfl) (fun _ => rfl) rfl rfl

theorem contexts {context : Option Nat} {c c' : Context}
    (related : (alikeness position hidden).contexts context c c') :
    c.Alike hidden (context ≠ some position) c' := by
  cases context with
  | none =>
    have own : none ≠ some position := (Option.some_ne_none position).symm
    exact (Context.alike_iff own).mpr (Context.corresponds_eq_iff.mp related)
  | some extra => exact related

/-- Values and runs of graphs without cycles are the same for all contexts but the hidden one. -/
theorem evaluations : (alikeness position hidden).Evaluations where
  outputValue _ _ shown := shown.elim
  getValue {m m' addr context} known engines related := by
    have paired : Engine.Paired hidden m.engine m'.engine :=
      ⟨engines, known.valid, known.acyclic rfl⟩
    have contexts := contexts related
    obtain ⟨value, after⟩ := paired.getValue contexts.id_eq contexts.locals_eq addr
    refine ⟨fun shown => ?_, after.alike⟩
    exact congrArg (Except.map Reply.value) (value (known.context shown))
  pullOutput {m m' addr extra} known engines related := by
    have paired : Engine.Paired hidden m.engine m'.engine :=
      ⟨engines, known.valid, known.acyclic rfl⟩
    have contexts : m.context.Alike hidden _ m'.context := related
    obtain ⟨value, after⟩ := paired.pullOutput contexts.id_eq contexts.locals_eq addr
    refine ⟨fun shown => ?_, after.alike⟩
    exact congrArg (Except.map Reply.value) (value (known.context shown))
  getValues known engines := by
    have paired : Engine.Paired hidden _ _ := ⟨engines, known.valid, known.acyclic rfl⟩
    obtain ⟨values, after⟩ := paired.getValues known.own _
    exact ⟨values, after.alike⟩
  pullOutputs known engines := by
    have paired : Engine.Paired hidden _ _ := ⟨engines, known.valid, known.acyclic rfl⟩
    obtain ⟨values, after⟩ := paired.pullOutputs known.own _
    exact ⟨values, after.alike⟩
  runs := paired_runs hidden
  ready evaluates known engines contexts :=
    ⟨Context.corresponds_eq_iff.mp contexts, engines, known.valid, known.acyclic evaluates⟩
  ended after := ⟨after.engines.alike, Context.corresponds_eq_iff.mpr after.context⟩

end alikeness

namespace Session

variable {position hidden : Nat} {s s' : Session} {index : Nat}

/-- Any other context that a command may name has another identity. -/
theorem Alike.id_ne (h : Alike position hidden s s') (identified : s.Identified)
    {context : Option Nat} {c : Context} (named : s.context? index context = some c)
    (different : context ≠ some position) : c.id ≠ hidden := by
  intro equal
  have there : s.identity? (.extra position) = some c.id :=
    h.identity.trans (congrArg some equal.symm)
  cases context with
  | none =>
    obtain ⟨e, found, rfl⟩ := Option.map_eq_some_iff.mp named
    obtain ⟨sheet, place, has⟩ := Option.bind_eq_some_iff.mp found
    have own : s.identity? (.own index) = some e.context.id := by
      rw [identity?, place, Option.bind_some, Sheet.identity?, has]
      rfl
    cases identified.distinct own there
  | some extra =>
    have other : s.identity? (.extra extra) = some c.id := by
      rw [identity?, show s.contexts[extra]? = some c from named]
      rfl
    have same := Place.extra.inj (identified.distinct other there)
    exact different (congrArg some same)

/-- Graphs have the same contexts of their own. -/
theorem Alike.own_eq (h : Alike position hidden s s') (index : Nat) :
    (s'.engine? index).map (·.context) = (s.engine? index).map (·.context) := by
  unfold Session.engine?
  rcases relCases (h.sheets index) with
    ⟨missing, missing'⟩ | ⟨sheet, sheet', found, found', sheets⟩
  · rw [missing, missing']
  · rw [found, found', Option.bind_some, Option.bind_some]
    rcases relCases sheets.engine? with ⟨none, none'⟩ | ⟨e, e', has, has', engines⟩
    · rw [none, none']
    · rw [has, has', engines.aligned.rest]
      rfl

/-- Graphs and contexts that are put back on both sides keep sessions alike. -/
theorem alike_pair (position hidden : Nat) :
    SessionPair (fun _ => alikeness position hidden) (Alike position hidden) where
  sheet _ :=
    { laws :=
        { answers := alikeness.answers
          wirings := alikeness.wirings
          engines := alikeness.engines
          evaluations := alikeness.evaluations
          added := fun _ => rfl
          extras := fun seen => (Context.alike_iff seen).trans Context.corresponds_eq_iff.symm }
      sheet? := fun h => h.sheets _
      setSheet := fun h sheets => h.setSheet _ sheets
      extra? := fun h _ => h.extra? _
      setExtra := fun h _ contexts => h.setExtra contexts }
  sheetCount h := h.sheetCount
  next h := h.next
  identities _ _ := rfl
  copied same := same
  opened _ _ _ _ := Engine.Alike.refl hidden _
  empty _ := rfl
  behind _ sheets := sheets
  push h sheets next := h.push sheets next
  addContext h := h.addContext

/-- A command goes on alike on both sides, and its answer is the same unless it comes from a read
for the hidden context. -/
theorem Alike.perform (h : Alike position hidden s s') (identified : s.Identified)
    (valid : s.Holds Engine.Valid) {limit : Nat} {command : Command}
    (spared : command.Spares position)
    (acyclic : command.evaluates = true → ∀ e, s.engine? index = some e → e.graph.Acyclic) :
    OutcomesAgree (command.Shields position) position hidden (s.perform limit index command)
      (s'.perform limit index command) := by
  have admitted : (alikeness position hidden).Admits command := by
    refine ⟨fun _ _ => trivial, fun extra uses equal => ?_⟩
    exact spared (uses.trans equal)
  rw [← s'.perform_mapConfig_id]
  refine (alike_pair position hidden).perform h limit admitted fun m m' there _ named => ?_
  have own := h.id_ne identified (context?_own there) (Option.some_ne_none position).symm
  refine ⟨valid.engine? there, fun evaluates => acyclic evaluates _ there, own, fun shown => ?_⟩
  exact h.id_ne identified named (command.names?_ne_of_shields spared shown)

/-- A command on the graph at a position, and the limit on the steps of its runs. -/
structure Order where
  limit : Nat
  index : Nat
  command : Command

/-- The session after an order, which changes nothing if it is refused. -/
def after (s : Session) (order : Order) : Session :=
  match s.perform order.limit order.index order.command with
  | .ok (_, s) => s
  | .error _ => s

theorem valid_after (valid : s.Holds Engine.Valid) {order : Order}
    (laid : order.command.LaidOut) : (s.after order).Holds Engine.Valid := by
  unfold Session.after
  cases performed : s.perform order.limit order.index order.command with
  | error refusal => exact valid
  | ok r => exact valid.perform valid_invariant laid performed

/-- Orders that are carried out one after the other, each with its outcome. -/
def history : List Order → Session → List (Order × Outcome)
  | [], _ => []
  | order :: rest, s =>
    (order, s.perform order.limit order.index order.command) :: history rest (s.after order)

/-- Whenever values are read or nodes are run, the pure nodes of the graph form no cycle. -/
def AcyclicAlong : List Order → Session → Prop
  | [], _ => True
  | order :: rest, s =>
    (order.command.evaluates = true → ∀ e, s.engine? order.index = some e → e.graph.Acyclic) ∧
      AcyclicAlong rest (s.after order)

/-- Gives an extra context other variables. -/
def withLocals (s : Session) (position : Nat) (locals : Locals) : Session :=
  { s with contexts := s.contexts.modify position fun c => { c with locals } }

/-- The same variables and lines in all contexts but the extra one at a position. -/
structure SameButFor (position : Nat) (s s' : Session) : Prop where
  extra : ∀ other : Nat, other ≠ position → s'.contexts[other]? = s.contexts[other]?
  own : ∀ index, (s'.engine? index).map (·.context) = (s.engine? index).map (·.context)

/-- Outcomes of one order that show nothing of the extra context at a position. -/
def Isolated (position : Nat) (entry entry' : Order × Outcome) : Prop :=
  entry'.1 = entry.1 ∧
    ResultsAgree (AnswersAgree (entry.1.command.Shields position) (SameButFor position)) entry.2
      entry'.2

theorem Alike.sameButFor (h : Alike position hidden s s') : SameButFor position s s' :=
  ⟨h.contexts, h.own_eq⟩

theorem Alike.history (h : Alike position hidden s s') (identified : s.Identified)
    (valid : s.Holds Engine.Valid) {orders : List Order}
    (laid : ∀ order ∈ orders, order.command.LaidOut)
    (spares : ∀ order ∈ orders, order.command.Spares position) (acyclic : s.AcyclicAlong orders) :
    List.Forall₂ (Isolated position) (s.history orders) (s'.history orders) := by
  induction orders generalizing s s' with
  | nil => exact .nil
  | cons order rest ih =>
    rcases acyclic with ⟨now, later⟩
    have laidNow := laid order List.mem_cons_self
    have outcomes : OutcomesAgree (order.command.Shields position) position hidden
        (s.perform order.limit order.index order.command)
        (s'.perform order.limit order.index order.command) :=
      h.perform identified valid (spares order List.mem_cons_self) now
    have others : ∀ other ∈ rest, other ∈ order :: rest :=
      fun other member => List.mem_cons_of_mem order member
    suffices ResultsAgree (AnswersAgree (order.command.Shields position) (SameButFor position))
          (s.perform order.limit order.index order.command)
          (s'.perform order.limit order.index order.command) ∧
        Alike position hidden (s.after order) (s'.after order) ∧ (s.after order).Identified ∧
        (s.after order).Holds Engine.Valid by
      obtain ⟨agree, alike, identified, valid⟩ := this
      exact .cons ⟨rfl, agree⟩ (ih alike identified valid
        (fun other member => laid other (others other member))
        (fun other member => spares other (others other member)) later)
    unfold Session.after
    cases performed : s.perform order.limit order.index order.command with
    | error refusal =>
      rw [performed] at outcomes
      generalize s'.perform order.limit order.index order.command = result' at outcomes ⊢
      cases outcomes
      exact ⟨.refused refusal, h, identified, valid⟩
    | ok result =>
      obtain ⟨reply, next⟩ := result
      rw [performed] at outcomes
      generalize s'.perform order.limit order.index order.command = result' at outcomes ⊢
      cases outcomes with
      | @done _ result' answered =>
        exact ⟨.done ⟨answered.1, answered.2.sameButFor⟩, answered.2,
          identified.perform valid performed, valid.perform valid_invariant laidNow performed⟩

/-- Two runs of the same orders that differ in nothing but the variables of one extra context, which
is only read for, have the same answers to all that is not read for that context, and leave the
same variables and lines in all other contexts. Pure nodes must form no cycle whenever something is
read or run. -/
theorem Reachable.isolates {s : Session} (reachable : s.Reachable) {position : Nat}
    (present : position < s.contexts.size) (locals locals' : Locals) {orders : List Order}
    (laid : ∀ order ∈ orders, order.command.LaidOut)
    (spares : ∀ order ∈ orders, order.command.Spares position)
    (acyclic : (s.withLocals position locals).AcyclicAlong orders) :
    List.Forall₂ (Isolated position) ((s.withLocals position locals).history orders)
      ((s.withLocals position locals').history orders) := by
  obtain ⟨c, place⟩ : ∃ c, s.contexts[position]? = some c :=
    ⟨_, Array.getElem?_eq_getElem present⟩
  have identities : ∀ locals, SameIdentities s (s.withLocals position locals) := by
    intro locals
    refine ⟨?_, rfl⟩
    intro p
    cases p with
    | own index => rfl
    | extra other =>
      simp only [identity?, withLocals, Array.getElem?_modify]
      split
      · cases s.contexts[other]? <;> rfl
      · rfl
  have identity : ∀ locals, (s.withLocals position locals).contexts[position]?.map (·.id) =
      some c.id := by
    intro locals
    have same := (identities locals).same (.extra position)
    simp only [identity?, place] at same
    exact same
  have alike :
      Alike position c.id (s.withLocals position locals) (s.withLocals position locals') := by
    refine ⟨fun index => ?_, fun other apart => ?_, identity _, identity _, rfl, ?_, rfl⟩
    · cases found : s.sheets[index]? with
      | none =>
        simp only [withLocals, found]
        exact .none
      | some sheet =>
        simp only [withLocals, found]
        exact .some (.refl _ sheet)
    · have different : position ≠ other := fun equal => apart equal.symm
      simp only [withLocals, Array.getElem?_modify, if_neg different]
    · simp [withLocals]
  exact alike.history (reachable.identified.of_same (identities locals))
    ((reachable.holds valid_invariant).of_sheets rfl) laid spares acyclic

/-- Links between pure nodes that only lead to later nodes make no cycle. -/
theorem acyclicAlong_cons {s : Session} {order : Order} {rest : List Order}
    (ascending : ∀ e ∈ s.engine? order.index, ∀ source < e.graph.size, ∀ target < e.graph.size,
      e.graph.feeds source target = true → source < target)
    (later : (s.after order).AcyclicAlong rest) : s.AcyclicAlong (order :: rest) :=
  ⟨fun _ e there => Graph.acyclic_of_ascending (ascending e there), later⟩

/-- Twice the local variable `x` on a new graph, and two contexts, in the second of which `x`
is 1. -/
def sharing : Session :=
  script 0 [.openSheet .engine {}, .add (Node.getLocal "x"),
    .add (Node.ofKind (.pure (.binary (.arithmetic .add)))),
    .connect ⟨⟨0, 0⟩, ⟨1, 0⟩⟩, .connect ⟨⟨0, 0⟩, ⟨1, 1⟩⟩,
    .newContext, .newContext, .setLocal "x" (.int 1) (some 1)] {}

/-- Reads for the two contexts in turn. -/
def alternating : List Order :=
  [⟨0, 0, .pullOutput ⟨1, 0⟩ 0⟩, ⟨0, 0, .pullOutput ⟨1, 0⟩ 1⟩, ⟨0, 0, .getValue ⟨1, 0⟩ (some 0)⟩,
    ⟨0, 0, .getValue ⟨1, 0⟩ (some 1)⟩]

/-- The value that an order gave, as it is displayed. -/
def displayed : Order × Outcome → Option String
  | (_, .ok (.ok (.value value), _)) => some value.display
  | _ => none

theorem isolates_sharing :
    let five := Locals.empty.set "x" (.int 5)
    let seven := Locals.empty.set "x" (.int 7)
    sharing.Reachable ∧ List.Forall₂ (Isolated 0) ((sharing.withLocals 0 five).history alternating)
      ((sharing.withLocals 0 seven).history alternating) ∧
      ((sharing.withLocals 0 five).history alternating).map displayed =
        [some "10", some "2", some "5", some "1"] ∧
      ((sharing.withLocals 0 seven).history alternating).map displayed =
        [some "14", some "2", some "7", some "1"] := by
  have reachable : sharing.Reachable := Reachable.empty.script 0 (by decide +kernel)
  refine ⟨reachable, ?_, by decide +kernel, by decide +kernel⟩
  refine Reachable.isolates reachable (by decide +kernel) _ _ (by decide +kernel)
    (by decide +kernel) ?_
  exact acyclicAlong_cons (by decide +kernel) (acyclicAlong_cons (by decide +kernel)
    (acyclicAlong_cons (by decide +kernel) (acyclicAlong_cons (by decide +kernel) trivial)))

end Session

end NodeGraph
