import NodeGraph.Proofs.Graph.Checks
import NodeGraph.Proofs.Run.Valid
import NodeGraph.Proofs.Session.Memoization

/-!
# Commands that are refused

A change to the wiring, a literal or an entry node, a request and a run from a node are refused with
the fault of the first check of their references that fails, and only then. A command that was
refused leaves the whole session as it was (`Session.refused_iff`).
-/

namespace NodeGraph

/-- What a command checks of the references in it, in order. -/
def Command.checks : Command → List Check
  | .connect link => link.checks
  | .disconnect addr | .setLiteral addr _ | .getValue addr _ => addr.checks
  | .outputValue addr | .pullOutput addr _ => addr.checks
  | .execute id _ | .setEntry id => [.node id]
  | _ => []

/-- What a request checks, in order. -/
def Request.checks : Request → List Check
  | .input addr => addr.checks
  | .output addr => addr.checks

namespace Engine

variable {e e' : Engine}

theorem refusal?_connect (e : Engine) (link : Link) :
    refusal? (e.connect link) = e.graph.firstFault? link.checks := by
  rw [connect, refusal?_bind fun _ _ => refusal?_ok _, Graph.refusal?_connect, Option.or_none]

theorem refusal?_disconnect (e : Engine) (target : InputAddr) :
    refusal? (e.disconnect target) = e.graph.firstFault? target.checks := by
  rw [disconnect, refusal?_bind fun _ _ => refusal?_ok _, Graph.refusal?_disconnect,
    Option.or_none]

theorem refusal?_setLiteral (e : Engine) (addr : InputAddr) (value : Value) :
    refusal? (e.setLiteral addr value) = e.graph.firstFault? addr.checks := by
  rw [setLiteral, refusal?_bind fun _ _ => refusal?_ok _, Graph.refusal?_setLiteral,
    Option.or_none]

theorem refusal?_outputValue (e : Engine) (addr : OutputAddr) :
    refusal? (e.outputValue addr) = e.graph.firstFault? addr.checks := by
  rw [outputValue_eq_map, refusal?_map, Graph.refusal?_output]

/-- A request that is refused pulls nothing and serves nobody. -/
theorem answer_of_fault {context : Context} {request : Request} {fault : Fault}
    (fails : e.graph.firstFault? request.checks = some fault) :
    e.answer context request = (.error fault, e) := by
  cases request with
  | input addr =>
    rw [Request.checks, ← Graph.refusal?_input, refusal?_eq_some_iff] at fails
    rw [answer, getValue, fails]
  | output addr =>
    rw [Request.checks, ← refusal?_outputValue, refusal?_eq_some_iff] at fails
    rw [answer, pullOutput, fails]

/-- A request that fails no check is answered. -/
theorem answer_of_fault_eq_none (context : Context) {request : Request}
    (passes : e.graph.firstFault? request.checks = none) :
    ∃ value, (e.answer context request).1 = .ok value := by
  cases request with
  | input addr =>
    rw [Request.checks, ← Graph.refusal?_input, refusal?_eq_none_iff] at passes
    obtain ⟨input, found⟩ := passes
    rw [answer, getValue, found]
    exact ⟨_, rfl⟩
  | output addr =>
    have frame := frame_pullOutput e addr context
    rw [Request.checks] at passes
    have after := passes
    rw [← Graph.firstFault?_eq_of_frame_eq frame, ← refusal?_outputValue] at after
    rw [← refusal?_outputValue, refusal?_eq_none_iff] at passes
    obtain ⟨value, found⟩ := passes
    rw [answer]
    rw [pullOutput, found] at after ⊢
    exact refusal?_eq_none_iff.mp after

theorem refusal?_answer (e : Engine) (context : Context) (request : Request) :
    refusal? (e.answer context request).1 = e.graph.firstFault? request.checks := by
  cases first : e.graph.firstFault? request.checks with
  | none =>
    obtain ⟨value, answered⟩ := answer_of_fault_eq_none context first
    rw [answered]
    rfl
  | some fault =>
    rw [answer_of_fault first]
    rfl

end Engine

theorem Sheet.refusal?_connect (sheet : Sheet) (link : Link) :
    refusal? (sheet.connect link) = sheet.graph.firstFault? link.checks := by
  cases sheet with
  | wiring g => exact (refusal?_map _ _).trans (g.refusal?_connect link)
  | engine e => exact (refusal?_map _ _).trans (e.refusal?_connect link)
  | program p => exact (refusal?_map _ _).trans (p.engine.refusal?_connect link)

theorem Sheet.refusal?_disconnect (sheet : Sheet) (target : InputAddr) :
    refusal? (sheet.disconnect target) = sheet.graph.firstFault? target.checks := by
  cases sheet with
  | wiring g => exact (refusal?_map _ _).trans (g.refusal?_disconnect target)
  | engine e => exact (refusal?_map _ _).trans (e.refusal?_disconnect target)
  | program p => exact (refusal?_map _ _).trans (p.engine.refusal?_disconnect target)

theorem Sheet.graph_of_engine? {sheet : Sheet} {e : Engine} (has : sheet.engine? = some e) :
    sheet.graph = e.graph := by
  cases sheet with
  | wiring g => cases has
  | engine e =>
    obtain rfl := Option.some.inj has
    rfl
  | program p =>
    obtain rfl := Option.some.inj has
    rfl

namespace Machine

variable {e : Engine} {c : Context} {m m' : Machine} {fault : Fault}

theorem answer_refused_iff {request : Request} :
    some ((e.answer c request).1.map Reply.value, Machine.mk (e.answer c request).2 c) =
        some (.error fault, m') ↔
      e.graph.firstFault? request.checks = some fault ∧ m' = ⟨e, c⟩ := by
  constructor
  · intro answered
    obtain ⟨refused, rfl⟩ := Prod.mk.inj (Option.some.inj answered)
    have fails : e.graph.firstFault? request.checks = some fault := by
      rw [← e.refusal?_answer c, ← refusal?_map Reply.value, refused]
      rfl
    exact ⟨fails, by rw [Engine.answer_of_fault fails]⟩
  · rintro ⟨fails, rfl⟩
    rw [Engine.answer_of_fault fails]
    rfl

/-- A run is refused where there is no node to start from. -/
theorem execute_error_iff {limit : Nat} {start : NodeId} :
    m.execute limit start = some (.error fault, m') ↔
      m.engine.graph.firstFault? [.node start] = some fault ∧ m' = m := by
  rw [← Graph.refusal?_node, refusal?_eq_some_iff]
  unfold execute
  cases m.engine.graph.node start with
  | error other => simp [eq_comm]
  | ok node => simp

theorem execute_refused_iff {limit : Nat} {start : NodeId} :
    ((Machine.mk e c).execute limit start).map (fun run => (run.1.map Reply.index, run.2)) =
        some (.error fault, m') ↔
      e.graph.firstFault? [.node start] = some fault ∧ m' = ⟨e, c⟩ := by
  rw [← @execute_error_iff ⟨e, c⟩ m' fault limit start, Option.map_eq_some_iff]
  constructor
  · rintro ⟨⟨result, m⟩, executed, equal⟩
    obtain ⟨failed, rfl⟩ := Prod.mk.inj equal
    cases result with
    | error other =>
      obtain rfl := Except.error.inj failed
      exact executed
    | ok last => cases failed
  · intro executed
    exact ⟨_, executed, rfl⟩

end Machine

namespace Session

variable {s s' : Session} {index limit : Nat} {sheet : Sheet} {fault : Fault}

/-- The command is one that a fault leaves without effect, and the graph and the context that it is
for are of a kind that can be asked for it. -/
def Offers (s : Session) (index : Nat) : Command → Prop
  | .connect _ | .disconnect _ => (s.sheets[index]?).isSome
  | .setLiteral _ _ | .outputValue _ => (s.engine? index).isSome
  | .getValue _ context | .execute _ context =>
    (s.engine? index).isSome ∧ (s.context? index context).isSome
  | .pullOutput _ context => (s.engine? index).isSome ∧ (s.context? index (some context)).isSome
  | .setEntry _ => ∃ p, s.sheets[index]? = some (.program p)
  | _ => False

theorem change_refused_iff {act : Sheet → Except Fault (Reply × Sheet)}
    (found : s.sheets[index]? = some sheet) :
    s.change index act = .ok (.error fault, s') ↔ refusal? (act sheet) = some fault ∧ s' = s := by
  rw [change_eq_ok_iff, refusal?_eq_some_iff]
  constructor
  · rintro ⟨other, there, ⟨fault', failed, equal, rfl⟩ | ⟨_, _, _, equal, _⟩⟩
    · obtain rfl := Option.some.inj (found.symm.trans there)
      obtain rfl := Except.error.inj equal
      exact ⟨failed, rfl⟩
    · cases equal
  · rintro ⟨failed, rfl⟩
    exact ⟨sheet, found, .inl ⟨fault, failed, rfl, rfl⟩⟩

theorem refusal?_orUnchanged (e : Engine) (result : Except Fault (Reply × Engine)) :
    refusal? (orUnchanged e result).1 = refusal? result := by
  cases result <;> rfl

theorem orUnchanged_of_error {e : Engine} {result : Except Fault (Reply × Engine)}
    (failed : (orUnchanged e result).1 = .error fault) : (orUnchanged e result).2 = e := by
  cases result with
  | error _ => rfl
  | ok answer => cases failed

theorem onEngine_refused_iff {act : Engine → Except Fault Reply × Engine} {e : Engine}
    (found : s.sheets[index]? = some sheet) (has : sheet.engine? = some e)
    (unchanged : ∀ fault, (act e).1 = .error fault → (act e).2 = e) :
    s.onEngine index act = .ok (.error fault, s') ↔
      refusal? (act e).1 = some fault ∧ s' = s := by
  have back (fails : (act e).1 = .error fault) :
      s.setSheet index (sheet.withEngine (act e).2) = s := by
    rw [unchanged fault fails, Sheet.withEngine_self has, setSheet_self found]
  rw [onEngine_eq_ok_iff, refusal?_eq_some_iff]
  constructor
  · rintro ⟨other, e', there, has', fails, rfl⟩
    obtain rfl := Option.some.inj (found.symm.trans there)
    obtain rfl := Option.some.inj (has.symm.trans has')
    exact ⟨fails.symm, back fails.symm⟩
  · rintro ⟨fails, rfl⟩
    exact ⟨sheet, e, found, has, fails.symm, (back fails).symm⟩

theorem onMachine_refused_iff {act : Machine → Option (Except Fault Reply × Machine)}
    {fails : Prop} {e : Engine} {context : Option Nat} (found : s.sheets[index]? = some sheet)
    (has : sheet.engine? = some e) (there : (s.context? index context).isSome)
    (refused : ∀ c m', act ⟨e, c⟩ = some (.error fault, m') ↔ fails ∧ m' = ⟨e, c⟩) :
    s.onMachine index context act = .ok (.error fault, s') ↔ fails ∧ s' = s := by
  have back : s.setSheet index (sheet.withEngine e) = s := by
    rw [Sheet.withEngine_self has, setSheet_self found]
  cases context with
  | none =>
    rw [onMachine_own_eq_ok_iff]
    constructor
    · rintro ⟨other, e', m', found', has', acted, rfl⟩
      obtain rfl := Option.some.inj (found.symm.trans found')
      obtain rfl := Option.some.inj (has.symm.trans has')
      obtain ⟨fails, rfl⟩ := (refused _ _).mp acted
      exact ⟨fails, back⟩
    · rintro ⟨fails, rfl⟩
      exact ⟨sheet, e, _, found, has, (refused _ _).mpr ⟨fails, rfl⟩, back.symm⟩
  | some extra =>
    rw [onMachine_extra_eq_ok_iff]
    constructor
    · rintro ⟨other, e', c, m', found', has', place, acted, rfl⟩
      obtain rfl := Option.some.inj (found.symm.trans found')
      obtain rfl := Option.some.inj (has.symm.trans has')
      obtain ⟨fails, rfl⟩ := (refused _ _).mp acted
      exact ⟨fails, by rw [back, setIfInBounds_self place]⟩
    · rintro ⟨fails, rfl⟩
      obtain ⟨c, place⟩ := Option.isSome_iff_exists.mp there
      exact ⟨sheet, e, c, _, found, has, place, (refused _ _).mpr ⟨fails, rfl⟩,
        by rw [back, setIfInBounds_self place]⟩

theorem setEntry_refused_iff {p : Program} {id : NodeId}
    (found : s.sheets[index]? = some (.program p)) :
    s.perform limit index (.setEntry id) = .ok (.error fault, s') ↔
      p.engine.graph.firstFault? [.node id] = some fault ∧ s' = s := by
  rw [setEntry_eq_ok_iff, ← Graph.refusal?_node, refusal?_eq_some_iff]
  constructor
  · rintro ⟨other, there, ⟨fault', missing, equal, rfl⟩ | ⟨_, _, equal, _⟩⟩
    · obtain rfl := Sheet.program.inj (Option.some.inj (found.symm.trans there))
      obtain rfl := Except.error.inj equal
      exact ⟨missing, setSheet_self found⟩
    · cases equal
  · rintro ⟨missing, rfl⟩
    exact ⟨p, found, .inl ⟨fault, missing, rfl, (setSheet_self found).symm⟩⟩

/-- A command is refused exactly when one of its checks fails, with the fault of the first one that
does, and then nothing at all has changed. -/
theorem refused_iff {command : Command} (found : s.sheets[index]? = some sheet)
    (offered : s.Offers index command) :
    s.perform limit index command = .ok (.error fault, s') ↔
      sheet.graph.firstFault? command.checks = some fault ∧ s' = s := by
  have engine (there : (s.engine? index).isSome) :
      ∃ e, sheet.engine? = some e ∧ sheet.graph = e.graph := by
    obtain ⟨e, has⟩ := Option.isSome_iff_exists.mp there
    rw [engine?, found, Option.bind_some] at has
    exact ⟨e, has, Sheet.graph_of_engine? has⟩
  cases command with
  | connect link =>
    rw [Command.checks, ← sheet.refusal?_connect, ← refusal?_map (Reply.done, ·)]
    exact change_refused_iff found
  | disconnect target =>
    rw [Command.checks, ← sheet.refusal?_disconnect,
      ← refusal?_map fun changed => (Reply.source changed.1, changed.2)]
    exact change_refused_iff found
  | setLiteral addr value =>
    obtain ⟨e, has, graph⟩ := engine offered
    rw [Command.checks, graph, ← e.refusal?_setLiteral addr value, ← refusal?_map (Reply.done, ·),
      ← refusal?_orUnchanged e]
    unfold Session.perform
    exact onEngine_refused_iff found has fun fault failed => orUnchanged_of_error failed
  | outputValue addr =>
    obtain ⟨e, has, graph⟩ := engine offered
    rw [Command.checks, graph, ← e.refusal?_outputValue, ← refusal?_map Reply.value]
    unfold Session.perform
    exact onEngine_refused_iff found has fun _ _ => rfl
  | getValue addr context =>
    obtain ⟨e, has, graph⟩ := engine offered.1
    rw [graph]
    unfold Session.perform
    exact onMachine_refused_iff found has offered.2 fun c m' =>
      @Machine.answer_refused_iff e c m' fault (.input addr)
  | pullOutput addr context =>
    obtain ⟨e, has, graph⟩ := engine offered.1
    rw [graph]
    unfold Session.perform
    exact onMachine_refused_iff found has offered.2 fun c m' =>
      @Machine.answer_refused_iff e c m' fault (.output addr)
  | execute start context =>
    obtain ⟨e, has, graph⟩ := engine offered.1
    rw [graph]
    unfold Session.perform
    exact onMachine_refused_iff found has offered.2 fun _ _ => Machine.execute_refused_iff
  | setEntry id =>
    obtain ⟨p, program⟩ := offered
    obtain rfl := Option.some.inj (found.symm.trans program)
    exact setEntry_refused_iff found
  | _ => exact offered.elim

/-- A variable that a print node reads, and has read once. -/
def reading : List Command :=
  [.openSheet .engine {}, .add (Node.getLocal "x"), .add (Node.ofKind (.action .print)),
    .connect ⟨⟨0, 0⟩, ⟨1, 1⟩⟩, .getValue ⟨1, 1⟩ none]

/-- The variable cannot trigger the node, and nothing comes of the attempt. -/
theorem refused_iff_reading :
    let s := script 0 reading {}
    let command : Command := .connect ⟨⟨0, 0⟩, ⟨1, 0⟩⟩
    ∃ sheet, s.sheets[0]? = some sheet ∧ s.Offers 0 command ∧
      sheet.graph.firstFault? command.checks = some (.flowMismatch .any .flow) ∧
      s.perform 0 0 command = .ok (.error (.flowMismatch .any .flow), s) := by
  intro s command
  have there : (s.sheets[0]?).isSome = true := by decide +kernel
  have fails : s.sheets[0]?.bind (fun sheet => sheet.graph.firstFault? command.checks) =
      some (.flowMismatch .any .flow) := by
    decide +kernel
  obtain ⟨sheet, found⟩ := Option.isSome_iff_exists.mp there
  rw [found, Option.bind_some] at fails
  have offered : s.Offers 0 command := there
  exact ⟨sheet, found, offered, fails, (refused_iff found offered).mpr ⟨fails, rfl⟩⟩

end Session

end NodeGraph
