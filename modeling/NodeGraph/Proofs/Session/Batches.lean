import NodeGraph.Proofs.Session.Faults
import NodeGraph.Proofs.Session.Requests

/-!
# Batches that stop

A batch of requests, or of runs from several nodes, stops at its first bad reference. It is refused
for that reference, and what it has done by then is what the batch does that ends just before it
(`Engine.Reachable.batches_stop`).
-/

namespace NodeGraph

/-- The reference exists. -/
def Request.isThere (g : Graph) : Request → Bool
  | .input addr => (g.input? addr).isSome
  | .output addr => (g.output? addr).isSome

theorem Request.isThere_eq_of_frame_eq {g h : Graph} (same : g.frame = h.frame) (request : Request) :
    request.isThere g = request.isThere h := by
  cases request with
  | input addr => exact Graph.isSome_input?_eq_of_frame_eq same addr
  | output addr => exact Graph.isSome_output?_eq_of_frame_eq same addr

/-- A request passes its checks where what it refers to exists. -/
theorem Request.isNone_firstFault? (g : Graph) (request : Request) :
    (g.firstFault? request.checks).isNone = request.isThere g := by
  cases request with
  | input addr =>
    rw [checks, ← Graph.refusal?_input, Bool.eq_iff_iff, Option.isNone_iff_eq_none,
      refusal?_eq_none_iff, Request.isThere, Option.isSome_iff_exists]
    exact exists_congr fun _ => Graph.input_eq_ok_iff
  | output addr =>
    rw [checks, ← Graph.refusal?_output, Bool.eq_iff_iff, Option.isNone_iff_eq_none,
      refusal?_eq_none_iff, Request.isThere, Option.isSome_iff_exists]
    exact exists_congr fun _ => Graph.output_eq_ok_iff

theorem Graph.isNone_firstFault?_node (g : Graph) (id : NodeId) :
    (g.firstFault? [.node id]).isNone = (g.node? id).isSome := by
  rw [firstFault?_singleton, fault?]
  cases g.node? id <;> rfl

namespace Engine

variable {e e' : Engine} {limit : Nat}

/-- Requests are answered up to the first bad one, and what they have changed by then stays. -/
theorem collect_answer_stops (requests : List Request) (e : Engine) : ∃ values e',
    collect (fun request e => e.answer e.context request)
        (requests.takeWhile fun request => request.isThere e.graph) e = (.ok values, e') ∧
      collect (fun request e => e.answer e.context request) requests e =
        ((e.graph.firstFault? (requests.flatMap Request.checks)).elim (.ok values) .error, e') ∧
      e'.context = e.context := by
  induction requests generalizing e with
  | nil => exact ⟨[], e, rfl, rfl, rfl⟩
  | cons request rest ih =>
    have there := request.isNone_firstFault? e.graph
    rw [List.flatMap_cons, Graph.firstFault?_append, List.takeWhile_cons, ← there]
    cases first : e.graph.firstFault? request.checks with
    | some fault =>
      refine ⟨[], e, rfl, ?_, rfl⟩
      rw [collect, answer_of_fault first]
      rfl
    | none =>
      obtain ⟨value, answered⟩ := answer_of_fault_eq_none e.context first
      have frame := e.frame_answer e.context request
      have own := e.context_answer e.context request
      generalize made : e.answer e.context request = answer at answered frame own
      obtain ⟨result, e₁⟩ := answer
      obtain rfl : result = .ok value := answered
      -- What exists is read off the frame, which the answer has left alone.
      have still := funext fun request : Request => request.isThere_eq_of_frame_eq frame
      obtain ⟨values, e', cut, all, kept⟩ := ih e₁
      rw [still] at cut
      rw [Graph.firstFault?_eq_of_frame_eq frame] at all
      refine ⟨value :: values, e', ?_, ?_, kept.trans own⟩
      · rw [Option.isNone_none, if_pos rfl, collect, made]
        dsimp only
        rw [cut]
      · rw [Option.none_or, collect, made]
        dsimp only
        rw [all]
        cases e.graph.firstFault? (rest.flatMap Request.checks) <;> rfl

theorem answerAll_stops (requests : List Request) (e : Engine) : ∃ values e',
    e.answerAll (requests.takeWhile fun request => request.isThere e.graph) = (.ok values, e') ∧
      e.answerAll requests =
        ((e.graph.firstFault? (requests.flatMap Request.checks)).elim (.ok values) .error, e') ∧
      e'.context = e.context := by
  have frame : e.openEpoch.graph.frame = e.graph.frame := erase_openEpoch _ e
  have still := funext fun request : Request => request.isThere_eq_of_frame_eq frame
  obtain ⟨values, e', cut, all, own⟩ := collect_answer_stops requests e.openEpoch
  rw [still] at cut
  rw [Graph.firstFault?_eq_of_frame_eq frame] at all
  exact ⟨values, e', cut, all, own.trans (context_openEpoch e)⟩

theorem execute_error_iff {start : NodeId} {fault : Fault} :
    e.execute limit start = some (.error fault, e') ↔
      e.graph.firstFault? [.node start] = some fault ∧ e' = e := by
  rw [execute, Option.map_eq_some_iff]
  constructor
  · rintro ⟨⟨result, m⟩, executed, equal⟩
    obtain ⟨rfl, rfl⟩ := Prod.mk.inj equal
    obtain ⟨fails, rfl⟩ := Machine.execute_error_iff.mp executed
    exact ⟨fails, rfl⟩
  · rintro ⟨fails, rfl⟩
    exact ⟨_, Machine.execute_error_iff.mpr ⟨fails, rfl⟩, rfl⟩

/-- Runs from several nodes in turn, each of which ends. -/
inductive ExecutesEach (limit : Nat) : List NodeId → Engine → Engine → Prop where
  | nil (e : Engine) : ExecutesEach limit [] e e
  | cons {id last : NodeId} {rest : List NodeId} {e e₁ e' : Engine} :
    e.execute limit id = some (.ok last, e₁) → ExecutesEach limit rest e₁ e' →
      ExecutesEach limit (id :: rest) e e'

/-- Runs are made from the nodes up to the first that does not exist. -/
theorem executeNodes_stops {ids : List NodeId} {result : Except Fault Unit} (valid : e.Valid) :
    e.executeNodes limit ids = some (result, e') ↔
      ExecutesEach limit (ids.takeWhile fun id => (e.graph.node? id).isSome) e e' ∧
        result = (e.graph.firstFault? (ids.map .node)).elim (.ok ()) .error := by
  induction ids generalizing e with
  | nil =>
    constructor
    · intro executed
      obtain ⟨rfl, rfl⟩ := Prod.mk.inj (Option.some.inj executed)
      exact ⟨.nil e, rfl⟩
    · rintro ⟨each, rfl⟩
      cases each
      rfl
  | cons id rest ih =>
    rw [List.map_cons, Graph.firstFault?_cons, ← Graph.firstFault?_singleton, List.takeWhile_cons,
      ← Graph.isNone_firstFault?_node]
    cases first : e.graph.firstFault? [.node id] with
    | some fault =>
      rw [executeNodes, execute_error_iff.mpr ⟨first, rfl⟩]
      constructor
      · intro executed
        obtain ⟨rfl, rfl⟩ := Prod.mk.inj (Option.some.inj executed)
        exact ⟨.nil e, rfl⟩
      · rintro ⟨each, rfl⟩
        cases each
        rfl
    | none =>
      rw [Option.isNone_none, if_pos rfl, Option.none_or]
      -- Later nodes are still looked up in the same frame.
      have later {last e₁} (ended : e.execute limit id = some (.ok last, e₁)) :
          e₁.executeNodes limit rest = some (result, e') ↔
            ExecutesEach limit (rest.takeWhile fun id => (e.graph.node? id).isSome) e₁ e' ∧
              result = (e.graph.firstFault? (rest.map .node)).elim (.ok ()) .error := by
        obtain ⟨valid₁, frame, _⟩ := works_executeOwn valid ended
        have still := funext fun id => Graph.isSome_node?_eq_of_frame_eq frame id
        rw [ih valid₁, still, Graph.firstFault?_eq_of_frame_eq frame]
      constructor
      · intro executed
        unfold executeNodes at executed
        split at executed
        · cases executed
        next fault _ refused =>
          obtain ⟨fails, _⟩ := execute_error_iff.mp refused
          cases first.symm.trans fails
        next last e₁ ended =>
          obtain ⟨each, answer⟩ := (later ended).mp executed
          exact ⟨.cons ended each, answer⟩
      · rintro ⟨each, answer⟩
        cases each with
        | cons ended each =>
          rw [executeNodes, ended]
          exact (later ended).mpr ⟨each, answer⟩

/-- A batch is refused exactly when one of its references is bad, for the first of these, and what
it has done by then is what the batch does that ends just before that reference. The engine has its
own context back in either case. -/
theorem Reachable.batches_stop (reachable : e.Reachable) :
    (∀ addrs : List InputAddr, ∃ values e',
      e.getValues (addrs.takeWhile fun addr => (e.graph.input? addr).isSome) = (.ok values, e') ∧
      e.getValues addrs = ((e.graph.firstFault? (addrs.flatMap InputAddr.checks)).elim
        (.ok values) .error, e') ∧
      e'.context = e.context) ∧
    (∀ addrs : List OutputAddr, ∃ values e',
      e.pullOutputs (addrs.takeWhile fun addr => (e.graph.output? addr).isSome) =
        (.ok values, e') ∧
      e.pullOutputs addrs = ((e.graph.firstFault? (addrs.flatMap OutputAddr.checks)).elim
        (.ok values) .error, e') ∧
      e'.context = e.context) ∧
    ∀ limit ids result e', e.executeNodes limit ids = some (result, e') ↔
      ExecutesEach limit (ids.takeWhile fun id => (e.graph.node? id).isSome) e e' ∧
        result = (e.graph.firstFault? (ids.map .node)).elim (.ok ()) .error := by
  refine ⟨fun addrs => ?_, fun addrs => ?_, fun limit ids result e' => ?_⟩
  · have stops := answerAll_stops (addrs.map .input) e
    rw [List.flatMap_map, List.takeWhile_map] at stops
    rw [getValues_eq_answerAll, getValues_eq_answerAll]
    exact stops
  · have stops := answerAll_stops (addrs.map .output) e
    rw [List.flatMap_map, List.takeWhile_map] at stops
    rw [pullOutputs_eq_answerAll, pullOutputs_eq_answerAll]
    exact stops
  · exact executeNodes_stops reachable.valid

/-- An input that does not exist ends a batch of requests, a node that does not exist ends a batch
of runs. -/
theorem batches_stop_reading :
    let e := built Session.reading
    e.Reachable ∧
      (∃ values e', e.getValues [⟨1, 1⟩] = (.ok values, e') ∧
        e.getValues [⟨1, 1⟩, ⟨1, 5⟩, ⟨0, 0⟩] = (.error (.noInput ⟨1, 5⟩), e')) ∧
      ∃ e', e.executeNodes 1 [1, 2, 1] = some (.error (.noNode 2), e') ∧
        ExecutesEach 1 [1] e e' := by
  intro e
  have reachable : e.Reachable := reachable_built (by decide +kernel) (by decide +kernel)
  obtain ⟨inputs, _, nodes⟩ := Reachable.batches_stop reachable
  refine ⟨reachable, ?_, ?_⟩
  · obtain ⟨values, e', cut, all, _⟩ := inputs [⟨1, 1⟩, ⟨1, 5⟩, ⟨0, 0⟩]
    have there : [⟨1, 1⟩, ⟨1, 5⟩, ⟨0, 0⟩].takeWhile (fun addr => (e.graph.input? addr).isSome) =
        [⟨1, 1⟩] := by decide +kernel
    have first : e.graph.firstFault? ([⟨1, 1⟩, ⟨1, 5⟩, ⟨0, 0⟩].flatMap InputAddr.checks) =
        some (.noInput ⟨1, 5⟩) := by decide +kernel
    rw [there] at cut
    rw [first] at all
    exact ⟨values, e', cut, all⟩
  · have refused : (e.executeNodes 1 [1, 2, 1]).map (fun runs => refusal? runs.1) =
        some (some (.noNode 2)) := by decide +kernel
    obtain ⟨⟨result, e'⟩, executed, fails⟩ := Option.map_eq_some_iff.mp refused
    obtain rfl := refusal?_eq_some_iff.mp fails
    have there : [1, 2, 1].takeWhile (fun id => (e.graph.node? id).isSome) = [1] := by
      decide +kernel
    obtain ⟨each, _⟩ := (nodes 1 [1, 2, 1] _ e').mp executed
    rw [there] at each
    exact ⟨e', executed, each⟩

end Engine

end NodeGraph
