import NodeGraph.Proofs.Graph.Erasure
import NodeGraph.Proofs.Graph.Links

/-!
# What is checked before a change

Every operation on a graph checks its references one after the other, and it is refused with the
fault of the first check that fails (`Graph.refusal?_connect`). Which check fails is a matter of the
frame (`Graph.firstFault?_eq_of_frame_eq`).
-/

namespace NodeGraph

/-- The fault with which an operation was refused. -/
def refusal? {α : Type} : Except Fault α → Option Fault
  | .error fault => some fault
  | .ok _ => none

section Refusals

variable {α β : Type} {result : Except Fault α} {fault : Fault}

theorem refusal?_eq_some_iff : refusal? result = some fault ↔ result = .error fault := by
  cases result <;> simp [refusal?]

theorem refusal?_eq_none_iff : refusal? result = none ↔ ∃ a, result = .ok a := by
  cases result <;> simp [refusal?]

@[simp]
theorem refusal?_ok (a : α) : refusal? (.ok a) = none := rfl

@[simp]
theorem refusal?_map (f : α → β) (result : Except Fault α) :
    refusal? (result.map f) = refusal? result := by
  cases result <;> rfl

/-- Of two operations the first that is refused says why. -/
theorem refusal?_bind {f : α → Except Fault β} {next : Option Fault}
    (follows : ∀ a, result = .ok a → refusal? (f a) = next) :
    refusal? (result >>= f) = (refusal? result).or next := by
  cases result with
  | error fault => rfl
  | ok a => exact follows a rfl

end Refusals

/-- A condition that must be met for an operation. -/
inductive Check where
  | node (id : NodeId)
  | input (addr : InputAddr)
  | output (addr : OutputAddr)
  /-- Both ends of the link are flow ports, or neither is. -/
  | joins (link : Link)

/-- The node of an input must exist, and then the input. -/
def InputAddr.checks (addr : InputAddr) : List Check := [.node addr.node, .input addr]

/-- The node of an output must exist, and then the output. -/
def OutputAddr.checks (addr : OutputAddr) : List Check := [.node addr.node, .output addr]

/-- The output must exist, then the input, and they must fit. -/
def Link.checks (link : Link) : List Check :=
  link.source.checks ++ link.target.checks ++ [.joins link]

namespace Graph

variable {g h : Graph}

/-- What is wrong where a condition is not met. -/
def fault? (g : Graph) : Check → Option Fault
  | .node id => if (g.node? id).isSome then none else some (.noNode id)
  | .input addr => if (g.input? addr).isSome then none else some (.noInput addr)
  | .output addr => if (g.output? addr).isSome then none else some (.noOutput addr)
  | .joins link =>
    match (g.output? link.source).map (·.type), (g.input? link.target).map (·.type) with
    | some source, some target =>
      if source = .flow ↔ target = .flow then none else some (.flowMismatch source target)
    | _, _ => none

/-- What is wrong at the first condition that is not met. -/
def firstFault? (g : Graph) (checks : List Check) : Option Fault := checks.findSome? g.fault?

theorem firstFault?_append (g : Graph) (checks others : List Check) :
    g.firstFault? (checks ++ others) = (g.firstFault? checks).or (g.firstFault? others) :=
  List.findSome?_append

theorem firstFault?_singleton (g : Graph) (check : Check) :
    g.firstFault? [check] = g.fault? check := by
  rw [firstFault?, List.findSome?_singleton]

theorem firstFault?_cons (g : Graph) (check : Check) (rest : List Check) :
    g.firstFault? (check :: rest) = (g.fault? check).or (g.firstFault? rest) := by
  rw [← firstFault?_singleton, ← firstFault?_append, List.singleton_append]

theorem refusal?_node (g : Graph) (id : NodeId) :
    refusal? (g.node id) = g.firstFault? [.node id] := by
  rw [firstFault?_singleton, fault?, node]
  cases g.node? id <;> rfl

theorem refusal?_input (g : Graph) (addr : InputAddr) :
    refusal? (g.input addr) = g.firstFault? addr.checks := by
  rw [input, InputAddr.checks, firstFault?_cons, firstFault?_singleton,
    ← firstFault?_singleton g (.node _), ← refusal?_node]
  refine refusal?_bind fun node found => ?_
  rw [fault?, input?, node_eq_ok_iff.mp found, Option.bind_some]
  cases node.inputs[addr.port]? <;> rfl

theorem refusal?_output (g : Graph) (addr : OutputAddr) :
    refusal? (g.output addr) = g.firstFault? addr.checks := by
  rw [output, OutputAddr.checks, firstFault?_cons, firstFault?_singleton,
    ← firstFault?_singleton g (.node _), ← refusal?_node]
  refine refusal?_bind fun node found => ?_
  rw [fault?, output?, node_eq_ok_iff.mp found, Option.bind_some]
  cases node.outputs[addr.port]? <;> rfl

/-- A link is refused for its source, for its target, or because exactly one end is a flow port. -/
theorem refusal?_connect (g : Graph) (link : Link) :
    refusal? (g.connect link) = g.firstFault? link.checks := by
  rw [connect, Link.checks, firstFault?_append, firstFault?_append, Option.or_assoc,
    ← refusal?_output, ← refusal?_input]
  refine refusal?_bind fun output source => refusal?_bind fun input target => ?_
  rw [firstFault?_singleton, fault?, output_eq_ok_iff.mp source, input_eq_ok_iff.mp target]
  simp only [Option.map_some, ← PortType.linksWith_iff]
  split <;> rfl

theorem refusal?_disconnect (g : Graph) (target : InputAddr) :
    refusal? (g.disconnect target) = g.firstFault? target.checks := by
  rw [disconnect, refusal?_bind fun _ _ => refusal?_ok _, refusal?_input, Option.or_none]

theorem refusal?_setLiteral (g : Graph) (addr : InputAddr) (value : Value) :
    refusal? (g.setLiteral addr value) = g.firstFault? addr.checks := by
  rw [setLiteral, refusal?_bind fun _ _ => refusal?_ok _, refusal?_input, Option.or_none]

theorem map_outputType_eq_of_frame_eq (same : g.frame = h.frame) (addr : OutputAddr) :
    (g.output? addr).map (·.type) = (h.output? addr).map (·.type) := by
  have types := congrArg (Option.map Output.type) (map_output?_eq_of_frame_eq same addr)
  rwa [Option.map_map, Option.map_map] at types

theorem map_inputType_eq_of_frame_eq (same : g.frame = h.frame) (addr : InputAddr) :
    (g.input? addr).map (·.type) = (h.input? addr).map (·.type) := by
  have types := congrArg (Option.map Input.type) (map_input?_eq_of_frame_eq same addr)
  rwa [Option.map_map, Option.map_map] at types

theorem fault?_eq_of_frame_eq (same : g.frame = h.frame) (check : Check) :
    g.fault? check = h.fault? check := by
  cases check with
  | node id => simp only [fault?, isSome_node?_eq_of_frame_eq same]
  | input addr => simp only [fault?, isSome_input?_eq_of_frame_eq same]
  | output addr => simp only [fault?, isSome_output?_eq_of_frame_eq same]
  | joins link =>
    simp only [fault?, map_outputType_eq_of_frame_eq same, map_inputType_eq_of_frame_eq same]

theorem firstFault?_eq_of_frame_eq (same : g.frame = h.frame) (checks : List Check) :
    g.firstFault? checks = h.firstFault? checks :=
  congrArg (checks.findSome? ·) (funext (fault?_eq_of_frame_eq same))

end Graph

end NodeGraph
