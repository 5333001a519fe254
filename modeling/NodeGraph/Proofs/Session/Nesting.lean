import NodeGraph.Proofs.Run.Steps
import NodeGraph.Proofs.Session.Memoization

/-!
# Pulls end

Every request and every step ends, however the pure nodes are wired: the computations it makes nest
at most as deep as there are pure nodes, and when it is over no node is marked as being computed
(`Engine.Reachable.pulls_end`).
-/

namespace NodeGraph

namespace Engine

/-- To answer a request for a context while computations nest at most so deep. What does not exist
is refused, and nothing is pulled for it. -/
inductive Answers (depth : Nat) (context : Context) :
    Request → Engine → Except Fault Value → Engine → Prop where
  | noInput {addr : InputAddr} {e : Engine} {fault : Fault} : e.graph.input addr = .error fault →
    Answers depth context (.input addr) e (.error fault) e
  | input {addr : InputAddr} {e e' : Engine} {input : Input} {value : Value} :
    e.graph.input addr = .ok input →
    Reads context.locals depth addr (e.serve context.id) value e' →
    Answers depth context (.input addr) e (.ok value) e'
  | noOutput {addr : OutputAddr} {e : Engine} {fault : Fault} :
    e.graph.output addr = .error fault → Answers depth context (.output addr) e (.error fault) e
  | output {addr : OutputAddr} {e e' : Engine} {output : Output} :
    e.graph.output addr = .ok output →
    Refreshes context.locals depth addr.node (e.serve context.id) e' →
    Answers depth context (.output addr) e (e'.outputValue addr) e'

/-- To answer requests one after the other, up to the first that is refused. -/
inductive Collects (depth : Nat) (context : Context) :
    List Request → Engine → Except Fault (List Value) → Engine → Prop where
  | nil {e : Engine} : Collects depth context [] e (.ok []) e
  | refused {request : Request} {rest : List Request} {e e' : Engine} {fault : Fault} :
    Answers depth context request e (.error fault) e' →
    Collects depth context (request :: rest) e (.error fault) e'
  | answered {request : Request} {rest : List Request} {e e₁ e₂ : Engine} {value : Value}
      {result : Except Fault (List Value)} : Answers depth context request e (.ok value) e₁ →
    Collects depth context rest e₁ result e₂ →
    Collects depth context (request :: rest) e (result.map (value :: ·)) e₂

theorem answers_answer (context : Context) (e : Engine) (request : Request) :
    Answers e.graph.pureNodes.card context request e (e.answer context request).1
      (e.answer context request).2 := by
  have served : (e.serve context.id).graph.pureNodes = e.graph.pureNodes :=
    Graph.pureNodes_eq_of_frame_eq (erase_serve _ e context.id)
  cases request with
  | input addr =>
    dsimp only [answer, getValue]
    cases found : e.graph.input addr with
    | error fault => exact .noInput found
    | ok input =>
      have reads := reads_read context.locals (e.serve context.id) addr
      rw [served] at reads
      exact .input found reads
  | output addr =>
    dsimp only [answer, pullOutput]
    rw [outputValue_eq_map e addr]
    cases found : e.graph.output addr with
    | error fault => exact .noOutput found
    | ok output =>
      have refreshes := refreshes_refresh context.locals (e.serve context.id) addr.node
      rw [served] at refreshes
      exact .output found refreshes

/-- Requests that are made for the engine's own context are answered in turn. -/
theorem collects_collect {α : Type} {ask : α → Request}
    {f : α → Engine → Except Fault Value × Engine}
    (asks : ∀ a e, f a e = e.answer e.context (ask a)) (requests : List α) (e : Engine) :
    Collects e.graph.pureNodes.card e.context (requests.map ask) e (collect f requests e).1
      (collect f requests e).2 := by
  induction requests generalizing e with
  | nil => exact .nil
  | cons a rest ih =>
    have first := answers_answer e.context e (ask a)
    have context : (e.answer e.context (ask a)).2.context = e.context := by
      cases ask a with
      | input addr => exact context_getValue e addr _
      | output addr => exact context_pullOutput e addr _
    have frame : (e.answer e.context (ask a)).2.graph.frame = e.graph.frame := by
      cases ask a with
      | input addr => exact frame_getValue e addr _
      | output addr => exact frame_pullOutput e addr _
    have others := ih (e.answer e.context (ask a)).2
    rw [context, Graph.pureNodes_eq_of_frame_eq frame] at others
    rw [collect, asks]
    generalize e.answer e.context (ask a) = answered at first others
    obtain ⟨result, e₁⟩ := answered
    cases result with
    | error fault => exact .refused first
    | ok value =>
      have whole := Collects.answered first others
      dsimp only at whole ⊢
      generalize collect f rest e₁ = collected at whole ⊢
      obtain ⟨result, e₂⟩ := collected
      cases result with
      | error fault => exact whole
      | ok values => exact whole

end Engine

namespace Engine

/-- Between two operations no node is being computed. Every request, every sequence of them and
every step ends, and the computations that it makes nest at most as deep as there are pure nodes. -/
theorem Reachable.pulls_end {e : Engine} (reachable : e.Reachable) :
    (∀ id node, e.graph.node? id = some node → node.activity = .idle) ∧
    (∀ context request, Answers e.graph.pureNodes.card context request e
      (e.answer context request).1 (e.answer context request).2) ∧
    (∀ addrs, Collects e.graph.pureNodes.card e.context (addrs.map .input) e.openEpoch
      (e.getValues addrs).1 (e.getValues addrs).2) ∧
    (∀ addrs, Collects e.graph.pureNodes.card e.context (addrs.map .output) e.openEpoch
      (e.pullOutputs addrs).1 (e.pullOutputs addrs).2) ∧
    (∀ context m, Machine.Reaches ⟨e, context⟩ m → m.engine.graph.Quiet ∧
      ∀ task, Machine.Performs e.graph.pureNodes.card (m.openStep task.node) task
        (m.perform task).1 (m.perform task).2) := by
  have opened : e.openEpoch.graph.pureNodes = e.graph.pureNodes :=
    Graph.pureNodes_eq_of_frame_eq (erase_openEpoch _ e)
  refine ⟨fun id node found => reachable.valid.quiet.idle found,
    fun context request => answers_answer context e request, fun addrs => ?_, fun addrs => ?_,
    fun context m reaches => ?_⟩
  · have collects := @collects_collect _ Request.input _ (fun _ _ => rfl) addrs e.openEpoch
    rwa [opened, context_openEpoch] at collects
  · have collects := @collects_collect _ Request.output _ (fun _ _ => rfl) addrs e.openEpoch
    rwa [opened, context_openEpoch] at collects
  · obtain ⟨valid, works⟩ := reaches.works reachable.valid
    have nodes : m.engine.graph.pureNodes = e.graph.pureNodes :=
      Graph.pureNodes_eq_of_frame_eq works.frame
    refine ⟨valid.quiet, fun task => ?_⟩
    rw [← nodes]
    exact Machine.performs_perform valid task

/-- Two sums that both take the value of the first and that of the second. -/
def entangled : List Command :=
  [.openSheet .engine {}, .add (Node.ofKind (.pure (.binary (.arithmetic .add)))),
    .add (Node.ofKind (.pure (.binary (.arithmetic .add)))), .connect ⟨⟨0, 0⟩, ⟨0, 0⟩⟩,
    .connect ⟨⟨1, 0⟩, ⟨0, 1⟩⟩, .connect ⟨⟨0, 0⟩, ⟨1, 0⟩⟩, .connect ⟨⟨1, 0⟩, ⟨1, 1⟩⟩]

theorem pulls_end_entangled : (Engine.built entangled).Reachable ∧
    (∀ a ∈ [0, 1], ∀ b ∈ [0, 1], (Engine.built entangled).graph.feeds a b = true) ∧
    ∀ context, Answers 2 context (.output ⟨0, 0⟩) (Engine.built entangled)
      ((Engine.built entangled).pullOutput ⟨0, 0⟩ context).1
      ((Engine.built entangled).pullOutput ⟨0, 0⟩ context).2 := by
  have reachable := @Engine.reachable_built entangled (by decide +kernel) (by decide +kernel)
  have count : (Engine.built entangled).graph.pureNodes.card = 2 := by decide +kernel
  refine ⟨reachable, by decide +kernel, fun context => ?_⟩
  have answers := (Engine.Reachable.pulls_end reachable).2.1 context (.output ⟨0, 0⟩)
  rw [count] at answers
  exact answers

end Engine

end NodeGraph
