import NodeGraph.Proofs.Engine.Coherence
import NodeGraph.Proofs.Session.Invariant

/-!
# Memoized reads and reads without caches

Reads for a context that the epoch does not serve give what a graph is worth without caches, in
whatever order inputs and outputs are asked for (`Engine.Reachable.answers_eq_naive`). Between two
reads, what is current for the context is right (`Engine.Answering`).
-/

namespace NodeGraph

/-- What can be asked of an engine on behalf of a context. -/
inductive Request where
  | input (addr : InputAddr)
  | output (addr : OutputAddr)

/-- The answer without caches. -/
def Graph.naiveAnswer (g : Graph) (locals : Locals) : Request → Except Fault Value
  | .input addr => (g.input addr).map fun _ => g.naiveInput locals addr
  | .output addr => (g.output addr).map fun _ => g.naiveOutput locals addr

namespace Engine

/-- The answer of an engine. -/
def answer (context : Context) (e : Engine) : Request → Except Fault Value × Engine
  | .input addr => e.getValue addr context
  | .output addr => e.pullOutput addr context

/-- The answers to requests that follow each other. -/
def answers (context : Context) : List Request → Engine → List (Except Fault Value) × Engine
  | [], e => ([], e)
  | request :: rest, e =>
    let (first, e) := e.answer context request
    let (others, e) := answers context rest e
    (first :: others, e)

/-- The engine has a graph as at the start of the requests, and nothing that is current for the
context is wrong. -/
structure Answering (g : Graph) (context : Context) (e : Engine) : Prop where
  valid : e.Valid
  skeleton : e.graph.skeleton = g.skeleton
  right : e.serves = some context.id → Coherent g context.locals e

theorem answering_of_unserved {e : Engine} (valid : e.Valid) {context : Context}
    (other : e.serves ≠ some context.id) : Answering e.graph context e :=
  ⟨valid, rfl, fun serves => absurd serves other⟩

namespace Answering

variable {g : Graph} {context : Context} {e : Engine}

/-- Once the context is served, everything current is right. -/
theorem serve (h : Answering g context e) : (e.serve context.id).Valid ∧
    Coherent g context.locals (e.serve context.id) := by
  refine ⟨h.valid.serve context.id, ?_⟩
  by_cases serves : e.serves = some context.id
  · rw [serve_of_serves serves]
    exact h.right serves
  · have skeleton : (e.serve context.id).graph.skeleton = g.skeleton :=
      (erase_serve _ e context.id).trans h.skeleton
    exact coherent_of_fresh skeleton (h.valid.fresh_serve serves) context.locals

theorem of_pulled (h : Answering g context e) {e' : Engine}
    (pulled : Pulled (e.serve context.id) e') (coherent : Coherent g context.locals e') :
    Answering g context e' :=
  ⟨h.serve.1.pulled (serves_serve e context.id) pulled, coherent.skeleton, fun _ => coherent⟩

variable (acyclic : g.Acyclic) (wf : g.WellFormed)

include acyclic wf

theorem getValue (h : Answering g context e) (addr : InputAddr) :
    (e.getValue addr context).1 = (g.input addr).map (fun _ => g.naiveInput context.locals addr) ∧
      Answering g context (e.getValue addr context).2 := by
  have frame := Graph.frame_eq h.skeleton
  rw [← Graph.map_input_eq_of_frame_eq frame]
  unfold Engine.getValue
  cases found : e.graph.input addr with
  | error fault => exact ⟨rfl, h⟩
  | ok input =>
    rcases h.serve with ⟨valid, coherent⟩
    rcases coherent.read acyclic wf valid.quiet valid.nonneg addr with ⟨value, after⟩
    exact ⟨congrArg Except.ok value, h.of_pulled (pulled_read _ _ _) after⟩

theorem pullOutput (h : Answering g context e) (addr : OutputAddr) :
    (e.pullOutput addr context).1 =
        (g.output addr).map (fun _ => g.naiveOutput context.locals addr) ∧
      Answering g context (e.pullOutput addr context).2 := by
  have frame := Graph.frame_eq h.skeleton
  unfold Engine.pullOutput
  rw [outputValue_eq_map]
  cases found : e.graph.output addr with
  | error fault =>
    rw [← Graph.map_output_eq_of_frame_eq frame, found]
    exact ⟨rfl, h⟩
  | ok output =>
    rcases h.serve with ⟨valid, coherent⟩
    rcases coherent.refresh acyclic wf valid.quiet valid.nonneg addr.node with ⟨settled, after⟩
    have there : (g.output? addr).isSome := by
      rw [← Graph.isSome_output?_eq_of_frame_eq frame, Graph.output_eq_ok_iff.mp found,
        Option.isSome_some]
    refine ⟨?_, h.of_pulled (pulled_refresh _ _ _) after⟩
    show outputValue _ addr = _
    rw [outputValue_eq_map, after.outputValue_eq wf there settled]
    exact Graph.map_output_eq_of_frame_eq (Graph.frame_eq after.skeleton) addr _

/-- Every answer is the one without caches, and the next ones will be. -/
theorem answer (h : Answering g context e) (request : Request) :
    (e.answer context request).1 = g.naiveAnswer context.locals request ∧
      Answering g context (e.answer context request).2 := by
  cases request with
  | input addr => exact h.getValue acyclic wf addr
  | output addr => exact h.pullOutput acyclic wf addr

theorem answers (h : Answering g context e) (requests : List Request) :
    (Engine.answers context requests e).1 = requests.map (g.naiveAnswer context.locals) ∧
      Answering g context (Engine.answers context requests e).2 := by
  induction requests generalizing e with
  | nil => exact ⟨rfl, h⟩
  | cons request rest ih =>
    rcases h.answer acyclic wf request with ⟨first, h⟩
    rcases ih h with ⟨others, h⟩
    exact ⟨List.cons_eq_cons.mpr ⟨first, others⟩, h⟩

end Answering

/-- Requests that are all answered, each while the invariant holds. -/
theorem collect_eq_ok {α : Type} {f : α → Engine → Except Fault Value × Engine} {value : α → Value}
    {I : Engine → Prop} {requests : List α}
    (answered : ∀ a ∈ requests, ∀ e, I e → (f a e).1 = .ok (value a) ∧ I (f a e).2) {e : Engine}
    (h : I e) : (collect f requests e).1 = .ok (requests.map value) := by
  induction requests generalizing e with
  | nil => rfl
  | cons a rest ih =>
    rcases answered a List.mem_cons_self e h with ⟨first, h⟩
    have others := ih (fun other member => answered other (List.mem_cons_of_mem a member)) h
    unfold collect
    generalize f a e = result at first others
    obtain ⟨answer, e'⟩ := result
    obtain rfl : answer = .ok (value a) := first
    dsimp only at others ⊢
    generalize collect f rest e' = result at others
    obtain ⟨answers, e''⟩ := result
    obtain rfl : answers = .ok (rest.map value) := others
    rfl

/-- A read leaves its context served. -/
theorem serves_getValue {e : Engine} {addr : InputAddr} (there : (e.graph.input? addr).isSome)
    (context : Context) : (e.getValue addr context).2.serves = some context.id := by
  obtain ⟨input, found⟩ := Option.isSome_iff_exists.mp there
  unfold getValue
  rw [Graph.input_eq_ok_iff.mpr found]
  exact (pulled_read _ _ _).serves.trans (serves_serve e context.id)

theorem serves_pullOutput {e : Engine} {addr : OutputAddr} (there : (e.graph.output? addr).isSome)
    (context : Context) : (e.pullOutput addr context).2.serves = some context.id := by
  obtain ⟨output, found⟩ := Option.isSome_iff_exists.mp there
  unfold pullOutput
  rw [outputValue_eq_map, Graph.output_eq_ok_iff.mpr found]
  exact (pulled_refresh _ _ _).serves.trans (serves_serve e context.id)

/-- The operations after which the epoch does not serve a context: what opens an epoch, makes
everything stale or changes the wiring, and a read for another context. -/
inductive Unserves (context : Context) (e : Engine) : Engine → Prop where
  | openEpoch : Unserves context e e.openEpoch
  | invalidate : Unserves context e e.invalidate
  | connect {link : Link} {e' : Engine} : e.connect link = .ok e' → Unserves context e e'
  | disconnect {target : InputAddr} {source : Option OutputAddr} {e' : Engine} :
    e.disconnect target = .ok (source, e') → Unserves context e e'
  | setLiteral {addr : InputAddr} {value : Value} {e' : Engine} :
    e.setLiteral addr value = .ok e' → Unserves context e e'
  | getValue {addr : InputAddr} {other : Context} : other.id ≠ context.id →
    (e.graph.input? addr).isSome → Unserves context e (e.getValue addr other).2
  | pullOutput {addr : OutputAddr} {other : Context} : other.id ≠ context.id →
    (e.graph.output? addr).isSome → Unserves context e (e.pullOutput addr other).2

theorem Unserves.serves_ne {context : Context} {e e' : Engine} (h : Unserves context e e') :
    e'.serves ≠ some context.id := by
  cases h with
  | openEpoch => simp
  | invalidate => simp
  | connect connected =>
    obtain ⟨graph, _, rfl⟩ := Engine.connect_eq_ok_iff.mp connected
    simp
  | disconnect disconnected =>
    obtain ⟨graph, _, rfl⟩ := Engine.disconnect_eq_ok_iff.mp disconnected
    simp
  | setLiteral set =>
    obtain ⟨graph, _, rfl⟩ := Engine.setLiteral_eq_ok_iff.mp set
    simp
  | getValue different there =>
    rw [serves_getValue there]
    exact fun equal => different (Option.some.inj equal)
  | pullOutput different there =>
    rw [serves_pullOutput there]
    exact fun equal => different (Option.some.inj equal)

/-- Memoized reads give what reads without caches give, for every context that the epoch does not
serve; so do the reads that open an epoch of their own. Pure nodes must form no cycle. -/
theorem Reachable.answers_eq_naive {e : Engine} (reachable : e.Reachable)
    (acyclic : e.graph.Acyclic) :
    (∀ (context : Context) (requests : List Request), e.serves ≠ some context.id →
      (Engine.answers context requests e).1 =
        requests.map (e.graph.naiveAnswer context.locals)) ∧
    (∀ addrs : List InputAddr, (∀ addr ∈ addrs, (e.graph.input? addr).isSome) →
      (e.getValues addrs).1 = .ok (addrs.map (e.graph.naiveInput e.context.locals))) ∧
    (∀ addrs : List OutputAddr, (∀ addr ∈ addrs, (e.graph.output? addr).isSome) →
      (e.pullOutputs addrs).1 = .ok (addrs.map (e.graph.naiveOutput e.context.locals))) ∧
    (∀ (context : Context) (e' : Engine), Unserves context e e' → e'.serves ≠ some context.id) := by
  have valid := reachable.valid
  have opened : Answering e.graph e.context e.openEpoch ∧ e.openEpoch.context = e.context := by
    refine ⟨⟨valid.openEpoch.1, erase_openEpoch _ e, fun serves => ?_⟩, ?_⟩
    · rw [serves_openEpoch] at serves
      cases serves
    · exact context_openEpoch e
  refine ⟨fun context requests other => ?_, fun addrs there => ?_, fun addrs there => ?_,
    fun _ _ unserves => unserves.serves_ne⟩
  · exact ((answering_of_unserved valid other).answers acyclic valid.wellFormed requests).1
  · refine collect_eq_ok (I := fun e' => Answering e.graph e.context e' ∧ e'.context = e.context)
      ?_ opened
    rintro addr member e' ⟨h, own⟩
    rcases h.getValue acyclic valid.wellFormed addr with ⟨value, after⟩
    obtain ⟨input, found⟩ := Option.isSome_iff_exists.mp (there addr member)
    rw [Graph.input_eq_ok_iff.mpr found] at value
    rw [own]
    exact ⟨value, after, (context_getValue e' addr _).trans own⟩
  · refine collect_eq_ok (I := fun e' => Answering e.graph e.context e' ∧ e'.context = e.context)
      ?_ opened
    rintro addr member e' ⟨h, own⟩
    rcases h.pullOutput acyclic valid.wellFormed addr with ⟨value, after⟩
    obtain ⟨output, found⟩ := Option.isSome_iff_exists.mp (there addr member)
    rw [Graph.output_eq_ok_iff.mpr found] at value
    rw [own]
    exact ⟨value, after, (context_pullOutput e' addr _).trans own⟩

/-- Twice the local variable `x`, on a new graph. -/
def doubling : List Command :=
  [.openSheet .engine {}, .add (Node.getLocal "x"),
    .add (Node.ofKind (.pure (.binary (.arithmetic .add)))),
    .connect ⟨⟨0, 0⟩, ⟨1, 0⟩⟩, .connect ⟨⟨0, 0⟩, ⟨1, 1⟩⟩]

theorem answers_doubling : (Engine.built doubling).Reachable ∧
    (Engine.built doubling).graph.Acyclic ∧ (Engine.built doubling).serves ≠ some 7 ∧
    ((Engine.built doubling).answers ⟨7, Locals.empty.set "x" (.int 21), #[]⟩
      [.input ⟨1, 1⟩, .output ⟨1, 0⟩]).1.map (·.toOption.map Value.display) =
        [some "21", some "42"] := by
  have reachable := @Engine.reachable_built doubling (by decide +kernel) (by decide +kernel)
  have acyclic : (Engine.built doubling).graph.Acyclic := by
    apply Graph.acyclic_of_ascending
    decide +kernel
  have unserved : (Engine.built doubling).serves ≠ some 7 := by decide +kernel
  refine ⟨reachable, acyclic, unserved, ?_⟩
  rw [(Engine.Reachable.answers_eq_naive reachable acyclic).1 _ _ unserved]
  decide +kernel

end Engine

end NodeGraph
