import NodeGraph.Proofs.Engine.Footprint
import NodeGraph.Proofs.Run.Footprint
import NodeGraph.Proofs.Session.Ending
import NodeGraph.Proofs.Session.Evaluations
import NodeGraph.Proofs.Session.Requests

/-!
# What requests and runs may have changed

Requests compute the pure nodes upstream of what they ask for, and keep what was read into the
inputs that they name. Whether they are answered or refused, all else in the session is what it was,
but for the stamps that are reset when the epoch numbers start again
(`Session.Reachable.requests_confined`). A run that ends leaves the frame and the settings as they
were, and it leaves no footprint out of its reach (`Engine.Reachable.execute_confined`).
-/

namespace NodeGraph

/-- The nodes that a request may compute: what lies upstream of the source of the input, or of the
node of the output. -/
def Request.Needs (g : Graph) (id : NodeId) : Request → Prop
  | .input addr => ∃ source, g.source? addr = some source ∧ g.Upstream id source.node
  | .output addr => g.Upstream id addr.node

theorem Request.needs_congr {g h : Graph} (same : g.frame = h.frame) (id : NodeId)
    (request : Request) : request.Needs g id ↔ request.Needs h id := by
  cases request with
  | input addr => simp only [Needs, Graph.source?_eq_of_frame_eq same, Graph.upstream_congr same]
  | output addr => exact Graph.upstream_congr same

/-- The numbers start again exactly where the next one is lower. -/
theorem Epoch.advance_wrapped_iff {e : Epoch} (nonneg : 0 ≤ e.number) :
    (e.advance (some lastNumber)).1 = .wrapped ↔
      (e.advance (some lastNumber)).2.number < e.number := by
  have last : lastNumber = 9223372036854775807 := by decide
  simp only [advance, Option.any_some, decide_eq_true_eq]
  split
  · simp only [true_iff]
    omega
  · simp only [reduceCtorEq, false_iff]
    omega

namespace Engine

variable {touched : NodeId → Prop} {read : InputAddr → Prop} {e e' e'' opened : Engine}
  {depth : Nat} {context : Context} {requests : List Request}

/-- The graph as a later epoch finds it: once the numbers have started again, every stamp is
reset. -/
def graphAt (e : Engine) (epoch : Epoch) : Graph :=
  if epoch.number < e.epoch.number then e.graph.invalidate else e.graph

theorem graphAt_self (e : Engine) : e.graphAt e.epoch = e.graph := if_neg (lt_irrefl _)

theorem skeleton_graphAt (e : Engine) (epoch : Epoch) :
    (e.graphAt epoch).skeleton = e.graph.skeleton := by
  unfold graphAt
  split
  · exact Graph.erase_invalidate _ _
  · rfl

theorem graph_openEpoch (nonneg : 0 ≤ e.epoch.number) (range : e.InRange) :
    e.openEpoch.graph = e.graphAt e.openEpoch.epoch := by
  have wraps := Epoch.advance_wrapped_iff nonneg
  rw [graphAt, epoch_openEpoch]
  unfold openEpoch
  rw [range.last]
  generalize e.epoch.advance (some Epoch.lastNumber) = advanced at wraps ⊢
  obtain ⟨kind, epoch⟩ := advanced
  cases kind with
  | stepped => exact (if_neg (wraps.not.mp Epoch.Advance.noConfusion)).symm
  | wrapped =>
    rw [if_pos (wraps.mp rfl), graph_invalidate, graph_count]
    rfl

theorem graph_serve (nonneg : 0 ≤ e.epoch.number) (range : e.InRange) (context : Nat) :
    (e.serve context).graph = e.graphAt (e.serve context).epoch := by
  unfold Engine.serve
  split
  · exact e.graphAt_self.symm
  · split
    · exact e.graphAt_self.symm
    · have logged : (e.log (.contextChanged e.epoch.number)).InRange := ⟨range.last, range.le⟩
      exact graph_openEpoch (e := e.log (.contextChanged e.epoch.number)) nonneg logged

/-- What pulls within an epoch leave alone. -/
structure Confined (touched : NodeId → Prop) (read : InputAddr → Prop) (e e' : Engine) : Prop where
  settings : e'.settings = e.settings
  epoch : e'.epoch = e.epoch
  skeleton : e'.graph.skeleton = e.graph.skeleton
  footprint : Graph.Footprint touched read e.graph e'.graph

namespace Confined

theorem refl (e : Engine) : Confined touched read e e := ⟨rfl, rfl, rfl, .refl _⟩

theorem trans (first : Confined touched read e e') (second : Confined touched read e' e'') :
    Confined touched read e e'' where
  settings := second.settings.trans first.settings
  epoch := second.epoch.trans first.epoch
  skeleton := second.skeleton.trans first.skeleton
  footprint := first.footprint.trans second.footprint

theorem of_pulled (pulled : Pulled e e')
    (footprint : Graph.Footprint touched read e.graph e'.graph) : Confined touched read e e' :=
  ⟨settings_eq_of_still pulled.still, pulled.epoch, pulled.skeleton, footprint⟩

end Confined

/-- A request that is answered serves its context and pulls in that epoch. -/
theorem Answers.confined {request : Request} {result : Except Fault Value}
    (h : Answers depth context request e result e')
    (needed : ∀ id, request.Needs e.graph id → touched id)
    (named : ∀ addr, request = .input addr → read addr) :
    e' = e ∨ Confined touched read (e.serve context.id) e' := by
  have served : (e.serve context.id).graph.frame = e.graph.frame := erase_serve _ e context.id
  cases h with
  | noInput _ => exact .inl rfl
  | noOutput _ => exact .inl rfl
  | @input addr _ _ _ _ found reads =>
    refine .inr (.of_pulled (reads.respects pulled_relation) (reads.footprint (named addr rfl) ?_))
    intro source link id up
    rw [Graph.source?_eq_of_frame_eq served] at link
    exact needed id ⟨source, link, (Graph.upstream_congr served).mp up⟩
  | output found refreshes =>
    refine .inr (.of_pulled (refreshes.respects pulled_relation) (refreshes.footprint ?_))
    intro id up
    exact needed id ((Graph.upstream_congr served).mp up)

/-- The epoch serves the context already, or it serves none. -/
def Admits (e : Engine) (context : Nat) : Prop := e.serves = none ∨ e.serves = some context

theorem Confined.serve {context : Nat} (admits : e.Admits context) :
    Confined touched read e (e.serve context) := by
  rcases admits with unserved | serves
  · rw [Engine.serve, unserved]
    exact ⟨rfl, rfl, rfl, .refl _⟩
  · rw [serve_of_serves serves]
    exact .refl e

theorem Answers.admits {request : Request} {result : Except Fault Value}
    (h : Answers depth context request e result e') (admits : e.Admits context.id) :
    e'.Admits context.id := by
  cases h with
  | noInput _ => exact admits
  | noOutput _ => exact admits
  | input _ reads =>
    exact .inr ((reads.respects pulled_relation).serves.trans (serves_serve e context.id))
  | output _ refreshes =>
    exact .inr ((refreshes.respects pulled_relation).serves.trans (serves_serve e context.id))

/-- Requests for one context stay in the epoch that was opened for them. -/
theorem Collects.confined {result : Except Fault (List Value)}
    (h : Collects depth context requests e result e') (admits : e.Admits context.id)
    (needed : ∀ request ∈ requests, ∀ id, request.Needs e.graph id → touched id)
    (named : ∀ addr, .input addr ∈ requests → read addr) : Confined touched read e e' := by
  have answered {request rest e e' result} (h : Answers depth context request e result e')
      (admits : e.Admits context.id)
      (needed : ∀ other ∈ request :: rest, ∀ id, other.Needs e.graph id → touched id)
      (named : ∀ addr, .input addr ∈ request :: rest → read addr) :
      Confined touched read e e' := by
    rcases h.confined (needed request List.mem_cons_self)
      (fun addr same => named addr (same ▸ List.mem_cons_self)) with rfl | confined
    · exact .refl e'
    · exact (Confined.serve admits).trans confined
  induction h with
  | nil => exact .refl _
  | refused first => exact answered first admits needed named
  | answered first _ ih =>
    have confined := answered first admits needed named
    have frame := Graph.frame_eq confined.skeleton
    refine confined.trans (ih (first.admits admits) (fun request member id needs => ?_)
      (fun addr member => named addr (List.mem_cons_of_mem _ member)))
    exact needed request (List.mem_cons_of_mem _ member) id
      ((request.needs_congr frame id).mp needs)

/-- What requests leave alone: the settings, the frame of the graph with the outputs of the nodes
that are not pure, and the nodes that no request needs, apart from the caches of the inputs that are
named. Stamps are reset where the epoch numbers have started again. -/
structure PullsOnly (requests : List Request) (e e' : Engine) : Prop where
  settings : e'.settings = e.settings
  skeleton : e'.graph.skeleton = e.graph.skeleton
  footprint : Graph.Footprint (fun id => ∃ request ∈ requests, request.Needs e.graph id)
    (fun addr => .input addr ∈ requests) (e.graphAt e'.epoch) e'.graph

/-- What is pulled in an epoch, seen from before the epoch was opened. -/
theorem PullsOnly.of_confined (settings : opened.settings = e.settings)
    (graph : opened.graph = e.graphAt opened.epoch)
    (confined : Confined (fun id => ∃ request ∈ requests, request.Needs e.graph id)
      (fun addr => .input addr ∈ requests) opened e') : e.PullsOnly requests e' where
  settings := confined.settings.trans settings
  skeleton := by rw [confined.skeleton, graph, skeleton_graphAt]
  footprint := by
    rw [confined.epoch, ← graph]
    exact confined.footprint

theorem PullsOnly.refl (requests : List Request) (e : Engine) : e.PullsOnly requests e :=
  .of_confined rfl e.graphAt_self.symm (.refl e)

section Requests

variable (nonneg : 0 ≤ e.epoch.number) (range : e.InRange)

include nonneg range

theorem pullsOnly_answer (context : Context) (request : Request) :
    e.PullsOnly [request] (e.answer context request).2 := by
  have needed (id : NodeId) (needs : request.Needs e.graph id) :
      ∃ other ∈ [request], other.Needs e.graph id := ⟨request, List.mem_cons_self, needs⟩
  have named (addr : InputAddr) (same : request = .input addr) : .input addr ∈ [request] :=
    same ▸ List.mem_cons_self
  rcases (answers_answer context e request).confined needed named with same | confined
  · rw [same]
    exact .refl _ e
  · exact .of_confined (settings_serve e context.id) (graph_serve nonneg range context.id) confined

/-- Requests that are answered in an epoch of their own. -/
theorem pullsOnly_answerAll (requests : List Request) :
    e.PullsOnly requests (e.answerAll requests).2 := by
  have collects := @collects_collect _ id _ (fun _ _ => rfl) requests e.openEpoch
  rw [List.map_id, context_openEpoch] at collects
  refine .of_confined (settings_openEpoch e) (graph_openEpoch nonneg range)
    (collects.confined (.inl (serves_openEpoch e)) (fun request member id needs => ?_)
      (fun _ member => member))
  exact ⟨request, member, (request.needs_congr (erase_openEpoch _ e) id).mp needs⟩

end Requests

end Engine

/-- The requests that a command makes of its graph, where that is all it does. -/
def Command.requests? : Command → Option (List Request)
  | .getValue addr _ => some [.input addr]
  | .pullOutput addr _ => some [.output addr]
  | .getValues addrs => some (addrs.map .input)
  | .pullOutputs addrs => some (addrs.map .output)
  | _ => none

namespace Session

variable {s s' : Session} {index : Nat} {reply : Except Fault Reply}

/-- Requests change nothing in a session but the graph that they are made of, and there only what
they compute and read: not the settings, not the own context, not the frame, no output of a node
that is not pure, and no node that lies beyond what they need. -/
theorem Reachable.requests_confined (reachable : s.Reachable) {limit : Nat} {command : Command}
    {requests : List Request} (asks : command.requests? = some requests)
    (performed : s.perform limit index command = .ok (reply, s')) :
    ∃ sheet e e', s.sheets[index]? = some sheet ∧ sheet.engine? = some e ∧
      s' = s.setSheet index (sheet.withEngine e') ∧ e.PullsOnly requests e' := by
  have within {sheet e} (found : s.sheets[index]? = some sheet) (has : sheet.engine? = some e) :
      0 ≤ e.epoch.number ∧ e.InRange := by
    obtain ⟨valid, range⟩ := (reachable.holds inRange_invariant index sheet found).of_engine? has
    exact ⟨valid.nonneg, range⟩
  have one {request context} (single : command.request? = some (request, context)) :
      ∃ sheet e e', s.sheets[index]? = some sheet ∧ sheet.engine? = some e ∧
        s' = s.setSheet index (sheet.withEngine e') ∧ e.PullsOnly [request] e' := by
    obtain ⟨sheet, e, c, found, has, _, _, rfl⟩ := (answer_eq_ok_iff single).mp performed
    obtain ⟨nonneg, range⟩ := within found has
    exact ⟨sheet, e, _, found, has, rfl, Engine.pullsOnly_answer nonneg range c request⟩
  have all (batch : command.batch? = some requests) :
      ∃ sheet e e', s.sheets[index]? = some sheet ∧ sheet.engine? = some e ∧
        s' = s.setSheet index (sheet.withEngine e') ∧ e.PullsOnly requests e' := by
    obtain ⟨sheet, e, found, has, _, rfl⟩ := (answerAll_eq_ok_iff batch).mp performed
    obtain ⟨nonneg, range⟩ := within found has
    exact ⟨sheet, e, _, found, has, rfl, Engine.pullsOnly_answerAll nonneg range requests⟩
  cases command with
  | getValue addr context =>
    obtain rfl := Option.some.inj asks
    exact one rfl
  | pullOutput addr context =>
    obtain rfl := Option.some.inj asks
    exact one rfl
  | getValues addrs => exact all asks
  | pullOutputs addrs => exact all asks
  | _ => cases asks

/-- Twice `x` and a sum that takes its own value too, which a print node reads. -/
def branching : Session :=
  script 0 [.openSheet .engine {}, .add (Node.getLocal "x"),
    .add (Node.ofKind (.pure (.binary (.arithmetic .add)))),
    .add (Node.ofKind (.pure (.binary (.arithmetic .add)))), .add (Node.ofKind (.action .print)),
    .connect ⟨⟨0, 0⟩, ⟨1, 0⟩⟩, .connect ⟨⟨0, 0⟩, ⟨1, 1⟩⟩, .connect ⟨⟨0, 0⟩, ⟨2, 0⟩⟩,
    .connect ⟨⟨2, 0⟩, ⟨2, 1⟩⟩, .connect ⟨⟨2, 0⟩, ⟨3, 1⟩⟩] {}

/-- Why a command was refused, and how often the nodes of the first graph ran by then. -/
def refusedAfter : Outcome → Option (Fault × List Nat)
  | .ok (.error fault, s) => (s.engine? 0).map fun e =>
    (fault, (List.range e.graph.size).map e.graph.evaluations)
  | _ => none

/-- The second of these requests is refused, after the first has computed the sum. -/
theorem requests_confined_branching :
    let command := .getValues [⟨3, 1⟩, ⟨9, 0⟩]
    refusedAfter (branching.perform 0 0 command) = some (.noNode 9, [1, 0, 1, 0]) ∧
    ∃ (reply : Except Fault Reply) (s' : Session) (sheet : Sheet) (e e' : Engine),
      branching.Reachable ∧
      branching.perform 0 0 command = .ok (reply, s') ∧ sheet.engine? = some e ∧
      s' = branching.setSheet 0 (sheet.withEngine e') ∧
      e.PullsOnly [.input ⟨3, 1⟩, .input ⟨9, 0⟩] e' := by
  intro command
  have reachable : branching.Reachable := Reachable.empty.script 0 (by decide +kernel)
  have refused : refusedAfter (branching.perform 0 0 command) =
      some (.noNode 9, [1, 0, 1, 0]) := by decide +kernel
  refine ⟨refused, ?_⟩
  generalize made : branching.perform 0 0 command = outcome at refused
  cases outcome with
  | error refusal => cases refused
  | ok outcome =>
    obtain ⟨reply, s'⟩ := outcome
    obtain ⟨sheet, e, e', _, has, after, pulls⟩ := Reachable.requests_confined reachable rfl made
    exact ⟨reply, s', sheet, e, e', reachable, rfl, has, after, pulls⟩

end Session

/-- A run that ends changes neither the wiring nor the literals, neither the settings of the engine
nor its own context, and not the identity of the context it was made for. All else that it changes
is its footprint. -/
theorem Engine.Reachable.execute_confined {e : Engine} (reachable : e.Reachable) {limit : Nat}
    {start : NodeId} {context : Context} {result : Except Fault NodeId} {m' : Machine}
    (executed : Machine.execute limit ⟨e, context⟩ start = some (result, m')) :
    m'.engine.graph.frame = e.graph.frame ∧ m'.engine.settings = e.settings ∧
      m'.context.id = context.id ∧ Machine.Footprint start ⟨e, context⟩ m' := by
  obtain ⟨links, records⟩ := reachable.records
  obtain ⟨_, works⟩ := Machine.works_execute (m := ⟨e, context⟩) reachable.valid executed
  obtain ⟨r, reaches, rfl⟩ := Machine.exists_stage_of_execute executed
  exact ⟨works.frame, works.settings, works.identity,
    reaches.footprint (m := ⟨e, context⟩) reachable.valid records⟩

/-- Sets a variable that `name` names, and has another node beside it that sets `y`. -/
def naming : List Command :=
  [.openSheet .engine {}, .add (Node.ofKind (.action .start)), .add (Node.setLocal "z" (.int 1)),
    .add (Node.setLocal "y" (.int 2)), .add (Node.getLocal "name"), .connect ⟨⟨0, 0⟩, ⟨1, 0⟩⟩,
    .connect ⟨⟨3, 0⟩, ⟨1, Layout.SetLocal.key⟩⟩]

/-- A run from the start node sets the variable that was named, and not the other one. -/
theorem Engine.execute_confined_naming :
    let context : Context := ⟨7, Locals.empty.set "name" (.text "x"), #["before"]⟩
    ∃ m', Machine.execute 2 ⟨built naming, context⟩ 0 = some (.ok 1, m') ∧
      (built naming).Reachable ∧
      (["x", "y", "z"].map fun name => (m'.context.locals.get? name).map Value.display) =
        [some "1", none, none] ∧
      m'.engine.graph.frame = (built naming).graph.frame ∧
      m'.engine.settings = (built naming).settings ∧ m'.context.id = 7 ∧
      Machine.Footprint 0 ⟨built naming, context⟩ m' := by
  intro context
  have reachable := @reachable_built naming (by decide +kernel) (by decide +kernel)
  have ended : ((Machine.execute 2 ⟨built naming, context⟩ 0).map fun run =>
      (run.1.toOption, ["x", "y", "z"].map fun name =>
        (run.2.context.locals.get? name).map Value.display)) =
          some (some 1, [some "1", none, none]) := by
    decide +kernel
  generalize executed : Machine.execute 2 ⟨built naming, context⟩ 0 = outcome at ended
  obtain ⟨⟨result, m'⟩, rfl, equal⟩ := Option.map_eq_some_iff.mp ended
  obtain ⟨last, shown⟩ := Prod.mk.inj equal
  obtain rfl := eq_ok_of_toOption last
  exact ⟨m', rfl, reachable, shown, Engine.Reachable.execute_confined reachable executed⟩

end NodeGraph
