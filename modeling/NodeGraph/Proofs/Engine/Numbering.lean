import NodeGraph.Proofs.Engine.Lockstep
import NodeGraph.Proofs.Engine.Valid
import NodeGraph.Proofs.Graph.View

/-!
# Engines without epoch numbers

An epoch number says only which stamps are current. Here the numbers are taken away from an engine,
and from what it counts and journals (`Engine.unnumbered`). The acts of pulls and steps take no
notice of them (`Engine.Numberless`), and whether the count goes on or starts again does not show
(`Engine.unnumbered_openEpoch`).
-/

namespace NodeGraph

namespace Epoch

/-- A stamp without its number: zero if it is current. -/
def unnumber (e : Epoch) (stamp : Int) : Int := if e.isCurrent stamp then 0 else stale

@[simp]
theorem unnumber_stale (e : Epoch) : e.unnumber stale = stale := by simp [unnumber]

theorem unnumber_number {e : Epoch} (nonneg : 0 ≤ e.number) : e.unnumber e.number = 0 :=
  if_pos (isCurrent_number nonneg)

theorem isCurrent_unnumber (e : Epoch) (stamp : Int) :
    ({} : Epoch).isCurrent (e.unnumber stamp) = e.isCurrent stamp := by
  unfold unnumber
  cases e.isCurrent stamp with
  | true => decide
  | false => simp

end Epoch

/-- The view of what is current in an epoch. -/
def View.unnumbered (e : Epoch) : View where
  cached value := value
  value _ value := value
  stamp := e.unnumber
  stale := e.unnumber_stale

/-- The event without its epoch number; none where other numbers would not bring the event about. -/
def Event.unnumbered? : Event → Option Event
  | invalidated .. | epochWrapped => none
  | contextChanged _ => some (contextChanged 0)
  | executing id title _ => some (executing id title 0)
  | event => some event

/-- The counts that have nothing to do with epoch numbers. -/
def Statistics.unnumbered (s : Statistics) : Statistics := { s with invalidations := 0, wraps := 0 }

namespace Graph

variable (g : Graph) (epoch : Epoch)

@[simp]
theorem output_unnumbered (kind : NodeKind) :
    (View.unnumbered epoch).output kind = fun output => output := rfl

theorem output?_unnumbered (addr : OutputAddr) :
    ((View.unnumbered epoch).graph g).output? addr = g.output? addr := by
  simp only [output?, View.node?_graph]
  cases g.node? addr.node with
  | none => rfl
  | some node => simp [View.node]

theorem invalidate_unnumbered :
    ((View.unnumbered epoch).graph g).invalidate = g.invalidate := by
  refine mapNodes_mapNodes g _ Node.invalidate Node.invalidate ?_
  intro node
  have inputs : Input.invalidate ∘ (View.unnumbered epoch).input = Input.invalidate := rfl
  simp [View.node, Node.invalidate, inputs]

theorem output_unnumbered_eq (addr : OutputAddr) :
    ((View.unnumbered epoch).graph g).output addr = g.output addr := by
  unfold output
  rw [View.graph_node]
  cases g.node addr.node with
  | error fault => rfl
  | ok node => simp [Except.map, bind, Except.bind, View.node]

/-- A node is added without its stamps. -/
theorem unnumbered_add (node : Node) : (View.unnumbered epoch).graph (g.add node).2 =
    (((View.unnumbered epoch).graph g).add node).2 := by
  have detached : ((View.unnumbered epoch).node node).detach = node.detach := by
    have inputs : (View.unnumbered epoch).input ∘ Input.unlink = Input.unlink := by
      funext input
      simp [View.input, Input.unlink, View.unnumbered]
    rw [← View.node_detach]
    simp [View.node, Node.detach, inputs, (View.unnumbered epoch).stale]
  rw [View.graph_add]
  simp only [add, detached]

/-- Where nothing is current, every stamp is as good as stale. -/
theorem unnumbered_of_stamps {epoch : Epoch}
    (fresh : g.Stamps fun stamp => epoch.isCurrent stamp = false) :
    (View.unnumbered epoch).graph g = g.invalidate := by
  have past {stamp : Int} (h : epoch.isCurrent stamp = false) :
      (View.unnumbered epoch).stamp stamp = Epoch.stale := by
    simp [View.unnumbered, Epoch.unnumber, h]
  apply ext_node?
  intro id
  rw [View.node?_graph, invalidate_eq_mapNodes, node?_mapNodes]
  cases found : g.node? id with
  | none => rfl
  | some node =>
    have stamps := fresh id node found
    have inputs : node.inputs.map (View.unnumbered epoch).input =
        node.inputs.map Input.invalidate := by
      apply Array.ext_getElem?
      intro port
      rw [Array.getElem?_map, Array.getElem?_map]
      cases place : node.inputs[port]? with
      | none => rfl
      | some input =>
        simp only [Option.map_some, View.input, Input.invalidate, past (stamps.input place)]
        rfl
    simp [View.node, Node.invalidate, inputs, past stamps.node]

end Graph

namespace Engine

/-- What is left of an engine without its epoch numbers. -/
def unnumbered (e : Engine) : Engine :=
  { e with
    graph := (View.unnumbered e.epoch).graph e.graph
    epoch := {}
    lastEpoch := none
    statistics := e.statistics.unnumbered
    journal := e.journal.filterMap Event.unnumbered? }

section Unnumbered

variable (e : Engine)

theorem glance_unnumbered (id : NodeId) : e.unnumbered.glance id = e.glance id := by
  simp only [glance, unnumbered, View.node?_graph, Option.map_map, Function.comp_def, View.node,
    View.unnumbered, Epoch.isCurrent_unnumber]

theorem peek_unnumbered (addr : InputAddr) : e.unnumbered.peek addr = e.peek addr := by
  simp only [peek, unnumbered, View.input?_graph, Option.map_map, Function.comp_def, View.input,
    View.unnumbered, Epoch.isCurrent_unnumber]

theorem unnumbered_count (update : Statistics → Statistics)
    (same : ∀ s : Statistics, (update s).unnumbered = update s.unnumbered) :
    (e.count update).unnumbered = e.unnumbered.count update := by
  unfold count
  rw [show e.unnumbered.config = e.config from rfl]
  split
  · simp only [unnumbered, same]
  · rfl

theorem unnumbered_count_of_hidden (update : Statistics → Statistics)
    (hidden : ∀ s : Statistics, (update s).unnumbered = s.unnumbered) :
    (e.count update).unnumbered = e.unnumbered := by
  unfold count
  split
  · simp only [unnumbered, hidden]
  · rfl

theorem unnumbered_log (event : Event) :
    (e.log event).unnumbered = event.unnumbered?.elim e.unnumbered e.unnumbered.log := by
  have journal : (e.journal.push event).filterMap Event.unnumbered? = _ :=
    Array.filterMap_push (by simp)
  unfold unnumbered log
  rw [journal]
  cases event.unnumbered? <;> rfl

theorem unnumbered_modifyNode {id : NodeId} {f h : Node → Node}
    (same : ∀ node, (View.unnumbered e.epoch).node (f node) =
      h ((View.unnumbered e.epoch).node node)) :
    (e.modifyNode id f).unnumbered = e.unnumbered.modifyNode id h := by
  have graph := (View.unnumbered e.epoch).graph_modifyNode e.graph fun node
    (_ : e.graph.node? id = some node) => same node
  simp only [unnumbered, modifyNode, graph]

theorem unnumbered_invalidate : e.invalidate.unnumbered =
    { e.unnumbered with graph := e.unnumbered.graph.invalidate, serves := none } := by
  have graph : (View.unnumbered e.epoch).graph e.graph.invalidate =
      e.unnumbered.graph.invalidate := View.graph_invalidate _ e.graph
  unfold invalidate
  dsimp only
  rw [unnumbered_log]
  refine (unnumbered_count_of_hidden _ Statistics.invalidation fun _ => rfl).trans ?_
  rw [← graph]
  rfl

/-- Whether the count goes on or starts again, nothing is current in the new epoch. -/
theorem unnumbered_openEpoch {e : Engine} (valid : e.Valid) : e.openEpoch.unnumbered =
    { e.unnumbered with graph := e.unnumbered.graph.invalidate, serves := none } := by
  have graph (epoch : Epoch) : ((View.unnumbered epoch).graph e.graph).invalidate =
      e.graph.invalidate := Graph.invalidate_unnumbered e.graph epoch
  have before : e.unnumbered.graph.invalidate = e.graph.invalidate := graph e.epoch
  have fresh := valid.openEpoch.2.1
  rw [before]
  unfold Fresh at fresh
  unfold openEpoch at fresh ⊢
  generalize e.epoch.advance e.lastEpoch = advanced at fresh ⊢
  obtain ⟨kind, epoch⟩ := advanced
  cases kind with
  | stepped =>
    have stale := Graph.unnumbered_of_stamps e.graph fresh
    simp only [unnumbered, stale]
  | wrapped =>
    dsimp only
    rw [unnumbered_invalidate, unnumbered_count_of_hidden _ Statistics.wrap fun _ => rfl,
      unnumbered_log]
    simp only [Event.unnumbered?, Option.elim, unnumbered, graph]

end Unnumbered

/-- The counter, and what is counted when it runs out. -/
def numbering (e : Engine) : Epoch × Option Int × Nat × Nat :=
  (e.epoch, e.lastEpoch, e.statistics.invalidations, e.statistics.wraps)

/-- An act that takes no notice of epoch numbers. -/
structure Numberless (act : Engine → Engine) : Prop where
  unnumbered : ∀ {e}, 0 ≤ e.epoch.number → (act e).unnumbered = act e.unnumbered
  numbering : ∀ e, (act e).numbering = e.numbering

theorem numberless_count (update : Statistics → Statistics)
    (same : ∀ s : Statistics, (update s).unnumbered = update s.unnumbered)
    (invalidations : ∀ s, (update s).invalidations = s.invalidations)
    (wraps : ∀ s, (update s).wraps = s.wraps) : Numberless fun e => e.count update where
  unnumbered {e} _ := unnumbered_count e update same
  numbering e := by
    unfold count
    split
    · simp only [Engine.numbering, invalidations, wraps]
    · rfl

theorem numberless_modifyNode (id : NodeId) {f : Node → Node}
    (same : ∀ epoch node, (View.unnumbered epoch).node (f node) =
      f ((View.unnumbered epoch).node node)) : Numberless fun e => e.modifyNode id f where
  unnumbered {e} _ := unnumbered_modifyNode e (same e.epoch)
  numbering _ := rfl

theorem numberless_store (addr : InputAddr) (value : Value) :
    Numberless fun e => e.store addr value where
  unnumbered {e} nonneg := by
    refine unnumbered_modifyNode e fun node => View.node_modifyInput _ node addr.port ?_
    intro input
    have stamp : (View.unnumbered e.epoch).stamp e.epoch.number = 0 := Epoch.unnumber_number nonneg
    simp only [View.input, Input.store, stamp]
    rfl
  numbering _ := rfl

theorem numberless_write (addr : OutputAddr) (value : Value) :
    Numberless fun e => e.write addr value := by
  refine numberless_modifyNode addr.node fun epoch node => ?_
  apply View.node_modifyOutput
  intro output
  rfl

theorem numberless_finishComputing (id : NodeId) (value : Value) :
    Numberless fun e => e.finishComputing id value where
  unnumbered {e} nonneg := by
    refine (unnumbered_count _ Statistics.evaluation fun _ => rfl).trans ?_
    refine congrArg (count · Statistics.evaluation) (unnumbered_modifyNode e fun node => ?_)
    have stamp : (View.unnumbered e.epoch).stamp e.epoch.number = 0 := Epoch.unnumber_number nonneg
    have written := (View.unnumbered e.epoch).node_modifyOutput node Layout.result
      (f := fun output => { output with value }) (h := fun output => { output with value })
      fun _ => rfl
    have done := congrArg (fun node : Node => { node with
      activity := .idle, computedAt := 0, evaluations := node.evaluations + 1 }) written
    refine Eq.trans ?_ done
    simp only [View.node, Node.write, stamp]
    rfl
  numbering e :=
    (numberless_count Statistics.evaluation (fun _ => rfl) (fun _ => rfl) fun _ => rfl).numbering _

end Engine

end NodeGraph
