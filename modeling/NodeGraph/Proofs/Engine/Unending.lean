import NodeGraph.Proofs.Engine.Alike
import NodeGraph.Proofs.Engine.Numbering

/-!
# Epoch numbers that never run out

An engine whose epoch numbers run out starts again at zero, with a sweep over all stamps. It goes on
like one whose numbers never run out (`Engine.Unending`): every operation gives the same answer on
both, and the sweeps of the first engine exceed those of the second by one for each new start.
-/

namespace NodeGraph

namespace Engine

/-- The second engine goes on like the first one, but its epoch numbers never run out. -/
structure Unending (e e' : Engine) : Prop where
  same : e'.unnumbered = e.unnumbered
  invalidations : e.statistics.invalidations = e'.statistics.invalidations + e.statistics.wraps
  wraps : e'.statistics.wraps = 0
  endless : e'.lastEpoch = none
  nonneg : 0 ≤ e.epoch.number
  nonneg' : 0 ≤ e'.epoch.number

namespace Unending

variable {e e' : Engine}

theorem config (h : Unending e e') : e'.config = e.config := by
  have same := congrArg Engine.config h.same
  exact same

theorem serves (h : Unending e e') : e'.serves = e.serves := by
  have same := congrArg Engine.serves h.same
  exact same

theorem marker (h : Unending e e') : e'.marker = e.marker := by
  have same := congrArg Engine.marker h.same
  exact same

theorem context (h : Unending e e') : e'.context = e.context := by
  have same := congrArg Engine.context h.same
  exact same

theorem act (h : Unending e e') {act : Engine → Engine} (numberless : Numberless act) :
    Unending (act e) (act e') := by
  have numbering := numberless.numbering e
  have numbering' := numberless.numbering e'
  simp only [Engine.numbering, Prod.mk.injEq] at numbering numbering'
  obtain ⟨epoch, _, invalidations, wraps⟩ := numbering
  obtain ⟨epoch', endless', invalidations', wraps'⟩ := numbering'
  refine ⟨?_, ?_, wraps'.trans h.wraps, endless'.trans h.endless, epoch ▸ h.nonneg,
    epoch' ▸ h.nonneg'⟩
  · rw [numberless.unnumbered h.nonneg, numberless.unnumbered h.nonneg', h.same]
  · rw [invalidations, invalidations', wraps]
    exact h.invalidations

/-- The events may differ in their epoch numbers. -/
theorem log (h : Unending e e') {event event' : Event}
    (same : event'.unnumbered? = event.unnumbered?) :
    Unending (e.log event) (e'.log event') := by
  refine { h with same := ?_ }
  rw [unnumbered_log, unnumbered_log, same, h.same]

/-- The graphs are the same, but for the numbers of their stamps. -/
theorem graphs (h : Unending e e') :
    (View.unnumbered e'.epoch).graph e'.graph = (View.unnumbered e.epoch).graph e.graph := by
  have same := congrArg Engine.graph h.same
  exact same

theorem size (h : Unending e e') : e'.graph.size = e.graph.size := by
  rw [← View.size_graph _ e'.graph, h.graphs, View.size_graph]

theorem glance (h : Unending e e') (id : NodeId) : e'.glance id = e.glance id := by
  rw [← glance_unnumbered, h.same, glance_unnumbered]

theorem peek (h : Unending e e') (addr : InputAddr) : e'.peek addr = e.peek addr := by
  rw [← peek_unnumbered, h.same, peek_unnumbered]

/-- A node is the same, but for the numbers of its stamps. -/
theorem map_node? (h : Unending e e') (id : NodeId) :
    (e'.graph.node? id).map (View.unnumbered e'.epoch).node =
      (e.graph.node? id).map (View.unnumbered e.epoch).node := by
  rw [← View.node?_graph, ← View.node?_graph, h.graphs]

theorem output?_eq (h : Unending e e') (addr : OutputAddr) :
    e'.graph.output? addr = e.graph.output? addr := by
  rw [← Graph.output?_unnumbered e'.graph e'.epoch, h.graphs, Graph.output?_unnumbered]

theorem successors_eq (h : Unending e e') (addr : OutputAddr) :
    e'.graph.successors addr = e.graph.successors addr := by
  unfold Graph.successors
  rw [h.output?_eq]

theorem outputValue_eq (h : Unending e e') (addr : OutputAddr) :
    e'.graph.outputValue addr = e.graph.outputValue addr := by
  unfold Graph.outputValue
  rw [h.output?_eq]

/-- An input holds the same, but for the number of its stamp. -/
theorem map_input? (h : Unending e e') (addr : InputAddr) :
    (e'.graph.input? addr).map (View.unnumbered e'.epoch).input =
      (e.graph.input? addr).map (View.unnumbered e.epoch).input := by
  rw [← View.input?_graph, ← View.input?_graph, h.graphs]

end Unending

/-- A pull takes no notice of epoch numbers, whatever the wiring. -/
theorem unending_pair (locals : Locals) :
    PullPair False locals locals Unending (fun _ v v' => v' = v) (fun _ v v' => v' = v) where
  glance h := h.glance
  peek h := h.peek
  absent _ _ := rfl
  unlinked {e e' addr input input'} h found found' _ := by
    have same := h.map_input? addr
    rw [found, found'] at same
    have literals := congrArg Input.literal (Option.some.inj same)
    exact literals
  cached {e e' addr input input' source} h found found' _ _ := by
    have same := h.map_input? addr
    rw [found, found'] at same
    have values := congrArg Input.cached (Option.some.inj same)
    exact values
  pulled h _ _ := h.outputValue_eq _
  hit h := h.act (numberless_count Statistics.hit (fun _ => rfl) (fun _ => rfl) fun _ => rfl)
  miss h := h.act (numberless_count Statistics.miss (fun _ => rfl) (fun _ => rfl) fun _ => rfl)
  cycle id title h := (h.log rfl).act
    (numberless_count Statistics.cycle (fun _ => rfl) (fun _ => rfl) fun _ => rfl)
  store h reads := by
    subst reads
    exact h.act (numberless_store _ _)
  beginComputing id h := h.act (numberless_modifyNode id fun _ _ => rfl)
  operate _ _ reads := PureKind.value_congr reads
  finishComputing h _ computes := by
    subst computes
    exact h.act (numberless_finishComputing _ _)

theorem openEpoch_of_endless {e : Engine} (endless : e.lastEpoch = none)
    (nonneg : 0 ≤ e.epoch.number) :
    e.openEpoch = { e with epoch := ⟨e.epoch.number + 1⟩, serves := none } := by
  have steps : ¬ (e.epoch.number + 1 < 0 ∨ Option.any (· < e.epoch.number + 1) e.lastEpoch) := by
    rw [endless]
    simp
    omega
  unfold openEpoch Epoch.advance
  dsimp only
  rw [if_neg steps]

namespace Unending

variable {e e' : Engine}

theorem read (h : Unending e e') (locals : Locals) (addr : InputAddr) :
    (e'.read locals addr).1 = (e.read locals addr).1 ∧
      Unending (e.read locals addr).2 (e'.read locals addr).2 :=
  (unending_pair locals).read (fun _ => 0) addr h h.size False.elim

theorem refresh (h : Unending e e') (locals : Locals) (id : NodeId) :
    Unending (e.refresh locals id) (e'.refresh locals id) :=
  ((unending_pair locals).refresh (fun _ => 0) id h h.size False.elim).1

theorem compute (h : Unending e e') (locals : Locals) {id : NodeId} {kind : PureKind}
    (pure : e.graph.pureKind? id = some kind) (quiet : e.graph.Quiet) :
    Unending (e.compute locals e.graph.size id kind)
      (e'.compute locals e'.graph.size id kind) := by
  rw [h.size]
  exact ((unending_pair locals).compute (fun _ => 0) e.graph.size h pure (quiet id) False.elim).1

theorem invalidate (h : Unending e e') : Unending e.invalidate e'.invalidate where
  same := by
    rw [unnumbered_invalidate, unnumbered_invalidate, h.same]
  invalidations := by
    have before := h.invalidations
    rw [statistics_invalidate, statistics_invalidate, h.config]
    split
    · simp only [Statistics.invalidation]
      omega
    · exact before
  wraps := by
    have before := h.wraps
    rw [statistics_invalidate]
    split
    · exact before
    · exact before
  endless := by
    have kept := congrArg (·.2.1) (settings_invalidate e')
    exact kept.trans h.endless
  nonneg := by
    rw [epoch_invalidate]
    exact h.nonneg
  nonneg' := by
    rw [epoch_invalidate]
    exact h.nonneg'

/-- A new epoch opens on both sides, the first one perhaps by starting again. -/
theorem openEpoch (h : Unending e e') (valid : e.Valid) (valid' : e'.Valid) :
    Unending e.openEpoch e'.openEpoch := by
  have opened := openEpoch_of_endless h.endless h.nonneg'
  refine ⟨?_, ?_, ?_, ?_, valid.openEpoch.1.nonneg, valid'.openEpoch.1.nonneg⟩
  · rw [unnumbered_openEpoch valid, unnumbered_openEpoch valid', h.same]
  · have balance := balance_openEpoch e
    have before := h.invalidations
    rw [opened]
    dsimp only
    omega
  · rw [opened]
    exact h.wraps
  · rw [opened]
    exact h.endless

theorem withServes (h : Unending e e') (serves : Option Nat) :
    Unending { e with serves } { e' with serves } :=
  h.act (⟨fun _ => rfl, fun _ => rfl⟩ : Numberless fun e => { e with serves })

theorem withContext (h : Unending e e') (context : Context) :
    Unending { e with context } { e' with context } :=
  h.act (⟨fun _ => rfl, fun _ => rfl⟩ : Numberless fun e => { e with context })

theorem withConfig (h : Unending e e') (config : Config) :
    Unending { e with config } { e' with config } :=
  h.act (⟨fun _ => rfl, fun _ => rfl⟩ : Numberless fun e => { e with config })

/-- Sweeps and new starts are counted anew together. -/
theorem resetStatistics (h : Unending e e') : Unending e.resetStatistics e'.resetStatistics :=
  { h with
    same := congrArg Engine.resetStatistics h.same
    invalidations := rfl
    wraps := rfl }

theorem hitRatio (h : Unending e e') : e'.statistics.hitRatio = e.statistics.hitRatio := by
  have same := congrArg (fun f : Engine => f.statistics.hitRatio) h.same
  exact same

theorem serve (h : Unending e e') (valid : e.Valid) (valid' : e'.Valid) (context : Nat) :
    Unending (e.serve context) (e'.serve context) := by
  unfold Engine.serve
  rw [h.serves]
  cases e.serves with
  | none => exact h.withServes _
  | some other =>
    dsimp only
    split
    · exact h
    · have logged : Unending (e.log (.contextChanged e.epoch.number))
          (e'.log (.contextChanged e'.epoch.number)) := h.log rfl
      exact (logged.openEpoch (valid.log _) (valid'.log _)).withServes _

theorem invalidateOnce (h : Unending e e') (marker : Nat) :
    (e'.invalidateOnce marker).1 = (e.invalidateOnce marker).1 ∧
      Unending (e.invalidateOnce marker).2 (e'.invalidateOnce marker).2 := by
  unfold Engine.invalidateOnce
  rw [h.marker]
  split
  · exact ⟨rfl, h⟩
  · exact ⟨rfl, h.invalidate.act
      (⟨fun _ => rfl, fun _ => rfl⟩ : Numberless fun e => { e with marker := some marker })⟩

/-- A change to the graph that takes no notice of the stamps. -/
theorem withGraph (h : Unending e e') {g g' : Graph}
    (same : (View.unnumbered e'.epoch).graph g' = (View.unnumbered e.epoch).graph g) :
    Unending { e with graph := g } { e' with graph := g' } := by
  have engines := congrArg (fun f : Engine =>
    { f with graph := (View.unnumbered e.epoch).graph g }) h.same
  refine { h with same := ?_ }
  simp only [unnumbered, same] at engines ⊢
  exact engines

/-- The node may come from graphs with other epoch numbers. -/
theorem addNode (h : Unending e e') {node node' : Node} (same : node'.detach = node.detach) :
    (e'.addNode node').1 = (e.addNode node).1 ∧
      Unending (e.addNode node).2 (e'.addNode node').2 := by
  have added : e'.graph.add node' = e'.graph.add node := by simp only [Graph.add, same]
  refine ⟨h.size, h.withGraph ?_⟩
  show (View.unnumbered e'.epoch).graph (e'.graph.add node').2 =
    (View.unnumbered e.epoch).graph (e.graph.add node).2
  rw [added, Graph.unnumbered_add, Graph.unnumbered_add, h.graphs]

theorem connect (h : Unending e e') (link : Link) :
    ResultsAgree Unending (e.connect link) (e'.connect link) := by
  have same : (e'.graph.connect link).map (View.unnumbered e'.epoch).graph =
      (e.graph.connect link).map (View.unnumbered e.epoch).graph := by
    rw [← View.graph_connect, ← View.graph_connect, h.graphs]
  exact (resultsAgree_of_map_eq same).bind fun same => .done (h.withGraph same).invalidate

theorem disconnect (h : Unending e e') (target : InputAddr) :
    ResultsAgree (AnswersAgree True Unending) (e.disconnect target) (e'.disconnect target) := by
  have same :
      (e'.graph.disconnect target).map (fun r => (r.1, (View.unnumbered e'.epoch).graph r.2)) =
        (e.graph.disconnect target).map fun r => (r.1, (View.unnumbered e.epoch).graph r.2) := by
    rw [← View.graph_disconnect, ← View.graph_disconnect, h.graphs]
  refine (resultsAgree_of_map_eq same).bind ?_
  intro r r' same
  rcases Prod.mk.inj same with ⟨sources, graphs⟩
  exact .done ⟨fun _ => sources, (h.withGraph graphs).invalidate⟩

theorem setLiteral (h : Unending e e') (addr : InputAddr) (value : Value) :
    ResultsAgree Unending (e.setLiteral addr value) (e'.setLiteral addr value) := by
  have same : (e'.graph.setLiteral addr value).map (View.unnumbered e'.epoch).graph =
      (e.graph.setLiteral addr value).map (View.unnumbered e.epoch).graph := by
    rw [← View.graph_setLiteral, ← View.graph_setLiteral, h.graphs]
  exact (resultsAgree_of_map_eq same).bind fun same => .done (h.withGraph same).invalidate

theorem output_eq (h : Unending e e') (addr : OutputAddr) :
    e'.outputValue addr = e.outputValue addr := by
  unfold Engine.outputValue
  rw [← Graph.output_unnumbered_eq e'.graph e'.epoch, h.graphs, Graph.output_unnumbered_eq]

theorem map_input (h : Unending e e') (addr : InputAddr) :
    (e'.graph.input addr).map (View.unnumbered e'.epoch).input =
      (e.graph.input addr).map (View.unnumbered e.epoch).input := by
  rw [← View.graph_input, ← View.graph_input, h.graphs]

end Unending

/-- Such engines between two operations. -/
structure Twinned (e e' : Engine) : Prop where
  unending : Unending e e'
  valid : e.Valid
  valid' : e'.Valid

namespace Twinned

variable {e e' : Engine}

theorem openEpoch (h : Twinned e e') : Twinned e.openEpoch e'.openEpoch :=
  ⟨h.unending.openEpoch h.valid h.valid', h.valid.openEpoch.1, h.valid'.openEpoch.1⟩

theorem serve (h : Twinned e e') (context : Nat) :
    Unending (e.serve context) (e'.serve context) :=
  h.unending.serve h.valid h.valid' context

theorem getValue (h : Twinned e e') (addr : InputAddr) (context : Context) :
    (e'.getValue addr context).1 = (e.getValue addr context).1 ∧
      Twinned (e.getValue addr context).2 (e'.getValue addr context).2 := by
  suffices (e'.getValue addr context).1 = (e.getValue addr context).1 ∧
      Unending (e.getValue addr context).2 (e'.getValue addr context).2 from
    ⟨this.1, this.2, h.valid.getValue addr context, h.valid'.getValue addr context⟩
  have found := resultsAgree_of_map_eq (h.unending.map_input addr)
  unfold Engine.getValue
  generalize e.graph.input addr = input at found ⊢
  generalize e'.graph.input addr = input' at found ⊢
  cases found with
  | refused fault => exact ⟨rfl, h.unending⟩
  | done _ =>
    obtain ⟨value, after⟩ := (h.serve context.id).read context.locals addr
    exact ⟨congrArg Except.ok value, after⟩

theorem pullOutput (h : Twinned e e') (addr : OutputAddr) (context : Context) :
    (e'.pullOutput addr context).1 = (e.pullOutput addr context).1 ∧
      Twinned (e.pullOutput addr context).2 (e'.pullOutput addr context).2 := by
  suffices (e'.pullOutput addr context).1 = (e.pullOutput addr context).1 ∧
      Unending (e.pullOutput addr context).2 (e'.pullOutput addr context).2 from
    ⟨this.1, this.2, h.valid.pullOutput addr context, h.valid'.pullOutput addr context⟩
  unfold Engine.pullOutput
  rw [h.unending.output_eq]
  cases e.outputValue addr with
  | error fault => exact ⟨rfl, h.unending⟩
  | ok _ =>
    have after := (h.serve context.id).refresh context.locals addr.node
    exact ⟨after.output_eq addr, after⟩

theorem getValues (h : Twinned e e') (addrs : List InputAddr) :
    (e'.getValues addrs).1 = (e.getValues addrs).1 ∧
      Twinned (e.getValues addrs).2 (e'.getValues addrs).2 := by
  refine collect_pair ?_ addrs h.openEpoch
  intro addr f f' twinned
  rw [twinned.unending.context]
  exact twinned.getValue addr f.context

theorem pullOutputs (h : Twinned e e') (addrs : List OutputAddr) :
    (e'.pullOutputs addrs).1 = (e.pullOutputs addrs).1 ∧
      Twinned (e.pullOutputs addrs).2 (e'.pullOutputs addrs).2 := by
  refine collect_pair ?_ addrs h.openEpoch
  intro addr f f' twinned
  rw [twinned.unending.context]
  exact twinned.pullOutput addr f.context

end Twinned

end Engine

end NodeGraph
