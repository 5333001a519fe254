import NodeGraph.Proofs.Engine.Cycles
import NodeGraph.Proofs.Session.Evaluations

/-!
# Cycles that are flagged in a session

A pure node that is pulled while nothing is current counts a cycle exactly if a cycle of pure nodes
leads to it (`Engine.TellsCycle`). Whatever is read and run, only nodes of such cycles are flagged
(`Engine.Evaluates.flags`), so a graph without them never flags any
(`Engine.Reachable.cycles_told`).
-/

namespace NodeGraph

/-- What a step reports itself is no cycle. -/
theorem Task.Acts.flagged?_event {kind? : Option NodeKind} {task : Task}
    {operand : PortId → Value} {effect : Effect} (acts : task.Acts kind? operand effect)
    {event : Event} (reports : effect.event = some event) : event.flagged? = none := by
  have counting {frame : CountingFrame} (reports : frame.effect.event = some event) :
      event.flagged? = none := by
    rcases frame.effect_cases with ⟨_, _, _, equal⟩ | equal
    · rw [equal] at reports
      cases reports
    · rw [equal] at reports
      cases reports
  have condition (reports : (conditionEffect operand).event = some event) :
      event.flagged? = none := by
    rcases conditionEffect_cases operand with equal | equal
    · rw [equal] at reports
      cases reports
    · rw [equal] at reports
      cases reports
  cases acts with
  | @action _ kind _ =>
    cases kind with
    | start | setLocal => cases reports
    | print =>
      obtain rfl := Option.some.inj reports
      rfl
  | first _ _ => exact counting reports
  | skipped _ =>
    obtain rfl := Option.some.inj reports
    rfl
  | tested _ => exact condition reports
  | untested _ => cases reports
  | chosen _ => cases reports
  | counted => exact counting reports
  | retested => exact condition reports

namespace Machine

variable {m m' : Machine} {task : Task}

theorem flags_openStep (m : Machine) (id : NodeId) :
    m.engine.Flags (m.openStep id).engine [] := by
  have served := (Engine.flags_openEpoch m.engine).trans
    (Engine.flags_serve m.engine.openEpoch m.context.id)
  unfold openStep
  dsimp only
  split
  · split
    · exact served.trans (Engine.flags_log _ _ rfl)
    · exact served
  · exact served

theorem flags_acted (m : Machine) (id : NodeId) {effect : Effect}
    (quiet : ∀ event, effect.event = some event → event.flagged? = none) :
    m.engine.Flags ((m.apply id effect).countStep id).engine [] := by
  have applied : m.engine.Flags (m.apply id effect).engine [] := by
    unfold apply
    cases reports : effect.event with
    | none => cases effect.write <;> exact .of_same rfl rfl rfl
    | some event =>
      have logged := Engine.flags_log m.engine event (quiet event reports)
      cases effect.write <;> exact ⟨logged.config, logged.flagged, logged.cycles⟩
  have marked := applied.trans (Engine.flags_modifyNode _ id Node.countEvaluation)
  exact marked.trans (Engine.flags_count _ Statistics.evaluation fun _ => rfl)

/-- A step flags nodes of cycles only. -/
theorem Performs.flags_cyclic {depth : Nat} {step : Step} (h : Performs depth m task step m')
    {g : Graph} (frame : m.engine.graph.frame = g.frame) (quiet : m.engine.graph.Quiet) :
    m.engine.FlagsOnly g.Cyclic m'.engine := by
  cases h with
  | nothing _ => exact .of_silent (.refl _)
  | compute work computes =>
    obtain ⟨node, found, isPure⟩ := Option.map_eq_some_iff.mp (pure_of_work work).1
    have pure := Graph.pureKind?_eq_some found isPure
    rw [Graph.pureKind?_eq_of_frame_eq frame] at pure
    have above := computes.flags frame pure (Engine.sought_self quiet task.node)
    exact above.mono fun _ above => above.2
  | @act _ effect operand e' work reads =>
    have acts := Task.acts_of_work work operand
    exact (reads.flags_cyclic frame quiet).trans (.of_silent
      (flags_acted { m with engine := e' } task.node fun _ reports => acts.flagged?_event reports))

/-- So does every sequence of steps. -/
theorem Reaches.flags_cyclic (h : m.Reaches m') (valid : m.engine.Valid) {g : Graph}
    (frame : m.engine.graph.frame = g.frame) : m.engine.FlagsOnly g.Cyclic m'.engine := by
  induction h with
  | refl => exact .of_silent (.refl _)
  | @perform m₁ task reaches ih =>
    obtain ⟨valid₁, works⟩ := reaches.works valid
    have ready := (ready_openStep valid₁ task.node).1
    have frame₁ : (m₁.openStep task.node).engine.graph.frame = g.frame :=
      (erase_openStep _ m₁ task.node).trans (works.frame.trans frame)
    have opened : m₁.engine.FlagsOnly g.Cyclic (m₁.openStep task.node).engine :=
      .of_silent (flags_openStep m₁ task.node)
    exact (ih.trans opened).trans
      ((performs_perform valid₁ task).flags_cyclic frame₁ ready.valid.quiet)

end Machine

namespace Engine

variable {e e' : Engine}

/-- What requests, steps of runs, epochs and invalidations lead to, in any order and for whatever
contexts. None of these changes the wiring. -/
inductive Evaluates (e : Engine) : Engine → Prop where
  | refl : Evaluates e e
  | answer {e' : Engine} (context : Context) (request : Request) : Evaluates e e' →
    Evaluates e (e'.answer context request).2
  | run {e' : Engine} {context : Context} {m : Machine} : Evaluates e e' →
    Machine.Reaches ⟨e', context⟩ m → Evaluates e m.engine
  | openEpoch {e' : Engine} : Evaluates e e' → Evaluates e e'.openEpoch
  | invalidate {e' : Engine} : Evaluates e e' → Evaluates e e'.invalidate
  /-- Another context becomes the engine's own, or another marker is kept. -/
  | beside {e' : Engine} (context : Context) (marker : Option Nat) : Evaluates e e' →
    Evaluates e { e' with context, marker }

theorem flags_answer (valid : e.Valid) {g : Graph} (frame : e.graph.frame = g.frame)
    (context : Context) (request : Request) :
    (e.answer context request).2.graph.frame = g.frame ∧
      FlagsOnly g.Cyclic e (e.answer context request).2 := by
  have served : FlagsOnly g.Cyclic e (e.serve context.id) := .of_silent (flags_serve e context.id)
  have frame' : (e.serve context.id).graph.frame = g.frame := (erase_serve _ e _).trans frame
  have quiet := (valid.serve context.id).quiet
  have answers := answers_answer context e request
  generalize e.answer context request = answered at answers ⊢
  obtain ⟨result, e'⟩ := answered
  dsimp only at answers ⊢
  cases answers with
  | noInput _ => exact ⟨frame, .of_silent (.refl _)⟩
  | noOutput _ => exact ⟨frame, .of_silent (.refl _)⟩
  | input _ reads =>
    exact ⟨(reads.respects pulled_relation).frame.trans frame',
      served.trans (reads.flags_cyclic frame' quiet)⟩
  | output _ refreshes =>
    exact ⟨(refreshes.respects pulled_relation).frame.trans frame',
      served.trans (refreshes.flags_cyclic frame' quiet)⟩

/-- Only nodes of cycles are flagged. -/
theorem Evaluates.flags (h : e.Evaluates e') (valid : e.Valid) :
    e'.Valid ∧ e'.graph.frame = e.graph.frame ∧ FlagsOnly e.graph.Cyclic e e' := by
  induction h with
  | refl => exact ⟨valid, rfl, .of_silent (.refl e)⟩
  | @answer e₁ context request _ ih =>
    obtain ⟨valid₁, frame, flags⟩ := ih
    obtain ⟨frame', flags'⟩ := flags_answer valid₁ frame context request
    refine ⟨?_, frame', flags.trans flags'⟩
    cases request with
    | input addr => exact valid₁.getValue addr context
    | output addr => exact valid₁.pullOutput addr context
  | @run e₁ context m _ reaches ih =>
    obtain ⟨valid₁, frame, flags⟩ := ih
    obtain ⟨valid', works⟩ := reaches.works valid₁
    exact ⟨valid', works.frame.trans frame, flags.trans (reaches.flags_cyclic valid₁ frame)⟩
  | @openEpoch e₁ _ ih =>
    obtain ⟨valid₁, frame, flags⟩ := ih
    exact ⟨valid₁.openEpoch.1, (erase_openEpoch _ e₁).trans frame,
      flags.trans (.of_silent (flags_openEpoch e₁))⟩
  | @invalidate e₁ _ ih =>
    obtain ⟨valid₁, frame, flags⟩ := ih
    refine ⟨valid₁.invalidate, ?_, flags.trans (.of_silent (flags_invalidate e₁))⟩
    rw [graph_invalidate]
    exact (Graph.erase_invalidate _ _).trans frame
  | beside context marker _ ih =>
    obtain ⟨valid₁, frame, flags⟩ := ih
    exact ⟨valid₁.of_eq rfl rfl rfl, frame, flags.trans (.of_silent (.of_same rfl rfl rfl))⟩

/-- Cycles are counted exactly if a cycle of pure nodes leads to the node. -/
def TellsCycle (e e' : Engine) (id : NodeId) : Prop :=
  e.statistics.cycles < e'.statistics.cycles ↔ ∃ a, e.graph.CycleAbove id a

section Tells

variable {opened : Engine} {locals : Locals} {depth : Nat} {id : NodeId} {kind : PureKind}
  (collects : e.config.collectStatistics = true) (valid : opened.Valid) (fresh : opened.Fresh)
  (frame : opened.graph.frame = e.graph.frame) (silent : Flags e opened [])

include collects valid fresh frame silent

theorem TellsCycle.of_computes (pure : e.graph.pureKind? id = some kind)
    (computes : Computes locals depth id kind opened e') : TellsCycle e e' id := by
  have pure' : opened.graph.pureKind? id = some kind :=
    (Graph.pureKind?_eq_of_frame_eq frame id).trans pure
  obtain ⟨ids, flags, above⟩ := computes.flags_iff valid.wellFormed valid.quiet fresh pure'
  have counted := (silent.trans flags).cycles
  rw [if_pos collects, List.nil_append] at counted
  simp only [Graph.cycleAbove_congr frame] at above
  rw [TellsCycle, ← above, ← List.length_pos_iff]
  omega

theorem TellsCycle.of_refreshes (pure : e.graph.pureKind? id = some kind)
    (h : Refreshes locals depth id opened e') : TellsCycle e e' id := by
  have pure' := (Graph.pureKind?_eq_of_frame_eq frame id).trans pure
  exact .of_computes collects valid fresh frame silent pure
    (computes_of_refreshes valid fresh pure' h)

/-- An input that is fed by a pure node is read while nothing is current. -/
theorem TellsCycle.of_reads {addr : InputAddr} {source : OutputAddr} {value : Value}
    (link : e.graph.source? addr = some source)
    (pure : e.graph.pureKind? source.node = some kind)
    (h : Reads locals depth addr opened value e') : TellsCycle e e' source.node := by
  rw [← Graph.source?_eq_of_frame_eq frame] at link
  obtain ⟨e₁, refreshes, rfl⟩ := refreshes_of_reads fresh link h
  have missed := silent.trans (flags_count opened Statistics.miss fun _ => rfl)
  have told : TellsCycle e e₁ source.node := .of_refreshes collects (valid.count _) (fresh.count _)
    (by rw [graph_count, frame]) missed pure refreshes
  exact told

end Tells

/-- A pure node that is pulled in an epoch in which nothing is current, or that a run enters, counts
a cycle exactly if a cycle of pure nodes leads to it. Whatever is done, only nodes that lie on such
cycles are flagged, and none is where there are no such cycles. -/
theorem Reachable.cycles_told {e : Engine} (reachable : e.Reachable)
    (collects : e.config.collectStatistics = true) :
    (∀ id, (e.graph.pureKind? id).isSome →
      (∀ port context, (e.serve context.id).Fresh → (e.graph.output? ⟨id, port⟩).isSome →
        TellsCycle e (e.pullOutput ⟨id, port⟩ context).2 id) ∧
      (∀ addr source context, (e.serve context.id).Fresh → e.graph.source? addr = some source →
        source.node = id → TellsCycle e (e.getValue addr context).2 id) ∧
      (∀ limit context, ∃ m', Machine.execute (limit + 1) ⟨e, context⟩ id = some (.ok id, m') ∧
        TellsCycle e m'.engine id)) ∧
    (∀ e', e.Evaluates e' → ∃ ids, Flags e e' ids ∧ ∀ id ∈ ids, e.graph.Cyclic id) ∧
    (e.graph.Acyclic → ∀ e', e.Evaluates e' →
      e'.statistics.cycles = e.statistics.cycles ∧ e'.flagged = e.flagged) := by
  have valid := reachable.valid
  refine ⟨fun id pure => ?_, fun e' evaluates => (evaluates.flags valid).2.2,
    fun acyclic e' evaluates => ?_⟩
  · obtain ⟨kind, pure⟩ := Option.isSome_iff_exists.mp pure
    refine ⟨fun port context fresh there => ?_, fun addr source context fresh link same => ?_,
      fun limit context => ?_⟩
    · obtain ⟨output, found⟩ := Option.isSome_iff_exists.mp there
      have refreshes := refreshes_refresh context.locals (e.serve context.id) id
      rw [pullOutput, outputValue_eq_map e, Graph.output_eq_ok_iff.mpr found]
      exact .of_refreshes collects (valid.serve _) fresh (erase_serve _ e _) (flags_serve e _) pure
        refreshes
    · obtain ⟨input, found, _⟩ := Graph.source?_eq_some_iff.mp link
      subst same
      have reads := reads_read context.locals (e.serve context.id) addr
      rw [getValue, Graph.input_eq_ok_iff.mpr found]
      exact .of_reads collects (valid.serve _) fresh (erase_serve _ e _) (flags_serve e _) link pure
        reads
    · have kind? := Machine.kind?_of_pureKind? (m := ⟨e, context⟩) pure
      refine ⟨_, Machine.execute_pure kind? limit, ?_⟩
      obtain ⟨ready, fresh⟩ := Machine.ready_openStep (m := ⟨e, context⟩) valid id
      have frame := Machine.erase_openStep (fun _ => false) ⟨e, context⟩ id
      have pure' := (Graph.pureKind?_eq_of_frame_eq frame id).trans pure
      rw [Machine.perform_pure kind?]
      exact .of_computes collects ready.valid fresh frame (Machine.flags_openStep ⟨e, context⟩ id)
        pure (computes_compute _ _ pure' (ready.valid.quiet id))
  · obtain ⟨ids, flags, cyclic⟩ := (evaluates.flags valid).2.2
    obtain rfl : ids = [] := by
      refine List.eq_nil_iff_forall_not_mem.mpr fun id member => ?_
      exact acyclic id (cyclic id member)
    refine ⟨?_, ?_⟩
    · rw [flags.cycles, if_pos collects, List.length_nil, Nat.add_zero]
    · rw [flags.flagged, List.append_nil]

/-- Two sums feed themselves and each other. -/
theorem cycles_told_entangled : (Engine.built entangled).Reachable ∧
    (Engine.built entangled).config.collectStatistics = true ∧
    ∀ context, (Engine.built entangled).statistics.cycles <
      ((Engine.built entangled).pullOutput ⟨0, 0⟩ context).2.statistics.cycles := by
  have reachable := @Engine.reachable_built entangled (by decide +kernel) (by decide +kernel)
  have collects : (Engine.built entangled).config.collectStatistics = true := by decide +kernel
  have unserved : (Engine.built entangled).serves = none := by decide +kernel
  have fresh := reachable.valid.unserved unserved
  have fed : (Engine.built entangled).graph.feeds 0 0 = true := by decide +kernel
  refine ⟨reachable, collects, fun context => ?_⟩
  have served := serve_fresh fresh reachable.valid context.id
  obtain ⟨told, _⟩ := (Engine.Reachable.cycles_told reachable collects).1 0 (by decide +kernel)
  exact (told 0 context served (by decide +kernel)).mpr
    ⟨0, Graph.upstream_self (by decide +kernel), .single fed⟩

end Engine

end NodeGraph
