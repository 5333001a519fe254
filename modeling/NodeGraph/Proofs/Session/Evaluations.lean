import NodeGraph.Proofs.Engine.Evaluations
import NodeGraph.Proofs.Run.Steps
import NodeGraph.Proofs.Session.Nesting
import NodeGraph.Proofs.Session.Numbers

/-!
# How often nodes are computed in a session

In the requests that are answered in one epoch, and in the step that opened it, a pure node is
computed at most once. A request for a pure node where nothing is current for its context computes
exactly the nodes upstream of it (`Engine.Reachable.evaluations_once`).
-/

namespace NodeGraph

namespace Graph

variable {g : Graph}

@[simp]
theorem evaluations_invalidate (g : Graph) (id : NodeId) :
    g.invalidate.evaluations id = g.evaluations id := by
  rw [evaluations, invalidate_eq_mapNodes, node?_mapNodes, Option.map_map, evaluations]
  rfl

end Graph

namespace Engine

variable {e e' : Engine}

@[simp]
theorem evaluations_openEpoch (e : Engine) (id : NodeId) :
    e.openEpoch.graph.evaluations id = e.graph.evaluations id := by
  unfold openEpoch
  generalize e.epoch.advance e.lastEpoch = advanced
  obtain ⟨kind, epoch⟩ := advanced
  cases kind with
  | stepped => rfl
  | wrapped =>
    dsimp only
    rw [graph_invalidate, Graph.evaluations_invalidate, graph_count]
    rfl

@[simp]
theorem evaluations_serve (e : Engine) (context : Nat) (id : NodeId) :
    (e.serve context).graph.evaluations id = e.graph.evaluations id := by
  unfold serve
  split
  · rfl
  · split
    · rfl
    · exact evaluations_openEpoch _ id

/-- The number of an epoch is not that of the one before, unless it is the only one. -/
theorem InRange.epoch_openEpoch_ne (range : e.InRange) : e.openEpoch.epoch ≠ e.epoch := by
  intro same
  have number := congrArg Epoch.number same
  have last : Epoch.lastNumber = 9223372036854775807 := by decide
  have le := range.le
  rw [epoch_openEpoch, range.last] at number
  simp only [Epoch.advance, Option.any_some, decide_eq_true_eq] at number
  split at number
  · simp only at number
    omega
  · simp only at number
    omega

/-- A context that is served without a new epoch finds the graph as it was. -/
theorem InRange.graph_serve (range : e.InRange) {context : Nat}
    (epoch : (e.serve context).epoch = e.epoch) : (e.serve context).graph = e.graph := by
  unfold Engine.serve at epoch ⊢
  split at epoch
  · rfl
  · split at epoch
    next same => rw [if_pos same]
    · have logged : (e.log (.contextChanged e.epoch.number)).InRange := ⟨range.last, range.le⟩
      exact absurd epoch logged.epoch_openEpoch_ne

theorem serve_fresh (fresh : e.Fresh) (valid : e.Valid) (context : Nat) :
    (e.serve context).Fresh := by
  by_cases serves : e.serves = some context
  · rwa [serve_of_serves serves]
  · exact valid.fresh_serve serves

/-- What an answer computes in an epoch that it does not leave. -/
theorem tally_answer (valid : e.Valid) (range : e.InRange) {context : Context} {request : Request}
    (epoch : (e.answer context request).2.epoch = e.epoch) (id : NodeId) :
    Tally e (e.answer context request).2 id := by
  have served {e'} (pulled : Pulled (e.serve context.id) e') (epoch : e'.epoch = e.epoch) :
      Tally e (e.serve context.id) id := by
    rw [pulled.epoch] at epoch
    exact .of_graph_eq epoch (range.graph_serve epoch) id
  have nonneg := (valid.serve context.id).nonneg
  have answers := answers_answer context e request
  generalize e.answer context request = answered at answers epoch ⊢
  obtain ⟨result, e'⟩ := answered
  dsimp only at answers epoch ⊢
  cases answers with
  | noInput _ => exact .of_graph_eq rfl rfl id
  | noOutput _ => exact .of_graph_eq rfl rfl id
  | input _ reads =>
    exact (served (reads.respects pulled_relation) epoch).trans (reads.tally nonneg id)
  | output _ refreshes =>
    exact (served (refreshes.respects pulled_relation) epoch).trans (refreshes.tally nonneg id)

/-- The engines that requests lead to which are answered in the same epoch. -/
inductive Within (e : Engine) : Engine → Prop where
  | refl : Within e e
  | answer {e' : Engine} (context : Context) (request : Request) : Within e e' →
    (e'.answer context request).2.epoch = e'.epoch → Within e (e'.answer context request).2

/-- Requests that are answered in the same epoch compute a node once at most, all together. -/
theorem Within.tally (h : Within e e') (valid : e.Valid) (range : e.InRange) (id : NodeId) :
    (e'.Valid ∧ e'.InRange) ∧ Tally e e' id := by
  induction h with
  | refl => exact ⟨⟨valid, range⟩, .of_graph_eq rfl rfl id⟩
  | answer context request _ epoch ih =>
    obtain ⟨⟨valid, range⟩, tally⟩ := ih
    refine ⟨?_, tally.trans (tally_answer valid range epoch id)⟩
    cases request with
    | input addr => exact ⟨valid.getValue addr context, range.getValue addr context⟩
    | output addr => exact ⟨valid.pullOutput addr context, range.pullOutput addr context⟩

end Engine

namespace Machine

variable {m m' : Machine} {task : Task}

/-- What a step does after its reads shows in no pure node but the one it is made at. -/
theorem tally_acted (m : Machine) (id : NodeId) (effect : Effect) {other : NodeId}
    (apart : id ≠ other) :
    m.engine.Tally ((m.apply id effect).countStep id).engine other := by
  have node := m.node?_acted_of_ne apart effect
  exact .kept (Engine.current_congr (epoch_acted m id effect) (by rw [node]))
    (by rw [Graph.evaluations, node]; rfl)

/-- A step that fits its node computes every pure node once at most. -/
theorem Performs.tally {depth : Nat} {step : Step} (h : Performs depth m task step m')
    (nonneg : 0 ≤ m.engine.epoch.number) (fresh : m.engine.Fresh)
    (fits : task.Fits (m.kind? task.node)) {id : NodeId} {kind : PureKind}
    (pure : m.kind? id = some (.pure kind)) : m.engine.Tally m'.engine id := by
  cases h with
  | nothing _ => exact .of_graph_eq rfl rfl id
  | compute work computes =>
    obtain ⟨node, found, isPure⟩ := Option.map_eq_some_iff.mp (pure_of_work work).1
    exact computes.tally nonneg (Graph.pureKind?_eq_some found isPure) (fresh.not_current _) id
  | @act _ effect operand e' work reads =>
    have apart : task.node ≠ id := by
      rintro rfl
      rw [pure] at fits work
      cases task with
      | enter _ => cases work
      | resume _ frame =>
        cases frame with
        | counting _ => cases fits
        | condition => rcases fits with fits | fits <;> cases fits
    have acted := tally_acted { m with engine := e' } task.node (effect operand) apart
    exact (reads.tally nonneg id).trans acted

/-- The epoch of a step is opened without any computation. -/
theorem evaluations_openStep (m : Machine) (id other : NodeId) :
    (m.openStep id).engine.graph.evaluations other = m.engine.graph.evaluations other := by
  obtain ⟨journal, opened⟩ := engine_openStep m id
  rw [opened]
  exact Engine.evaluations_openEpoch m.engine other

theorem perform_pure {id : NodeId} {kind : PureKind} (pure : m.kind? id = some (.pure kind)) :
    m.perform (.enter id) = (.follow [],
      let opened := m.openStep id
      { m with engine :=
          opened.engine.compute m.context.locals opened.engine.graph.size id kind }) := by
  rw [perform_eq]
  show (m.openStep id).work id (Task.work ((m.openStep id).kind? id) (.enter id)) = _
  rw [kind?_openStep, pure]
  rfl

/-- A run that enters a pure node computes it and ends there. -/
theorem execute_pure {id : NodeId} {kind : PureKind} (pure : m.kind? id = some (.pure kind))
    (limit : Nat) :
    m.execute (limit + 1) id = some (.ok id, (m.perform (.enter id)).2) := by
  obtain ⟨node, found, _⟩ := Option.map_eq_some_iff.mp pure
  unfold execute
  rw [Graph.node_eq_ok_iff.mpr found]
  dsimp only
  rw [Run.start, Run.finish, Run.advance_follow (Prod.ext (by rw [perform_pure pure]) rfl)]
  simp only [following, List.flatMap_nil, List.map_nil, List.append_nil, if_true]
  cases limit <;> rfl

end Machine

namespace Engine

/-- Every node that lies upstream was computed once more, and no other node was. -/
def RanUpstream (e e' : Engine) (id : NodeId) : Prop :=
  ∀ other, (e.graph.Upstream other id →
      e'.graph.evaluations other = e.graph.evaluations other + 1) ∧
    (¬ e.graph.Upstream other id → e'.graph.evaluations other = e.graph.evaluations other)

section Upstream

variable {e e' : Engine} {locals : Locals} {depth : Nat} {id : NodeId} {kind : PureKind}

/-- The computation of a pure node after an epoch was opened or a context was served. -/
theorem RanUpstream.of_computes {opened : Engine} (valid : opened.Valid) (fresh : opened.Fresh)
    (frame : opened.graph.frame = e.graph.frame)
    (same : ∀ other, opened.graph.evaluations other = e.graph.evaluations other)
    (pure : e.graph.pureKind? id = some kind)
    (computes : Computes locals depth id kind opened e') : RanUpstream e e' id := by
  intro other
  have pure' : opened.graph.pureKind? id = some kind :=
    (Graph.pureKind?_eq_of_frame_eq frame id).trans pure
  rw [← same other, ← Graph.upstream_congr frame]
  exact computes.evaluations pure' valid.wellFormed valid.quiet valid.nonneg fresh other

theorem computes_of_refreshes (valid : e.Valid) (fresh : e.Fresh)
    (pure : e.graph.pureKind? id = some kind) (h : Refreshes locals depth id e e') :
    Computes locals depth id kind e e' := by
  obtain ⟨node, found, isPure⟩ := Graph.pureKind?_eq_some_iff.mp pure
  cases h with
  | impure impure => simp [pure] at impure
  | current found' _ current => exact absurd current (fresh.node_stale found')
  | cycle found' _ _ busy =>
    rw [valid.quiet.idle found'] at busy
    cases busy
  | computed found' pure' _ _ computes =>
    obtain rfl := Option.some.inj (pure.symm.trans (Graph.pureKind?_eq_some found' pure'))
    exact computes

theorem RanUpstream.of_refreshes {opened : Engine} (valid : opened.Valid) (fresh : opened.Fresh)
    (frame : opened.graph.frame = e.graph.frame)
    (same : ∀ other, opened.graph.evaluations other = e.graph.evaluations other)
    (pure : e.graph.pureKind? id = some kind) (h : Refreshes locals depth id opened e') :
    RanUpstream e e' id := by
  have pure' := (Graph.pureKind?_eq_of_frame_eq frame id).trans pure
  exact .of_computes valid fresh frame same pure (computes_of_refreshes valid fresh pure' h)

theorem Fresh.count (fresh : e.Fresh) (update : Statistics → Statistics) :
    (e.count update).Fresh := by
  unfold Fresh
  rw [graph_count, epoch_count]
  exact fresh

/-- To read an input that has a source while nothing is current, the source is brought up to
date. -/
theorem refreshes_of_reads (fresh : e.Fresh) {addr : InputAddr} {source : OutputAddr}
    {value : Value} (link : e.graph.source? addr = some source)
    (h : Reads locals depth addr e value e') :
    ∃ e₁, Refreshes locals depth source.node (e.count Statistics.miss) e₁ ∧
      e' = e₁.store addr value := by
  obtain ⟨input, place, linked⟩ := Graph.source?_eq_some_iff.mp link
  cases h with
  | absent missing => simp [missing] at place
  | unlinked found unlinked =>
    obtain rfl := Option.some.inj (found.symm.trans place)
    simp [unlinked] at linked
  | cached found _ current => exact absurd current (fresh.input_stale found)
  | @pulled _ _ _ e₁ _ source' found linked' _ refreshes =>
    obtain rfl := Option.some.inj (found.symm.trans place)
    obtain rfl : source' = source := Option.some.inj (linked'.symm.trans linked)
    exact ⟨e₁, refreshes, rfl⟩

/-- An input that is fed by a pure node is read while nothing is current. -/
theorem RanUpstream.of_reads {opened : Engine} (valid : opened.Valid) (fresh : opened.Fresh)
    (frame : opened.graph.frame = e.graph.frame)
    (same : ∀ other, opened.graph.evaluations other = e.graph.evaluations other)
    {addr : InputAddr} {source : OutputAddr} {value : Value}
    (link : e.graph.source? addr = some source)
    (pure : e.graph.pureKind? source.node = some kind)
    (h : Reads locals depth addr opened value e') : RanUpstream e e' source.node := by
  rw [← Graph.source?_eq_of_frame_eq frame] at link
  obtain ⟨e₁, refreshes, rfl⟩ := refreshes_of_reads fresh link h
  have ran : RanUpstream e e₁ source.node :=
    .of_refreshes (valid.count _) (fresh.count _) (by rw [graph_count, frame])
      (by simpa only [graph_count] using same) pure refreshes
  intro other
  rw [evaluations_store]
  exact ran other

end Upstream

/-- In the requests that are answered in one epoch a pure node is computed at most once, and also
when they follow a step in its epoch, with that step. To pull a pure node where nothing is current
once its context is served, or to run from it, computes every node upstream once and no other. -/
theorem Reachable.evaluations_once {e : Engine} (reachable : e.Reachable) :
    (∀ e' id, Within e e' → (e.graph.pureKind? id).isSome →
      e'.graph.evaluations id ≤ e.graph.evaluations id + 1) ∧
    (∀ context start m task rest last e' id,
      (Run.start ⟨e, context⟩ start).Reaches ⟨m, task :: rest, last⟩ →
      Within (m.perform task).2.engine e' → (e.graph.pureKind? id).isSome →
      e'.graph.evaluations id ≤ m.engine.graph.evaluations id + 1) ∧
    (∀ id, (e.graph.pureKind? id).isSome →
      (∀ port context, (e.serve context.id).Fresh → (e.graph.output? ⟨id, port⟩).isSome →
        RanUpstream e (e.pullOutput ⟨id, port⟩ context).2 id) ∧
      (∀ addr source context, (e.serve context.id).Fresh → e.graph.source? addr = some source →
        source.node = id → RanUpstream e (e.getValue addr context).2 id) ∧
      (∀ limit context, ∃ m', Machine.execute (limit + 1) ⟨e, context⟩ id = some (.ok id, m') ∧
        RanUpstream e m'.engine id)) := by
  have valid := reachable.valid
  have range := (reachable.holds inRange_invariant).2
  refine ⟨fun e' id within _ => (within.tally valid range id).2.le, ?_, ?_⟩
  · intro context start m task rest last e' id reaches within pure
    obtain ⟨reaches, fits⟩ := reaches.fits valid
    obtain ⟨valid', works⟩ := reaches.works valid
    have range' := reaches.inRange valid range
    obtain ⟨kind, pure⟩ := Option.isSome_iff_exists.mp pure
    have kind? : m.kind? id = some (.pure kind) := by
      rw [Machine.kind?_eq_of_frame_eq works.frame]
      exact Machine.kind?_of_pureKind? pure
    obtain ⟨ready, fresh⟩ := Machine.ready_openStep valid' task.node
    have stepped := (Machine.performs_perform valid' task).tally ready.valid.nonneg fresh
      (by rw [Machine.kind?_openStep]; exact fits task List.mem_cons_self)
      (by rw [Machine.kind?_openStep]; exact kind?)
    have answered := (within.tally (Machine.works_perform valid' task).1.valid
      (Machine.inRange_perform valid' range' task) id).2
    rw [← Machine.evaluations_openStep m task.node id]
    exact (stepped.trans answered).le
  · intro id pure
    obtain ⟨kind, pure⟩ := Option.isSome_iff_exists.mp pure
    refine ⟨fun port context fresh there => ?_, fun addr source context fresh link same => ?_,
      fun limit context => ?_⟩
    · obtain ⟨output, found⟩ := Option.isSome_iff_exists.mp there
      have refreshes := refreshes_refresh context.locals (e.serve context.id) id
      rw [pullOutput, outputValue_eq_map e, Graph.output_eq_ok_iff.mpr found]
      exact .of_refreshes (valid.serve _) fresh (erase_serve _ e _) (evaluations_serve e _) pure
        refreshes
    · obtain ⟨input, found, _⟩ := Graph.source?_eq_some_iff.mp link
      subst same
      have reads := reads_read context.locals (e.serve context.id) addr
      rw [getValue, Graph.input_eq_ok_iff.mpr found]
      exact .of_reads (valid.serve _) fresh (erase_serve _ e _) (evaluations_serve e _) link pure
        reads
    · have kind? := Machine.kind?_of_pureKind? (m := ⟨e, context⟩) pure
      refine ⟨_, Machine.execute_pure kind? limit, ?_⟩
      obtain ⟨ready, fresh⟩ := Machine.ready_openStep (m := ⟨e, context⟩) valid id
      have frame := Machine.erase_openStep (fun _ => false) ⟨e, context⟩ id
      have pure' := (Graph.pureKind?_eq_of_frame_eq frame id).trans pure
      rw [Machine.perform_pure kind?]
      exact .of_computes ready.valid fresh frame (Machine.evaluations_openStep _ id) pure
        (computes_compute _ _ pure' (ready.valid.quiet id))

/-- The local variable is read twice for its double, but looked up once, also where the double was
read for another context in the epoch so far. -/
theorem evaluations_once_doubling :
    let read := Engine.built (doubling ++ [.newContext, .pullOutput ⟨1, 0⟩ 0])
    read.Reachable ∧ (read.graph.pureKind? 1).isSome ∧ read.serves = some 1 ∧
      (read.graph.output? ⟨1, 0⟩).isSome ∧ read.graph.evaluations 0 = 1 ∧
      ∀ context, context.id ≠ 1 →
        (read.pullOutput ⟨1, 0⟩ context).2.graph.evaluations 0 = 2 := by
  intro read
  have reachable : read.Reachable := reachable_built (by decide +kernel) (by decide +kernel)
  have pure : (read.graph.pureKind? 1).isSome := by decide +kernel
  have serves : read.serves = some 1 := by decide +kernel
  have there : (read.graph.output? ⟨1, 0⟩).isSome := by decide +kernel
  have before : read.graph.evaluations 0 = 1 := by decide +kernel
  have fed : read.graph.feeds 0 1 = true := by decide +kernel
  refine ⟨reachable, pure, serves, there, before, fun context other => ?_⟩
  have fresh : (read.serve context.id).Fresh := by
    refine reachable.valid.fresh_serve ?_
    rw [serves, ne_eq, Option.some.injEq]
    exact Ne.symm other
  obtain ⟨ran, _⟩ := (Engine.Reachable.evaluations_once reachable).2.2 1 pure
  rw [(ran 0 context fresh there 0).1 ⟨by decide +kernel, .single fed⟩, before]

end Engine

end NodeGraph
