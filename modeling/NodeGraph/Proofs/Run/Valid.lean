import NodeGraph.Proofs.Engine.Valid
import NodeGraph.Proofs.Run.Effect
import NodeGraph.Proofs.Run.Recursion

/-!
# What a run leaves alone

What every step keeps, a run keeps (`Run.finish_keeps`). So a run keeps an engine valid; it changes
neither the wiring nor the literals, nor the settings of the engine, and the context it runs for
stays the same one (`Machine.works_execute`).
-/

namespace NodeGraph

namespace Machine

/-- The engine is valid, and its epoch serves the context. -/
structure Ready (m : Machine) : Prop where
  valid : m.engine.Valid
  serves : m.engine.serves = some m.context.id

/-- What every part of a run keeps. -/
structure Works (m m' : Machine) : Prop where
  ready : m.Ready → m'.Ready
  settings : m'.engine.settings = m.engine.settings
  frame : m'.engine.graph.frame = m.engine.graph.frame
  identity : m'.context.id = m.context.id

variable {m m' m'' : Machine}

theorem Works.refl (m : Machine) : Works m m := ⟨fun ready => ready, rfl, rfl, rfl⟩

theorem Works.trans (h : Works m m') (h' : Works m' m'') : Works m m'' where
  ready := h'.ready ∘ h.ready
  settings := h'.settings.trans h.settings
  frame := h'.frame.trans h.frame
  identity := h'.identity.trans h.identity

theorem works_of_pulled {engine : Engine} (pulled : m.engine.Pulled engine) :
    Works m { m with engine } where
  ready ready := ⟨ready.valid.pulled ready.serves pulled, pulled.serves.trans ready.serves⟩
  settings := Engine.settings_eq_of_still pulled.still
  frame := pulled.frame
  identity := rfl

theorem works_read (m : Machine) (addr : InputAddr) : Works m (m.read addr).2 :=
  works_of_pulled (Engine.pulled_read _ _ _)

theorem works_readAll (id : NodeId) (ports : List PortId) (m : Machine) :
    Works m (m.readAll id ports).2 := by
  refine (readAll_keeps (fun _ _ => True) ports ?_ (Works.refl m)).2
  intro port _ m' works
  exact ⟨trivial, works.trans (works_read m' ⟨id, port⟩)⟩

theorem works_log (m : Machine) (event : Event) : Works m (m.log event) where
  ready ready := ⟨ready.valid.log event, ready.serves⟩
  settings := rfl
  frame := rfl
  identity := rfl

theorem works_onContext (m : Machine) (effect : Effect) :
    Works m { m with context := effect.onContext m.context } where
  ready ready := ⟨ready.valid, ready.serves.trans (congrArg some (effect.id_onContext _).symm)⟩
  settings := rfl
  frame := rfl
  identity := effect.id_onContext m.context

theorem works_write (m : Machine) (addr : OutputAddr) (value : Value) :
    Works m (m.write addr value) where
  ready ready := ⟨ready.valid.write addr value, ready.serves⟩
  settings := rfl
  frame := Graph.erase_modifyNode fun _ _ => Node.erase_write rfl _ _
  identity := rfl

theorem works_apply (m : Machine) (id : NodeId) (effect : Effect) :
    Works m (m.apply id effect) := by
  unfold apply
  cases effect.event with
  | none =>
    cases effect.write with
    | none => exact works_onContext m effect
    | some write => exact (works_onContext m effect).trans (works_write _ _ _)
  | some event =>
    have logged := (works_log m event).trans (works_onContext _ effect)
    cases effect.write with
    | none => exact logged
    | some write => exact logged.trans (works_write _ _ _)

theorem works_countStep (m : Machine) (id : NodeId) : Works m (m.countStep id) where
  ready ready := ⟨(ready.valid.countEvaluation id).count _,
    (Engine.serves_count _ _).trans ready.serves⟩
  settings := Engine.settings_eq_of_still (Engine.still_count _ _)
  frame := by
    rw [countStep, Engine.graph_count]
    exact Graph.erase_modifyNode fun _ _ => rfl
  identity := rfl

theorem works_work (m : Machine) (id : NodeId) (work : Work) (quiet : m.engine.graph.Quiet)
    (pure : ∀ kind, work = .compute kind → m.kind? id = some (.pure kind)) :
    Works m (m.work id work).2 := by
  cases work with
  | nothing => exact .refl m
  | compute kind =>
    obtain ⟨node, found, isPure⟩ := Option.map_eq_some_iff.mp (pure kind rfl)
    exact works_of_pulled
      (Engine.pulled_relation.computeWithin _ _ found isPure (quiet.idle found))
  | act operands effect =>
    exact ((works_readAll id operands m).trans (works_apply _ _ _)).trans (works_countStep _ _)

/-- The engine of a step that is about to be made. -/
theorem engine_openStep (m : Machine) (id : NodeId) : ∃ journal,
    (m.openStep id).engine =
      { m.engine.openEpoch with serves := some m.context.id, journal } := by
  have opened : m.engine.openEpoch.serve m.context.id =
      { m.engine.openEpoch with serves := some m.context.id } := by
    rw [Engine.serve, Engine.serves_openEpoch]
  unfold openStep
  rw [opened]
  dsimp only
  split
  · split
    · exact ⟨_, rfl⟩
    · exact ⟨_, rfl⟩
  · exact ⟨_, rfl⟩

@[simp]
theorem erase_openStep (keeps : NodeKind → Bool) (m : Machine) (id : NodeId) :
    (m.openStep id).engine.graph.erase keeps = m.engine.graph.erase keeps := by
  obtain ⟨journal, opened⟩ := engine_openStep m id
  rw [opened]
  exact Engine.erase_openEpoch keeps m.engine

/-- A step starts with nothing current. -/
theorem ready_openStep (valid : m.engine.Valid) (id : NodeId) :
    (m.openStep id).Ready ∧ (m.openStep id).engine.Fresh := by
  obtain ⟨journal, opened⟩ := engine_openStep m id
  rcases valid.openEpoch with ⟨valid, fresh, _⟩
  refine ⟨⟨?_, ?_⟩, ?_⟩
  · rw [opened]
    exact ⟨valid.wellFormed, valid.quiet, valid.nonneg, valid.issued, fun _ => fresh⟩
  · rw [opened]
    rfl
  · rw [opened]
    exact fresh

/-- What to do is to compute a pure node only where there is one. -/
theorem pure_of_work {kind? : Option NodeKind} {task : Task} {kind : PureKind}
    (work : task.work kind? = .compute kind) :
    kind? = some (.pure kind) ∧ ∃ id, task = .enter id := by
  cases task with
  | resume id frame => cases work
  | enter id =>
    cases kind? with
    | none => cases work
    | some found =>
      cases found with
      | pure other =>
        obtain rfl := Work.compute.inj work
        exact ⟨rfl, id, rfl⟩
      | action other => cases work
      | control other => cases work

/-- A step leaves the machine ready, whether or not it was before. -/
theorem works_perform (valid : m.engine.Valid) (task : Task) :
    (m.perform task).2.Ready ∧ Works m (m.perform task).2 := by
  rcases ready_openStep valid task.node with ⟨ready, _⟩
  have works : Works (m.openStep task.node) (m.perform task).2 := by
    rw [perform_eq]
    exact works_work _ _ _ ready.valid.quiet fun kind work => (pure_of_work work).1
  obtain ⟨journal, opened⟩ := engine_openStep m task.node
  refine ⟨works.ready ready, fun _ => works.ready ready, ?_, ?_, works.identity⟩
  · rw [works.settings, opened]
    exact Engine.settings_openEpoch m.engine
  · rw [works.frame]
    exact erase_openStep _ m task.node

/-- The machines that steps lead to, whatever task each step does. -/
inductive Reaches (m : Machine) : Machine → Prop where
  | refl : Reaches m m
  | perform {m' : Machine} (task : Task) : Reaches m m' → Reaches m (m'.perform task).2

/-- Steps leave an engine valid. -/
theorem Reaches.works (h : Reaches m m') (valid : m.engine.Valid) :
    m'.engine.Valid ∧ Works m m' := by
  induction h with
  | refl => exact ⟨valid, .refl m⟩
  | perform task _ ih =>
    obtain ⟨ready, works⟩ := works_perform ih.1 task
    exact ⟨ready.valid, ih.2.trans works⟩

/-- A task that is done completely leaves the engine valid. -/
theorem works_completes {task : Task} {visits : List (Visit Machine)} {last : NodeId}
    (valid : m.engine.Valid) (completes : Machine.walker.Completes m task visits last m') :
    m'.engine.Valid ∧ Works m m' := by
  refine completes.keeps (P := fun m' => m'.engine.Valid ∧ Works m m') ?_ ⟨valid, .refl m⟩
  rintro m₁ task ⟨valid, works⟩
  obtain ⟨ready, works'⟩ := works_perform valid task
  exact ⟨ready.valid, works.trans works'⟩

end Machine

section Keeps

variable {P : Machine → Prop} (performed : ∀ {m} task, P m → P (Machine.perform m task).2)

include performed

/-- What every step keeps, a run keeps. -/
theorem Run.finish_keeps {limit : Nat} {r r' : Run} (h : P r.machine)
    (finished : r.finish limit = some r') : P r'.machine := by
  induction limit generalizing r with
  | zero =>
    obtain ⟨m, pending, last⟩ := r
    cases pending with
    | nil =>
      obtain rfl := Option.some.inj finished
      exact h
    | cons task rest => cases finished
  | succ limit ih =>
    obtain ⟨m, pending, last⟩ := r
    cases pending with
    | nil =>
      obtain rfl := Option.some.inj finished
      exact h
    | cons task rest =>
      have stepped := performed task h
      rw [← Run.machine_advance m task rest last] at stepped
      exact ih stepped finished

theorem Machine.execute_keeps {limit : Nat} {m m' : Machine} {start : NodeId}
    {result : Except Fault NodeId} (h : P m)
    (executed : m.execute limit start = some (result, m')) : P m' := by
  unfold execute at executed
  split at executed
  · obtain ⟨rfl, rfl⟩ := Prod.mk.inj (Option.some.inj executed)
    exact h
  · obtain ⟨run, finished, result⟩ := Option.map_eq_some_iff.mp executed
    obtain ⟨rfl, rfl⟩ := Prod.mk.inj result
    exact Run.finish_keeps performed (r := Run.start m start) h finished

end Keeps

/-- A run that ends leaves the engine valid. -/
theorem Machine.works_execute {limit : Nat} {m m' : Machine} {start : NodeId}
    {result : Except Fault NodeId} (valid : m.engine.Valid)
    (executed : m.execute limit start = some (result, m')) :
    m'.engine.Valid ∧ Machine.Works m m' := by
  refine Machine.execute_keeps (P := fun m' => m'.engine.Valid ∧ Works m m') ?_
    ⟨valid, .refl m⟩ executed
  rintro m₁ task ⟨valid, works⟩
  rcases works_perform valid task with ⟨ready, works'⟩
  exact ⟨ready.valid, works.trans works'⟩

end NodeGraph
