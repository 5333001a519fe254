import NodeGraph.Proofs.Engine.Course
import NodeGraph.Proofs.Run.Steps

/-!
# Courses of runs

A step of control opens one epoch, serves the context of the run in it, and stays in it for all that
is read, computed and written. So a run opens as many epochs as it makes steps
(`Machine.goes_of_execute`).
-/

namespace NodeGraph

/-- The moves of runs and reads. -/
def Move.Evaluates : Move → Prop
  | opens | stays => True
  | _ => False

/-- Where a body runs, there is a node. -/
theorem Task.exists_kind_of_act {kind? : Option NodeKind} {task : Task} (fits : task.Fits kind?)
    {operands : List PortId} {effect : (PortId → Value) → Effect}
    (work : task.work kind? = .act operands effect) : ∃ kind, kind? = some kind := by
  cases task with
  | enter id =>
    cases kind? with
    | none => cases work
    | some kind => exact ⟨kind, rfl⟩
  | resume id frame =>
    cases frame with
    | counting frame => exact ⟨_, fits⟩
    | condition =>
      rcases fits with loop | loop
      · exact ⟨_, loop⟩
      · exact ⟨_, loop⟩

namespace Machine

variable {m m' : Machine}

/-- From one engine to the other by moves of runs, which open so many epochs. -/
abbrev Goes (m : Machine) (openings : Nat) (m' : Machine) : Prop :=
  m.engine.Goes Move.Evaluates openings m'.engine

theorem goes_readAll (m : Machine) (id : NodeId) (ports : List PortId) :
    m.Goes 0 (m.readAll id ports).2 := by
  refine (readAll_keeps (I := fun m' => m.Goes 0 m') (fun _ _ => True) ports ?_ (.refl _)).2
  intro port _ m' goes
  exact ⟨trivial, goes.trans (.of_moves (.reads m'.context.locals ⟨id, port⟩) trivial)⟩

theorem goes_apply (m : Machine) (id : NodeId) (effect : Effect) :
    m.Goes 0 (m.apply id effect) := by
  have logged (m : Machine) (event : Event) : m.Goes 0 (m.log event) :=
    .of_moves (.beside m.engine.context m.engine.marker _) trivial
  have wrote (m : Machine) (addr : OutputAddr) (value : Value) : m.Goes 0 (m.write addr value) :=
    .of_moves (.writes addr value) trivial
  unfold apply
  cases effect.event with
  | none =>
    cases effect.write with
    | none => exact .refl _
    | some write => exact wrote _ _ _
  | some event =>
    cases effect.write with
    | none => exact logged m event
    | some write => exact (logged m event).trans (wrote _ _ _)

/-- The epoch of a step is opened, whatever it was before. -/
theorem goes_openStep (m : Machine) (id : NodeId) : m.Goes 1 (m.openStep id) := by
  obtain ⟨journal, opened⟩ := engine_openStep m id
  have opens : m.engine.Goes Move.Evaluates 1 m.engine.openEpoch := .of_moves .opens trivial
  have serves : m.engine.openEpoch.Goes Move.Evaluates 0
      { m.engine.openEpoch with serves := some m.context.id } :=
    .of_moves (.serves _ (Engine.serves_openEpoch m.engine)) trivial
  have logged : Engine.Goes Move.Evaluates 0
      { m.engine.openEpoch with serves := some m.context.id } (m.openStep id).engine := by
    rw [opened]
    exact .of_moves (.beside _ _ journal) trivial
  exact (opens.trans serves).trans logged

/-- A step of control opens one epoch and stays in it. -/
theorem goes_perform (valid : m.engine.Valid) {task : Task} (fits : task.Fits (m.kind? task.node)) :
    m.Goes 1 (m.perform task).2 := by
  have opened := goes_openStep m task.node
  have quiet := (ready_openStep valid task.node).1.valid.quiet
  rw [← kind?_openStep m task.node] at fits
  rw [perform_eq]
  generalize m.openStep task.node = m₁ at opened quiet fits
  cases work : task.work (m₁.kind? task.node) with
  | nothing => exact opened
  | compute kind =>
    obtain ⟨node, found, isPure⟩ := Option.map_eq_some_iff.mp (pure_of_work work).1
    exact opened.trans
      (.of_moves (.computes m₁.context.locals found isPure (quiet.idle found)) trivial)
  | act operands effect =>
    have reads := goes_readAll m₁ task.node operands
    have acts := goes_apply (m₁.readAll task.node operands).2 task.node
      (effect (m₁.readAll task.node operands).1)
    have works := (works_readAll task.node operands m₁).trans (works_apply _ task.node
      (effect (m₁.readAll task.node operands).1))
    have there : task.node <
        (apply (m₁.readAll task.node operands).2 task.node
          (effect (m₁.readAll task.node operands).1)).engine.graph.size := by
      obtain ⟨kind, found⟩ := task.exists_kind_of_act fits work
      obtain ⟨node, found, _⟩ := Option.map_eq_some_iff.mp found
      rw [Graph.size_eq_of_frame_eq works.frame]
      exact Graph.lt_size_of_node? found
    exact ((opened.trans reads).trans acts).trans (.of_moves (.steps there) trivial)

end Machine

/-- A run has opened an epoch for every step that it made. -/
theorem Run.goes_of_finish {m₀ : Machine} {start : NodeId} {r r' : Run} {limit : Nat}
    (valid : m₀.engine.Valid) (reaches : (Run.start m₀ start).Reaches r)
    (finished : r.finish limit = some r') : r.machine.Goes (r.visits limit).length r'.machine := by
  induction limit generalizing r with
  | zero =>
    obtain ⟨m, pending, last⟩ := r
    cases pending with
    | nil =>
      obtain rfl := Option.some.inj finished
      exact .refl _
    | cons task rest => cases finished
  | succ limit ih =>
    obtain ⟨m, pending, last⟩ := r
    cases pending with
    | nil =>
      obtain rfl := Option.some.inj finished
      exact .refl _
    | cons task rest =>
      obtain ⟨reached, fits⟩ := reaches.fits valid
      have first := Machine.goes_perform (reached.works valid).1 (fits task List.mem_cons_self)
      have others := ih (.advance reaches) finished
      rw [Machine.Goes, machine_advance] at others
      have all := first.trans others
      rw [Nat.add_comm] at all
      exact all

/-- A run that ends has opened as many epochs as it made steps. -/
theorem Machine.goes_of_execute {m m' : Machine} {limit : Nat} {start last : NodeId}
    (valid : m.engine.Valid) (executed : m.execute limit start = some (.ok last, m')) :
    m.Goes (Run.visits limit (Run.start m start)).length m' := by
  unfold execute at executed
  split at executed
  · cases executed
  · obtain ⟨r, finished, result⟩ := Option.map_eq_some_iff.mp executed
    obtain ⟨-, rfl⟩ := Prod.mk.inj result
    exact Run.goes_of_finish valid .refl finished

end NodeGraph
