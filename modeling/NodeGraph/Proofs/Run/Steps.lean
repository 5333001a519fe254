import NodeGraph.Proofs.Engine.Nesting
import NodeGraph.Proofs.Run.Valid

/-!
# The steps of a run

A step pulls, and then makes the changes that are determined by what it read (`Machine.Performs`).
What a task hands on to everything that its step leads to holds of all that is still to be done in a
run (`Run.Reaches.forall_pending`). So a loop is only ever resumed with a frame that its own kind of
node has left (`Run.Reaches.fits`).
-/

namespace NodeGraph

namespace Machine

/-- To make the step of a task in its epoch while computations nest at most so deep. -/
inductive Performs (depth : Nat) (m : Machine) (task : Task) : Step → Machine → Prop where
  | nothing : task.work (m.kind? task.node) = .nothing → Performs depth m task (.follow []) m
  | compute {kind : PureKind} {e' : Engine} : task.work (m.kind? task.node) = .compute kind →
    Engine.Computes m.context.locals depth task.node kind m.engine e' →
    Performs depth m task (.follow []) { m with engine := e' }
  | act {operands : List PortId} {effect : (PortId → Value) → Effect} {operand : PortId → Value}
      {e' : Engine} : task.work (m.kind? task.node) = .act operands effect →
    Engine.ReadsEach m.context.locals depth task.node operands m.engine operand e' →
    Performs depth m task (effect operand).step
      ((Machine.apply { m with engine := e' } task.node (effect operand)).countStep task.node)

theorem readsEach_readAll (m : Machine) (id : NodeId) (ports : List PortId) :
    (m.readAll id ports).2 = { m with engine := (m.readAll id ports).2.engine } ∧
      Engine.ReadsEach m.context.locals m.engine.graph.pureNodes.card id ports m.engine
        (m.readAll id ports).1 (m.readAll id ports).2.engine := by
  induction ports generalizing m with
  | nil => exact ⟨rfl, .nil⟩
  | cons port rest ih =>
    have first := Engine.reads_read m.context.locals m.engine ⟨id, port⟩
    have pulled := Engine.pulled_read m.context.locals ⟨id, port⟩ m.engine
    obtain ⟨machine, others⟩ := ih (m.read ⟨id, port⟩).2
    have nodes : (m.read ⟨id, port⟩).2.engine.graph.pureNodes = m.engine.graph.pureNodes :=
      Graph.pureNodes_eq_of_frame_eq pulled.frame
    rw [nodes] at others
    exact ⟨machine, .cons first others⟩

theorem performs_perform {m : Machine} (valid : m.engine.Valid) (task : Task) :
    Performs m.engine.graph.pureNodes.card (m.openStep task.node) task (m.perform task).1
      (m.perform task).2 := by
  have nodes : (m.openStep task.node).engine.graph.pureNodes = m.engine.graph.pureNodes :=
    Graph.pureNodes_eq_of_frame_eq (erase_openStep _ m task.node)
  have quiet := (ready_openStep valid task.node).1.valid.quiet
  rw [perform_eq, ← nodes]
  generalize m.openStep task.node = m at quiet
  cases work : task.work (m.kind? task.node) with
  | nothing => exact .nothing work
  | compute kind =>
    obtain ⟨node, found, isPure⟩ := Option.map_eq_some_iff.mp (pure_of_work work).1
    exact .compute work (Engine.computes_compute _ _ (Graph.pureKind?_eq_some found isPure)
      (quiet task.node))
  | act operands effect =>
    obtain ⟨machine, reads⟩ := readsEach_readAll m task.node operands
    have acts := Performs.act work reads
    rw [← machine] at acts
    exact acts

theorem kind?_of_pureKind? {m : Machine} {id : NodeId} {kind : PureKind}
    (pure : m.engine.graph.pureKind? id = some kind) : m.kind? id = some (.pure kind) := by
  obtain ⟨node, found, isPure⟩ := Graph.pureKind?_eq_some_iff.mp pure
  rw [kind?, found, Option.map_some, isPure]

theorem kind?_eq_of_frame_eq {m m' : Machine}
    (frame : m'.engine.graph.frame = m.engine.graph.frame) (id : NodeId) :
    m'.kind? id = m.kind? id :=
  Graph.map_kind_eq_of_frame_eq frame id

theorem kind?_openStep (m : Machine) (id other : NodeId) :
    (m.openStep id).kind? other = m.kind? other :=
  kind?_eq_of_frame_eq (erase_openStep _ m id) other

end Machine

/-- A loop is resumed with a frame that its kind of node leaves. -/
def Task.Fits (kind? : Option NodeKind) : Task → Prop
  | .enter _ => True
  | .resume _ (.counting _) => kind? = some (.control .forLoop)
  | .resume _ .condition =>
    kind? = some (.control .whileLoop) ∨ kind? = some (.control .doWhile)

theorem CountingFrame.again_effect {frame : CountingFrame} {body : PortId} {left : LoopFrame}
    (again : frame.effect.step = .again body left) :
    ∃ index next, frame.advance? = some (index, next) ∧ left = .counting next := by
  rcases frame.effect_cases with ⟨index, next, advanced, equal⟩ | equal
  · rw [equal] at again
    obtain ⟨_, rfl⟩ := Step.again.inj again
    exact ⟨index, next, advanced, rfl⟩
  · rw [equal] at again
    cases again

theorem again_conditionEffect {operand : PortId → Value} {body : PortId} {left : LoopFrame}
    (again : (conditionEffect operand).step = .again body left) : left = .condition := by
  rcases conditionEffect_cases operand with equal | equal
  · rw [equal] at again
    exact (Step.again.inj again).2.symm
  · rw [equal] at again
    cases again

/-- A loop leaves a frame that fits it. -/
theorem Task.Acts.fits_of_again {kind? : Option NodeKind} {task : Task}
    {operand : PortId → Value} {effect : Effect} (acts : task.Acts kind? operand effect)
    (fits : task.Fits kind?) {body : PortId} {frame : LoopFrame}
    (again : effect.step = .again body frame) (id : NodeId) :
    (Task.resume id frame).Fits kind? := by
  cases acts with
  | @action _ kind _ => cases kind <;> cases again
  | first found _ =>
    obtain ⟨_, next, _, rfl⟩ := CountingFrame.again_effect again
    exact found
  | skipped _ => cases again
  | tested found =>
    obtain rfl := again_conditionEffect again
    exact .inl found
  | untested found =>
    obtain ⟨_, rfl⟩ := Step.again.inj again
    exact .inr found
  | chosen _ => cases again
  | counted =>
    obtain ⟨_, next, _, rfl⟩ := CountingFrame.again_effect again
    exact fits
  | retested =>
    obtain rfl := again_conditionEffect again
    exact fits

/-- A step to the body of a loop is an act of the loop. -/
theorem Machine.acts_of_again {m m' : Machine} (valid : m.engine.Valid) {task : Task}
    {body : PortId} {frame : LoopFrame} (made : m.perform task = (.again body frame, m')) :
    ∃ operand, ∃ effect : Effect, task.Acts (m.kind? task.node) operand effect ∧
      effect.step = .again body frame := by
  have performs := performs_perform valid task
  rw [made] at performs
  generalize again : Step.again body frame = step at performs ⊢
  cases performs with
  | nothing _ => cases again
  | compute _ _ => cases again
  | @act _ effect operand _ work _ =>
    rw [kind?_openStep] at work
    exact ⟨operand, effect operand, Task.acts_of_work work operand, rfl⟩

/-- A step to the body of a loop leaves a frame that fits the loop. -/
theorem Machine.fits_of_perform {m m' : Machine} (valid : m.engine.Valid) {task : Task}
    (fits : task.Fits (m.kind? task.node)) {body : PortId} {frame : LoopFrame}
    (made : m.perform task = (.again body frame, m')) :
    (Task.resume task.node frame).Fits (m'.kind? task.node) := by
  have works := (works_perform valid task).2
  rw [made] at works
  obtain ⟨operand, effect, acts, again⟩ := acts_of_again valid made
  rw [kind?_eq_of_frame_eq works.frame]
  exact acts.fits_of_again fits again task.node

/-- After any steps, a step to the body of a loop leaves a frame that fits the loop. -/
theorem Machine.Reaches.fits_again {m m₁ m₂ : Machine} (reaches : m.Reaches m₁)
    (valid : m.engine.Valid) {task : Task} (fits : task.Fits (m.kind? task.node)) {body : PortId}
    {frame : LoopFrame} (made : m₁.perform task = (.again body frame, m₂)) :
    (Task.resume task.node frame).Fits (m.kind? task.node) := by
  obtain ⟨valid₁, works⟩ := reaches.works valid
  have works' := (Machine.works_perform valid₁ task).2
  rw [made] at works'
  rw [← Machine.kind?_eq_of_frame_eq works.frame] at fits
  rw [← Machine.kind?_eq_of_frame_eq (works.trans works').frame]
  exact Machine.fits_of_perform valid₁ fits made

/-- The flow outputs on which control leaves a node. -/
def Step.ports : Step → List PortId
  | .follow ports => ports
  | .again body _ => [body]

namespace Run

/-- The stages that a run goes through. -/
inductive Reaches (r : Run) : Run → Prop where
  | refl : Reaches r r
  | advance {m : Machine} {task : Task} {rest : List Task} {last : NodeId} :
    Reaches r ⟨m, task :: rest, last⟩ → Reaches r (advance m task rest last)

/-- The end of a run is one of its stages. -/
theorem Reaches.finish {first r r' : Run} (reaches : first.Reaches r) {limit : Nat}
    (finished : r.finish limit = some r') : first.Reaches r' := by
  induction limit generalizing r with
  | zero =>
    obtain ⟨m, pending, last⟩ := r
    cases pending with
    | nil =>
      obtain rfl := Option.some.inj finished
      exact reaches
    | cons task rest => cases finished
  | succ limit ih =>
    obtain ⟨m, pending, last⟩ := r
    cases pending with
    | nil =>
      obtain rfl := Option.some.inj finished
      exact reaches
    | cons task rest => exact ih (.advance reaches) finished

/-- What holds of the first task of a run and, with a task, of everything that its step goes on to
and leaves for later, holds of all that is still to be done. -/
theorem Reaches.forall_pending {P : Task → Prop} {m : Machine} {start : NodeId} {r : Run}
    (first : P (.enter start))
    (steps : ∀ {m₁ m₂ : Machine} {task : Task} {step : Step}, m.Reaches m₁ → P task →
      m₁.perform task = (step, m₂) →
      (∀ id ∈ m₂.following task.node step.ports, P (.enter id)) ∧
        ∀ body frame, step = .again body frame → P (.resume task.node frame))
    (reaches : (Run.start m start).Reaches r) :
    m.Reaches r.machine ∧ ∀ task ∈ r.pending, P task := by
  induction reaches with
  | refl =>
    refine ⟨.refl, fun task member => ?_⟩
    obtain rfl := List.mem_singleton.mp member
    exact first
  | @advance m₁ task rest last _ ih =>
    obtain ⟨reaches, pending⟩ := ih
    have reaches' := Machine.Reaches.perform task reaches
    refine ⟨by rwa [machine_advance], fun other member => ?_⟩
    generalize made : m₁.perform task = stepped at reaches'
    obtain ⟨step, m₂⟩ := stepped
    obtain ⟨entered, resumed⟩ := steps reaches (pending task List.mem_cons_self) made
    have left (member : other ∈ rest) : P other := pending other (List.mem_cons_of_mem task member)
    cases step with
    | follow ports =>
      rw [advance_follow made] at member
      rcases List.mem_append.mp member with member | member
      · obtain ⟨id, goes, rfl⟩ := List.mem_map.mp member
        exact entered id goes
      · exact left member
    | again body frame =>
      rw [advance_again made] at member
      rcases List.mem_append.mp member with member | member
      · obtain ⟨id, goes, rfl⟩ := List.mem_map.mp member
        exact entered id goes
      · rcases List.mem_cons.mp member with rfl | member
        · exact resumed body frame rfl
        · exact left member

/-- Whatever is still to be done in a run fits the node that it is to be done at. -/
theorem Reaches.fits {m : Machine} {start : NodeId} {r : Run} (valid : m.engine.Valid)
    (reaches : (Run.start m start).Reaches r) :
    m.Reaches r.machine ∧ ∀ task ∈ r.pending, task.Fits (r.machine.kind? task.node) := by
  obtain ⟨reached, fits⟩ := reaches.forall_pending (P := fun task => task.Fits (m.kind? task.node))
    trivial fun {_ _ task _} reached fits made =>
      ⟨fun _ _ => trivial, fun _ _ again => reached.fits_again valid fits (again ▸ made)⟩
  refine ⟨reached, fun task member => ?_⟩
  rw [Machine.kind?_eq_of_frame_eq (reached.works valid).2.frame]
  exact fits task member

end Run

/-- Where an execution ends, its run has come to a stage with that machine. -/
theorem Machine.exists_stage_of_execute {limit : Nat} {m m' : Machine} {start : NodeId}
    {result : Except Fault NodeId} (executed : m.execute limit start = some (result, m')) :
    ∃ r, (Run.start m start).Reaches r ∧ r.machine = m' := by
  unfold execute at executed
  split at executed
  · obtain ⟨rfl, rfl⟩ := Prod.mk.inj (Option.some.inj executed)
    exact ⟨_, .refl, rfl⟩
  · obtain ⟨r, finished, result⟩ := Option.map_eq_some_iff.mp executed
    obtain ⟨rfl, rfl⟩ := Prod.mk.inj result
    exact ⟨r, Run.Reaches.refl.finish finished, rfl⟩

end NodeGraph
