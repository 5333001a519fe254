import NodeGraph.Proofs.Run.Valid

/-!
# Steps in lockstep

Where control goes in a step and what the step does depend on the kind of its node and on the values
it reads. So two machines on which reads go on alike make the same step, and what its changes
establish holds after it (`StepPair.perform`). What a step writes into the journal first, when steps
are traced, depends on the title of its node (`Machine.openStep_pair`).
-/

namespace NodeGraph

/-- The epoch of a step is opened alike where the same nodes have the same titles. -/
theorem Machine.openStep_pair {R : Engine → Engine → Prop} {m m' : Machine} (id : NodeId)
    (served : R (m.engine.openEpoch.serve m.context.id) (m'.engine.openEpoch.serve m'.context.id))
    (title : ∀ {e e'}, R e e' →
      (e'.graph.node? id).map Node.title = (e.graph.node? id).map Node.title)
    (traced : ∀ {e e'}, R e e' → e'.config.traceExecution = e.config.traceExecution)
    (log : ∀ {e e'} title, R e e' → R (e.log (.executing id title e.epoch.number))
      (e'.log (.executing id title e'.epoch.number))) :
    R (m.openStep id).engine (m'.openStep id).engine := by
  have same := title served
  unfold openStep
  dsimp only
  generalize m.engine.openEpoch.serve m.context.id = e at served same ⊢
  generalize m'.engine.openEpoch.serve m'.context.id = e' at served same ⊢
  cases found : e.graph.node? id with
  | none =>
    rw [found, Option.map_none, Option.map_eq_none_iff] at same
    rw [same]
    exact served
  | some node =>
    rw [found] at same
    obtain ⟨node', found', titles⟩ := Option.map_eq_some_iff.mp same
    rw [found']
    dsimp only
    rw [traced served, titles]
    split
    · exact log node.title served
    · exact served

/-- Two machines in the middle of a step, where reads go on alike; `After` holds once the step has
made its changes. -/
structure StepPair (Amid After : Machine → Machine → Prop) : Prop where
  kind? : ∀ {m m'}, Amid m m' → ∀ id, m'.kind? id = m.kind? id
  read : ∀ {m m'}, Amid m m' → ∀ addr,
    (m'.read addr).1 = (m.read addr).1 ∧ Amid (m.read addr).2 (m'.read addr).2
  nothing : ∀ {m m'}, Amid m m' → After m m'
  compute : ∀ {m m'}, Amid m m' → ∀ {id kind}, m.engine.graph.Quiet →
    m.engine.graph.pureKind? id = some kind →
    After { m with engine := m.engine.compute m.context.locals m.engine.graph.size id kind }
      { m' with engine := m'.engine.compute m'.context.locals m'.engine.graph.size id kind }
  acted : ∀ {m m'}, Amid m m' → ∀ id effect,
    After ((m.apply id effect).countStep id) ((m'.apply id effect).countStep id)

namespace StepPair

variable {Amid After : Machine → Machine → Prop} (pair : StepPair Amid After) {m m' : Machine}

include pair

theorem readAll (amid : Amid m m') (id : NodeId) (ports : List PortId) :
    (∀ port ∈ ports, (m'.readAll id ports).1 port = (m.readAll id ports).1 port) ∧
      Amid (m.readAll id ports).2 (m'.readAll id ports).2 :=
  @readAll_pair _ _ Amid (fun _ v v' => v' = v) _ _ id ports
    (fun port _ _ _ amid => pair.read amid ⟨id, port⟩) _ _ amid

/-- Both machines make the same step, once its epoch is opened on both sides. -/
theorem perform (valid : m.engine.Valid) (task : Task)
    (begun : Amid (m.openStep task.node) (m'.openStep task.node)) :
    (m'.perform task).1 = (m.perform task).1 ∧ After (m.perform task).2 (m'.perform task).2 := by
  have quiet := (Machine.ready_openStep valid task.node).1.valid.quiet
  rw [Machine.perform_eq, Machine.perform_eq, pair.kind? begun]
  generalize m.openStep task.node = n at begun quiet ⊢
  generalize m'.openStep task.node = n' at begun ⊢
  cases work : task.work (n.kind? task.node) with
  | nothing => exact ⟨rfl, pair.nothing begun⟩
  | compute kind =>
    obtain ⟨node, found, isPure⟩ := Option.map_eq_some_iff.mp (Machine.pure_of_work work).1
    exact ⟨rfl, pair.compute begun quiet (Graph.pureKind?_eq_some found isPure)⟩
  | act operands effect =>
    obtain ⟨values, read⟩ := pair.readAll begun task.node operands
    unfold Machine.work
    dsimp only
    rw [Task.effect_congr work values]
    exact ⟨rfl, pair.acted read task.node _⟩

end StepPair

end NodeGraph
