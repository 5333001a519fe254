import NodeGraph.Proofs.Run.Lockstep

/-!
# Runs and the engine's own context

While a run is under way, its context is in the hands of the machine, and the engine still holds the
one that the run began with. No step looks at that one (`Machine.perform_withOwn`). So to put the
context back into the engine and to run on from there comes to the same as to run on
(`Machine.completes_withOwn`).
-/

namespace NodeGraph

namespace Engine

/-- The engine with another context of its own. -/
def withContext (e : Engine) (own : Context) : Engine := { e with context := own }

section

variable (e : Engine) (own : Context)

@[simp]
theorem graph_withContext : (e.withContext own).graph = e.graph := rfl

theorem count_withContext (update : Statistics → Statistics) :
    (e.withContext own).count update = (e.count update).withContext own := by
  have config : (e.withContext own).config = e.config := rfl
  unfold count
  rw [config]
  split <;> rfl

theorem invalidate_withContext : (e.withContext own).invalidate = e.invalidate.withContext own := by
  unfold invalidate
  dsimp only
  have counted := count_withContext { e with graph := e.graph.invalidate, serves := none } own
    Statistics.invalidation
  rw [graph_withContext]
  unfold withContext at counted ⊢
  rw [counted]
  rfl

theorem openEpoch_withContext : (e.withContext own).openEpoch = e.openEpoch.withContext own := by
  have begins : (e.withContext own).epoch.advance (e.withContext own).lastEpoch =
      e.epoch.advance e.lastEpoch := rfl
  unfold openEpoch
  rw [begins]
  generalize e.epoch.advance e.lastEpoch = advanced
  obtain ⟨kind, epoch⟩ := advanced
  cases kind with
  | stepped => rfl
  | wrapped =>
    have logged : { e.withContext own with epoch }.log .epochWrapped =
        ({ e with epoch }.log .epochWrapped).withContext own := rfl
    dsimp only
    rw [logged, count_withContext, invalidate_withContext]

theorem serve_withContext (context : Nat) :
    (e.withContext own).serve context = (e.serve context).withContext own := by
  have serves : (e.withContext own).serves = e.serves := rfl
  unfold serve
  rw [serves]
  cases e.serves with
  | none => rfl
  | some other =>
    dsimp only
    split
    · rfl
    · have logged (event) : (e.withContext own).log event = (e.log event).withContext own := rfl
      have epoch : (e.withContext own).epoch = e.epoch := rfl
      rw [logged, openEpoch_withContext, epoch]
      rfl

end

/-- A pull takes no notice of the engine's own context. -/
theorem withContext_pair (locals : Locals) (own : Context) :
    PullPair False locals locals (fun e e' => e' = e.withContext own) (fun _ v v' => v' = v)
      (fun _ v v' => v' = v) := by
  refine .of_same_graph locals ?_ ?_ ?_ ?_ ?_
  · rintro e _ rfl
    rfl
  · rintro e _ rfl
    rfl
  · rintro e _ id f rfl
    rfl
  · rintro e _ event rfl
    rfl
  · rintro e _ update rfl
    exact count_withContext e own update

theorem read_withContext (e : Engine) (own : Context) (locals : Locals) (addr : InputAddr) :
    ((e.withContext own).read locals addr).1 = (e.read locals addr).1 ∧
      ((e.withContext own).read locals addr).2 = (e.read locals addr).2.withContext own :=
  (withContext_pair locals own).read (fun _ => 0) addr rfl rfl False.elim

theorem compute_withContext (e : Engine) (own : Context) (locals : Locals) (depth : Nat)
    {id : NodeId} {kind : PureKind} (pure : e.graph.pureKind? id = some kind)
    (quiet : e.graph.Quiet) : (e.withContext own).compute locals depth id kind =
      (e.compute locals depth id kind).withContext own :=
  ((withContext_pair locals own).compute (fun _ => 0) depth rfl pure (quiet id) False.elim).1

end Engine

namespace Machine

/-- The machine whose engine has another context of its own. -/
def withOwn (m : Machine) (own : Context) : Machine :=
  { m with engine := m.engine.withContext own }

variable (m : Machine) (own : Context)

theorem apply_withOwn (id : NodeId) (effect : Effect) :
    (m.withOwn own).apply id effect = (m.apply id effect).withOwn own := by
  unfold apply
  cases effect.event <;> cases effect.write <;> rfl

theorem countStep_withOwn (id : NodeId) :
    (m.withOwn own).countStep id = (m.countStep id).withOwn own := by
  have counted := (m.engine.modifyNode id Node.countEvaluation).count_withContext own
    Statistics.evaluation
  exact congrArg (Machine.mk · m.context) counted

theorem openStep_withOwn (id : NodeId) :
    (m.withOwn own).openStep id = (m.openStep id).withOwn own := by
  have opened : ((m.withOwn own).openStep id).engine = (m.openStep id).engine.withContext own := by
    refine openStep_pair (R := fun e e' => e' = e.withContext own) id ?_ ?_ ?_ ?_
    · rw [withOwn, Engine.openEpoch_withContext, Engine.serve_withContext]
    · rintro e _ rfl
      rfl
    · rintro e _ rfl
      rfl
    · rintro e _ title rfl
      rfl
  exact congrArg (Machine.mk · m.context) opened

/-- No part of a step looks at the engine's own context. -/
theorem withOwn_pair :
    StepPair (fun m m' => m' = m.withOwn own) fun m m' => m' = m.withOwn own where
  kind? := by
    rintro m _ rfl id
    rfl
  read := by
    rintro m _ rfl addr
    obtain ⟨value, after⟩ := m.engine.read_withContext own m.context.locals addr
    exact ⟨value, congrArg (Machine.mk · m.context) after⟩
  nothing amid := amid
  compute := by
    rintro m _ rfl id kind quiet pure
    have computed :=
      m.engine.compute_withContext own m.context.locals m.engine.graph.size pure quiet
    exact congrArg (Machine.mk · m.context) computed
  acted := by
    rintro m _ rfl id effect
    rw [apply_withOwn, countStep_withOwn]

/-- A step goes on alike, whatever context the engine holds meanwhile. -/
theorem perform_withOwn (valid : m.engine.Valid) (task : Task) :
    ((m.withOwn own).perform task).1 = (m.perform task).1 ∧
      ((m.withOwn own).perform task).2 = (m.perform task).2.withOwn own :=
  (withOwn_pair own).perform valid task (openStep_withOwn m own task.node)

/-- So does everything that a task leads to. -/
theorem completes_withOwn {m m' : Machine} {task : Task} {visits : List (Visit Machine)}
    {last : NodeId} (valid : m.engine.Valid)
    (completes : Machine.walker.Completes m task visits last m') (own : Context) :
    ∃ visits', visits'.length = visits.length ∧
      Machine.walker.Completes (m.withOwn own) task visits' last (m'.withOwn own) := by
  have simulated : ∃ visits' t', Machine.walker.Completes (m.withOwn own) task visits' last t' ∧
      (m'.engine.Valid ∧ t' = m'.withOwn own) ∧ List.Forall₂ (fun _ _ => True) visits visits' := by
    refine completes.simulate (R := fun m m' => m.engine.Valid ∧ m' = m.withOwn own) ?_ ?_
      ⟨valid, rfl⟩
    · rintro m _ ⟨valid, rfl⟩ task
      obtain ⟨step, after⟩ := m.perform_withOwn own valid task
      exact ⟨step, ⟨(works_perform valid task).1.valid, after⟩, trivial⟩
    · rintro m _ ⟨_, rfl⟩ id ports
      rw [Machine.walker_following, Machine.walker_following]
      rfl
  obtain ⟨visits', _, completes', ⟨_, rfl⟩, agree⟩ := simulated
  exact ⟨visits', agree.length_eq.symm, completes'⟩

end Machine

end NodeGraph
