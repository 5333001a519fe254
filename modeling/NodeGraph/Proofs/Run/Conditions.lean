import NodeGraph.Proofs.Run.Activation
import NodeGraph.Proofs.Run.Scene

/-!
# Loops that test a condition

Whether such a loop makes another pass is decided by the value of its condition alone, which is read
anew each time (`Machine.perform_condition`); where the pure nodes form no cycle it is the value
without caches (`Machine.condition_eq_naiveInput`). So the tests that an activation makes all find
the condition to hold, but for the last one (`Machine.tests_of_loops`).
-/

namespace NodeGraph

/-- The task is to read the condition of the loop. -/
def Task.Tests (kind? : Option NodeKind) (id : NodeId) (task : Task) : Prop :=
  task = .resume id .condition ∨ (task = .enter id ∧ kind? = some (.control .whileLoop))

theorem Task.Tests.node {kind? : Option NodeKind} {id : NodeId} {task : Task}
    (tests : task.Tests kind? id) : task.node = id := by
  rcases tests with rfl | ⟨rfl, _⟩ <;> rfl

theorem Task.Tests.work {kind? : Option NodeKind} {id : NodeId} {task : Task}
    (tests : task.Tests kind? id) :
    task.work kind? = .act [Layout.WhileLoop.condition] conditionEffect := by
  rcases tests with rfl | ⟨rfl, rfl⟩ <;> rfl

/-- Where a loop goes on when its condition has this value. -/
def conditionStep (condition : Value) : Step :=
  if condition.isTruthy then .again Layout.WhileLoop.body .condition
  else .follow [Layout.WhileLoop.done]

theorem conditionStep_eq_again {condition : Value} {body : PortId} {frame : LoopFrame}
    (again : conditionStep condition = .again body frame) :
    condition.isTruthy = true ∧ frame = .condition := by
  unfold conditionStep at again
  split at again
  next holds => exact ⟨holds, (Step.again.inj again).2.symm⟩
  · cases again

theorem conditionStep_eq_follow {condition : Value} {ports : List PortId}
    (leaves : conditionStep condition = .follow ports) : condition.isTruthy = false := by
  unfold conditionStep at leaves
  split at leaves
  · cases leaves
  next fails => exact eq_false_of_ne_true fails

theorem conditionEffect_eq (operand : PortId → Value) :
    conditionEffect operand = { step := conditionStep (operand Layout.WhileLoop.condition) } := by
  unfold conditionEffect conditionStep
  split <;> rfl

namespace Machine

variable {g : Graph} {m out : Machine} {id : NodeId} {task leaving : Task}

/-- The value that a loop finds when it reads its condition. -/
def condition (m : Machine) (id : NodeId) : Value :=
  ((m.openStep id).read ⟨id, Layout.WhileLoop.condition⟩).1

/-- The step of a loop that reads its condition. -/
theorem perform_condition (tests : task.Tests (m.kind? id) id) :
    (m.perform task).1 = conditionStep (m.condition id) := by
  obtain rfl := tests.node
  rw [perform_eq, kind?_openStep, tests.work]
  exact congrArg Effect.step (conditionEffect_eq _)

/-- The first pass of a loop that reads its condition after each pass. -/
theorem perform_untested (loop : m.kind? id = some (.control .doWhile)) :
    (m.perform (.enter id)).1 = .again Layout.WhileLoop.body .condition := by
  rw [perform_eq, Task.node, kind?_openStep, loop]
  rfl

theorem condition_eq_naiveInput (valid : m.engine.Valid) (acyclic : m.engine.graph.Acyclic)
    (id : NodeId) : m.condition id =
      m.engine.graph.naiveInput m.context.locals ⟨id, Layout.WhileLoop.condition⟩ := by
  have shows : Scene.Shows ⟨m.engine.graph, m.context⟩ m := ⟨valid, acyclic, rfl, rfl⟩
  exact ((shows.openStep id).read _).1

/-- The condition holds before each pass, and it does not hold in the end. -/
theorem tests_of_loops {entered : List NodeId} {passes : List (Pass Machine)}
    (loops : walker.Loops id Layout.WhileLoop.body Layout.WhileLoop.done entered m task passes
      leaving out) (on : On g m) (tests : task.Tests (g.kind? id) id) :
    (m :: passes.map Pass.ended).map (fun t => (t.condition id).isTruthy) =
      List.replicate passes.length true ++ [false] := by
  induction loops with
  | leave made =>
    rw [← on.kind?_eq] at tests
    have leaves := (perform_condition tests).symm.trans (congrArg Prod.fst made)
    rw [List.map_nil, List.map_singleton, conditionStep_eq_follow leaves]
    rfl
  | @pass m begun ended out task leaving frame inner last later made passed _ ih =>
    have begun := on.perform task
    rw [show m.perform task = _ from made] at begun
    have ended := passed.keeps (P := On g) (fun task on => on.perform task) begun
    rw [← on.kind?_eq] at tests
    have again := (perform_condition tests).symm.trans (congrArg Prod.fst made)
    obtain ⟨holds, rfl⟩ := conditionStep_eq_again again
    rw [List.map_cons, holds, List.map_cons, ih ended (.inl rfl)]
    rfl

end Machine

/-- The step of a loop that reads its condition changes nothing. -/
theorem Scene.perform_condition {s : Scene} {id : NodeId} {task : Task}
    (tests : task.Tests (s.kind? id) id) :
    s.perform task = (conditionStep
      (s.graph.naiveInput s.context.locals ⟨id, Layout.WhileLoop.condition⟩), s) := by
  obtain rfl := tests.node
  rw [perform, tests.work]
  dsimp only [work]
  rw [conditionEffect_eq]
  rfl

end NodeGraph
