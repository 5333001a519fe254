import Mathlib.Algebra.Ring.Int.Defs
import NodeGraph.Proofs.Run.Accumulation

/-!
# Products

The demonstration that multiplies a local variable by the indices of a loop leaves the product, with
64-bit wrap-around (`Demo.execute_product`).
-/

namespace NodeGraph.Demo

/-- Multiplying step by step with wrap-around is multiplying first and wrapping around once. -/
theorem foldl_mul_eq (v : Int64) (indices : List Int64) :
    indices.foldl (· * ·) v = Int64.ofInt (v.toInt * (indices.map Int64.toInt).prod) := by
  induction indices generalizing v with
  | nil => simp
  | cons index rest ih =>
    rw [List.foldl_cons, ih, List.map_cons, List.prod_cons, Int64.ofInt_mul, Int64.ofInt_toInt,
      Int64.ofInt_mul, Int64.ofInt_mul, Int64.ofInt_toInt, Int64.ofInt_toInt, Int64.mul_assoc]

variable {v start finish step : Int64}

theorem laidOut_productNodes (v start finish step : Int64) :
    ∀ node ∈ productNodes v start finish step, node.LaidOut := by
  simp [productNodes, Node.setLocal, Node.getLocal]

/-- The kinds and the literals of the nodes. -/
def productPlan (v start finish step : Int64) : List Node.Plan :=
  [⟨.action .setLocal, [.empty, .text "var", .int v]⟩,
    ⟨.control .forLoop, [.empty, .int start, .int finish, .int step, .bool false]⟩,
    ⟨.action .setLocal, [.empty, .text "var", .empty]⟩,
    ⟨.pure .getLocal, [.text "var"]⟩,
    ⟨.pure (.binary (.arithmetic .mul)), [.empty, .empty]⟩]

theorem map_plan_productNodes :
    (productNodes v start finish step).map Node.plan = productPlan v start finish step := rfl

theorem joins_productLinks : ∀ link ∈ productLinks,
    link.joins ((productNodes v start finish step).map Node.plan) = true := List.all_eq_true.mp rfl

theorem accumulates_product : Accumulates (productPlan v start finish step)
    (Link.recorded productLinks) "var" v start finish step where
  sets := rfl
  counts := rfl
  unlinked := by decide
  enters := by decide
  ends := by decide

/-- A pass multiplies the variable by the index. -/
theorem pass_product (c : Context) (index : Int64) :
    Accumulates.Pass (productPlan v start finish step) (Link.recorded productLinks) "var" c (· * ·)
      index := by
  intro s value built acyclic holds counted
  have left : s.graph.naiveInput s.context.locals ⟨4, Layout.Binary.left⟩ = .int value := by
    rw [built.naiveInput_of_link rfl, built.naiveOutput_of_pure acyclic rfl, PureKind.value,
      built.naiveInput_of_literal rfl rfl rfl, holds]
    exact Locals.get_set_self _ "var" _
  have right : s.graph.naiveInput s.context.locals ⟨4, Layout.Binary.right⟩ = .int index := by
    rw [built.naiveInput_of_link rfl, built.naiveOutput_of_impure rfl rfl, counted]
  have product : s.graph.naiveInput s.context.locals ⟨2, Layout.SetLocal.value⟩ =
      .int (value * index) := by
    rw [built.naiveInput_of_link rfl, built.naiveOutput_of_pure acyclic rfl, PureKind.value, left,
      right]
    rfl
  have body : s.graph.successors ⟨1, Layout.ForLoop.body⟩ = [2] := built.records.successors _
  have ends : s.graph.successors ⟨2, Layout.flowOut⟩ = [] := built.records.successors _
  obtain ⟨visits, s', completes, frame, set⟩ := Scene.completes_setLocal (built.kind? 2)
    (built.naiveInput_of_literal rfl rfl rfl) product ends
  rw [body]
  refine ⟨_, _, s', .cons completes .nil, frame, ?_⟩
  rw [set, holds, Context.setLocal_setLocal]

/-- Multiplying a local variable by the indices of an ascending loop: the run from the first node
comes to its end at the loop, and the variable is its first value times the product of all indices,
with wrap-around. Nothing else in the context changes. -/
theorem execute_product (config : Config) (context : Context) (v start finish step : Int64)
    (forward : 1 ≤ step.toInt) : ∃ sequence,
      Progression (· < finish.toInt) step.toInt start.toInt sequence ∧
      ∃ e, Engine.build { context, config } (productNodes v start finish step) productLinks =
          .ok e ∧
        ∃ limit e', e.execute limit 0 = some (.ok 1, e') ∧
          e'.context = context.setLocal "var" (.int (Int64.ofInt (v.toInt * sequence.prod))) := by
  obtain ⟨indices, entered, gives, progression⟩ :=
    CountingFrame.exists_ascending start finish forward
  obtain ⟨e, made, built⟩ := (Engine.built_new context config).exists_build
    (laidOut_productNodes v start finish step) joins_productLinks
  -- The node that reads and the loop come first, then the product, then the node that stores it.
  have acyclic : e.graph.Acyclic :=
    built.graph.records.acyclic (fun id => [0, 1, 3, 0, 2].getD id 0) (by decide)
  rw [map_plan_productNodes, List.nil_append, List.nil_append] at built
  refine ⟨_, progression, e, made, ?_⟩
  rw [← foldl_mul_eq]
  exact built.execute_accumulates acyclic accumulates_product entered gives
    fun index _ => pass_product context index

/-- At the upper limit the next index does not fit, and the product wraps around. -/
theorem execute_product_at_limit : ∃ e, Engine.build { context := { id := 0 } }
      (productNodes 3 9223372036854775803 Int64.maxValue 3) productLinks = .ok e ∧
    ∃ limit e', e.execute limit 0 = some (.ok 1, e') ∧
      e'.context = Context.setLocal { id := 0 } "var" (.int (-9223372036854775778)) := by
  obtain ⟨sequence, progression, e, made, limit, e', executed, context⟩ :=
    execute_product {} { id := 0 } 3 9223372036854775803 Int64.maxValue 3 (by decide)
  obtain rfl : sequence = [9223372036854775803, 9223372036854775806] :=
    progression.unique (.go (by decide) (.go (by decide) (.stop (by decide))))
  exact ⟨e, made, limit, e', executed, context⟩

end NodeGraph.Demo
