import Mathlib.Algebra.Ring.Int.Defs
import NodeGraph.Proofs.Run.Accumulation

/-!
# Sums of even indices

A loop that adds up its even indices can pick them by a branch in its body, or by arithmetic in a
body without branches. Both loops leave the same sum, with 64-bit wrap-around
(`EvenSum.execute_sum`).
-/

namespace NodeGraph.EvenSum

open Layout

/-- The nodes that both loops have. -/
def nodes (start finish step : Int64) : List Node :=
  let counter := (Node.ofKind (.control .forLoop)).withLiteral ForLoop.start (.int start)
  let counter := counter.withLiteral ForLoop.finish (.int finish)
  [Node.setLocal "sum" (.int 0),
    counter.withLiteral ForLoop.step (.int step),
    Node.getLocal "sum",
    (Node.ofKind (.pure (.binary (.arithmetic .mod)))).withLiteral Binary.right (.int 2),
    Node.ofKind (.pure (.binary (.arithmetic .add))),
    Node.setLocal "sum" .empty]

def links : List Link :=
  [⟨⟨0, flowOut⟩, ⟨1, flowIn⟩⟩,
    ⟨⟨1, ForLoop.index⟩, ⟨3, Binary.left⟩⟩,
    ⟨⟨2, result⟩, ⟨4, Binary.left⟩⟩,
    ⟨⟨4, result⟩, ⟨5, SetLocal.value⟩⟩]

/-- What picks the even indices: a branch, or else a factor that is 1 or 0. -/
def picking (branching : Bool) : List Node :=
  if branching then
    [(Node.ofKind (.pure (.binary (.comparison .equal)))).withLiteral Binary.right (.int 0),
      Node.ofKind (.control .ifElse)]
  else
    [(Node.ofKind (.pure (.binary (.arithmetic .sub)))).withLiteral Binary.left (.int 1),
      Node.ofKind (.pure (.binary (.arithmetic .mul)))]

def pickingLinks (branching : Bool) : List Link :=
  if branching then
    [⟨⟨3, result⟩, ⟨6, Binary.left⟩⟩,
      ⟨⟨6, result⟩, ⟨7, IfElse.condition⟩⟩,
      ⟨⟨1, ForLoop.body⟩, ⟨7, flowIn⟩⟩,
      ⟨⟨7, IfElse.whenTrue⟩, ⟨5, flowIn⟩⟩,
      ⟨⟨1, ForLoop.index⟩, ⟨4, Binary.right⟩⟩]
  else
    [⟨⟨3, result⟩, ⟨6, Binary.right⟩⟩,
      ⟨⟨1, ForLoop.index⟩, ⟨7, Binary.left⟩⟩,
      ⟨⟨6, result⟩, ⟨7, Binary.right⟩⟩,
      ⟨⟨7, result⟩, ⟨4, Binary.right⟩⟩,
      ⟨⟨1, ForLoop.body⟩, ⟨5, flowIn⟩⟩]

/-- Adds one of the loops to an engine. -/
def build (branching : Bool) (e : Engine) (start finish step : Int64) : Except Fault Engine := do
  let e ← e.build (nodes start finish step) links
  e.build (picking branching) (pickingLinks branching)

/-- What a pass makes of the sum. -/
def add (sum index : Int64) : Int64 := if index % 2 = 0 then sum + index else sum

theorem mod_two_cases {index : Int64} (nonneg : 0 ≤ index.toInt) :
    index % 2 = 0 ∧ index.toInt % 2 = 0 ∨ index % 2 = 1 ∧ index.toInt % 2 ≠ 0 := by
  have same : (index % 2).toInt = index.toInt % 2 := by
    rw [Int64.toInt_mod, show (2 : Int64).toInt = 2 from rfl, Int.tmod_eq_emod_of_nonneg nonneg]
  rcases Int.emod_two_eq index.toInt with even | odd
  · exact .inl ⟨Int64.toInt_inj.mp (same.trans even), even⟩
  · exact .inr ⟨Int64.toInt_inj.mp (same.trans odd), by omega⟩

/-- Adding step by step with wrap-around is adding first and wrapping around once. -/
theorem foldl_add_eq {indices : List Int64} (nonneg : ∀ index ∈ indices, 0 ≤ index.toInt)
    (sum : Int64) : indices.foldl add sum =
      sum + Int64.ofInt (((indices.map Int64.toInt).filter (· % 2 = 0)).sum) := by
  induction indices generalizing sum with
  | nil => simp
  | cons index rest ih =>
    have rest := ih fun other member => nonneg other (List.mem_cons_of_mem index member)
    rw [List.foldl_cons, rest, List.map_cons, add]
    rcases mod_two_cases (nonneg index List.mem_cons_self) with ⟨even, same⟩ | ⟨odd, same⟩
    · rw [if_pos even, List.filter_cons_of_pos (by simpa using same), List.sum_cons,
        Int64.ofInt_add, Int64.ofInt_toInt, Int64.add_assoc]
    · rw [if_neg (by rw [odd]; decide), List.filter_cons_of_neg (by simpa using same)]

section Plan

variable {branching : Bool} {start finish step : Int64}

theorem laidOut_nodes : ∀ node ∈ nodes start finish step, node.LaidOut := by
  simp [nodes, Node.setLocal, Node.getLocal]

theorem laidOut_picking : ∀ node ∈ picking branching, node.LaidOut := by
  cases branching <;> simp [picking]

/-- The kinds and the literals of the nodes. -/
def plan (branching : Bool) (start finish step : Int64) : List Node.Plan :=
  [⟨.action .setLocal, [.empty, .text "sum", .int 0]⟩,
    ⟨.control .forLoop, [.empty, .int start, .int finish, .int step, .bool false]⟩,
    ⟨.pure .getLocal, [.text "sum"]⟩,
    ⟨.pure (.binary (.arithmetic .mod)), [.empty, .int 2]⟩,
    ⟨.pure (.binary (.arithmetic .add)), [.empty, .empty]⟩,
    ⟨.action .setLocal, [.empty, .text "sum", .empty]⟩] ++
  if branching then
    [⟨.pure (.binary (.comparison .equal)), [.empty, .int 0]⟩,
      ⟨.control .ifElse, [.empty, .bool false]⟩]
  else
    [⟨.pure (.binary (.arithmetic .sub)), [.int 1, .empty]⟩,
      ⟨.pure (.binary (.arithmetic .mul)), [.empty, .empty]⟩]

/-- What is recorded of the links of a loop. -/
def recorded (branching : Bool) : List Link := Link.recorded (links ++ pickingLinks branching)

theorem map_plan_append : (nodes start finish step).map Node.plan ++
    (picking branching).map Node.plan = plan branching start finish step := by
  cases branching <;> rfl

theorem joins_links : ∀ link ∈ links,
    link.joins ((nodes start finish step).map Node.plan) = true := List.all_eq_true.mp rfl

theorem joins_pickingLinks : ∀ link ∈ pickingLinks branching,
    link.joins (plan branching start finish step) = true := by
  apply List.all_eq_true.mp
  cases branching <;> rfl

/-- What both loops link stays linked. -/
theorem sourceOf_recorded : ∀ link ∈ links,
    Link.sourceOf (recorded branching) link.target = some link.source := by
  cases branching <;> decide

theorem sourceOf_recorded_eq_none : ∀ target ∈ [(⟨2, GetLocal.key⟩ : InputAddr), ⟨3, Binary.right⟩,
    ⟨5, SetLocal.key⟩], Link.sourceOf (recorded branching) target = none := by
  cases branching <;> decide

theorem exists_build (context : Context) (config : Config) (branching : Bool)
    (start finish step : Int64) :
    ∃ e, build branching { context, config } start finish step = .ok e ∧
      e.Built context (plan branching start finish step) (links ++ pickingLinks branching) ∧
      e.graph.Acyclic := by
  obtain ⟨e, made, built⟩ :=
    (Engine.built_new context config).exists_build (@laidOut_nodes start finish step) joins_links
  rw [List.nil_append, List.nil_append] at built
  have joins : ∀ link ∈ pickingLinks branching,
      link.joins ((nodes start finish step).map Node.plan ++
        (picking branching).map Node.plan) = true := by
    rw [map_plan_append]
    exact joins_pickingLinks
  obtain ⟨e', made', built'⟩ := built.exists_build laidOut_picking joins
  rw [map_plan_append] at built'
  -- With these ranks every link of either loop leads upwards.
  have acyclic : e'.graph.Acyclic := by
    refine built'.graph.records.acyclic (fun id => [0, 1, 0, 2, 5, 6, 3, 4].getD id 0) ?_
    cases branching <;> decide
  refine ⟨e', ?_, built', acyclic⟩
  rw [build, made]
  exact made'

theorem accumulates : Accumulates (plan branching start finish step) (recorded branching) "sum" 0
    start finish step where
  sets := rfl
  counts := rfl
  unlinked := by cases branching <;> decide
  enters := by cases branching <;> decide
  ends := by cases branching <;> decide

section Pass

variable {s : Scene} {c : Context} {sum index : Int64}

/-- The remainder of the index modulo 2. -/
theorem naiveOutput_mod
    (built : s.graph.Built (plan branching start finish step) (recorded branching))
    (acyclic : s.graph.Acyclic) (counted : s.graph.outputValue ⟨1, ForLoop.index⟩ = .int index) :
    s.graph.naiveOutput s.context.locals ⟨3, result⟩ = .int (index % 2) := by
  have left : s.graph.naiveInput s.context.locals ⟨3, Binary.left⟩ = .int index := by
    rw [built.naiveInput_of_link (sourceOf_recorded ⟨⟨1, ForLoop.index⟩, _⟩ (by decide)),
      built.naiveOutput_of_impure rfl rfl, counted]
  have right : s.graph.naiveInput s.context.locals ⟨3, Binary.right⟩ = .int 2 :=
    built.naiveInput_of_literal rfl rfl (sourceOf_recorded_eq_none _ (by decide))
  rw [built.naiveOutput_of_pure acyclic rfl, PureKind.value, left, right]
  rfl

/-- The node that updates the sum adds what the sum node has as its second operand. -/
theorem completes_update
    (built : s.graph.Built (plan branching start finish step) (recorded branching))
    (acyclic : s.graph.Acyclic) (holds : s.context = c.setLocal "sum" (.int sum))
    (right : s.graph.naiveInput s.context.locals ⟨4, Binary.right⟩ = .int index) :
    ∃ visits s', Scene.walker.Completes s (.enter 5) visits 5 s' ∧
      s'.graph.frame = s.graph.frame ∧ s'.context = c.setLocal "sum" (.int (sum + index)) := by
  have left : s.graph.naiveInput s.context.locals ⟨4, Binary.left⟩ = .int sum := by
    rw [built.naiveInput_of_link (sourceOf_recorded ⟨⟨2, result⟩, _⟩ (by decide)),
      built.naiveOutput_of_pure acyclic rfl, PureKind.value,
      built.naiveInput_of_literal rfl rfl (sourceOf_recorded_eq_none _ (by decide)), holds]
    exact Locals.get_set_self _ "sum" _
  have total : s.graph.naiveInput s.context.locals ⟨5, SetLocal.value⟩ = .int (sum + index) := by
    rw [built.naiveInput_of_link (sourceOf_recorded ⟨⟨4, result⟩, _⟩ (by decide)),
      built.naiveOutput_of_pure acyclic rfl, PureKind.value, left, right]
    rfl
  have ends : s.graph.successors ⟨5, flowOut⟩ = [] := by
    rw [built.records.successors]
    cases branching <;> rfl
  obtain ⟨visits, s', completes, frame, set⟩ := Scene.completes_setLocal (built.kind? 5)
    (built.naiveInput_of_literal rfl rfl (sourceOf_recorded_eq_none _ (by decide))) total ends
  refine ⟨visits, s', completes, frame, ?_⟩
  rw [set, holds, Context.setLocal_setLocal]

end Pass

/-- With a branch, a pass updates the sum where the index is even, and does nothing otherwise. -/
theorem pass_branching (c : Context) {index : Int64} (nonneg : 0 ≤ index.toInt) :
    Accumulates.Pass (plan true start finish step) (recorded true) "sum" c add index := by
  intro s sum built acyclic holds counted
  have mod := naiveOutput_mod built acyclic counted
  have condition : s.graph.naiveInput s.context.locals ⟨7, IfElse.condition⟩ =
      Comparison.equal.apply (.int (index % 2)) (.int 0) := by
    rw [built.naiveInput_of_link rfl, built.naiveOutput_of_pure acyclic rfl, PureKind.value,
      built.naiveInput_of_link rfl, mod, built.naiveInput_of_literal rfl rfl rfl]
    rfl
  have body : s.graph.successors ⟨1, ForLoop.body⟩ = [7] := built.records.successors _
  have chosen := Scene.perform_ifElse (built.kind? 7) condition
  rw [body]
  rcases mod_two_cases nonneg with ⟨even, _⟩ | ⟨odd, _⟩
  · rw [even] at chosen
    have right : s.graph.naiveInput s.context.locals ⟨4, Binary.right⟩ = .int index := by
      rw [built.naiveInput_of_link rfl, built.naiveOutput_of_impure rfl rfl, counted]
    obtain ⟨visits, s', completes, frame, set⟩ := completes_update built acyclic holds right
    have follows : Scene.walker.following s 7 [IfElse.whenTrue] = [5] :=
      (Scene.following_eq_of_frame_eq rfl 7 _).trans (built.records.successors _)
    refine ⟨_, 5, s', .cons (.of_follows chosen follows completes) .nil, frame, ?_⟩
    rw [set, add, if_pos even]
  · rw [odd] at chosen
    have follows : Scene.walker.following s 7 [IfElse.whenFalse] = [] :=
      (Scene.following_eq_of_frame_eq rfl 7 _).trans (built.records.successors _)
    refine ⟨_, 7, s, .cons (.of_ends chosen follows) .nil, rfl, ?_⟩
    rw [holds, add, odd]
    rfl

/-- Without branches, a pass adds the index times 1 or 0. -/
theorem pass_straight (c : Context) {index : Int64} (nonneg : 0 ≤ index.toInt) :
    Accumulates.Pass (plan false start finish step) (recorded false) "sum" c add index := by
  intro s sum built acyclic holds counted
  have mod := naiveOutput_mod built acyclic counted
  have keep : s.graph.naiveInput s.context.locals ⟨7, Binary.right⟩ = .int (1 - index % 2) := by
    rw [built.naiveInput_of_link rfl, built.naiveOutput_of_pure acyclic rfl, PureKind.value,
      built.naiveInput_of_literal rfl rfl rfl, built.naiveInput_of_link rfl, mod]
    rfl
  have term : s.graph.naiveInput s.context.locals ⟨4, Binary.right⟩ =
      .int (index * (1 - index % 2)) := by
    rw [built.naiveInput_of_link rfl, built.naiveOutput_of_pure acyclic rfl, PureKind.value,
      built.naiveInput_of_link rfl, built.naiveOutput_of_impure rfl rfl, counted, keep]
    rfl
  have body : s.graph.successors ⟨1, ForLoop.body⟩ = [5] := built.records.successors _
  obtain ⟨visits, s', completes, frame, set⟩ := completes_update built acyclic holds term
  rw [body]
  refine ⟨_, 5, s', .cons completes .nil, frame, ?_⟩
  rw [set, add]
  rcases mod_two_cases nonneg with ⟨even, _⟩ | ⟨odd, _⟩
  · rw [if_pos even, even]
    simp
  · rw [odd]
    simp

end Plan

/-- Summing the even indices of an ascending loop that starts at 0 or above: with a branch in its
body and without, the run from the first node comes to its end at the loop, and both leave the sum
of the even indices, with wrap-around. Nothing else in the context changes. -/
theorem execute_sum (context : Context) {start step : Int64} (finish : Int64)
    (nonneg : 0 ≤ start.toInt) (forward : 1 ≤ step.toInt) : ∃ sequence,
      Progression (· < finish.toInt) step.toInt start.toInt sequence ∧
      ∀ (config : Config) (branching : Bool), ∃ e,
        build branching { context, config } start finish step = .ok e ∧
        ∃ limit e', e.execute limit 0 = some (.ok 1, e') ∧ e'.context =
          context.setLocal "sum" (.int (Int64.ofInt (sequence.filter (· % 2 = 0)).sum)) := by
  obtain ⟨indices, entered, gives, progression⟩ :=
    CountingFrame.exists_ascending start finish forward
  have nonneg : ∀ index ∈ indices, 0 ≤ index.toInt := by
    intro index member
    have above := progression.forall_le (Int.le_of_lt forward) _ (List.mem_map_of_mem member)
    exact Int.le_trans nonneg above
  refine ⟨_, progression, fun config branching => ?_⟩
  obtain ⟨e, made, built, acyclic⟩ := exists_build context config branching start finish step
  have pass : ∀ index ∈ indices, Accumulates.Pass (plan branching start finish step)
      (recorded branching) "sum" context add index := by
    intro index member
    cases branching with
    | false => exact pass_straight context (nonneg index member)
    | true => exact pass_branching context (nonneg index member)
  obtain ⟨limit, e', executed, left⟩ :=
    built.execute_accumulates acyclic accumulates entered gives pass
  rw [foldl_add_eq nonneg, Int64.zero_add] at left
  exact ⟨e, made, limit, e', executed, left⟩

/-- Of the three indices below the upper limit two are even, and their sum wraps around. -/
theorem execute_sum_at_limit : ∃ straight branching limit limit' left left',
    build false { context := { id := 0 } } 9223372036854775804 Int64.maxValue 1 = .ok straight ∧
    build true { context := { id := 0 } } 9223372036854775804 Int64.maxValue 1 = .ok branching ∧
    straight.execute limit 0 = some (.ok 1, left) ∧
    branching.execute limit' 0 = some (.ok 1, left') ∧
    left.context = left'.context ∧
    left.context = Context.setLocal { id := 0 } "sum" (.int (-6)) := by
  obtain ⟨sequence, progression, runs⟩ :=
    @execute_sum { id := 0 } 9223372036854775804 1 Int64.maxValue (by decide) (by decide)
  obtain rfl : sequence = [9223372036854775804, 9223372036854775805, 9223372036854775806] :=
    progression.unique (.go (by decide) (.go (by decide) (.go (by decide) (.stop (by decide)))))
  obtain ⟨straight, made, limit, left, executed, context⟩ := runs {} false
  obtain ⟨branching, made', limit', left', executed', context'⟩ := runs {} true
  exact ⟨straight, branching, limit, limit', left, left', made, made', executed, executed',
    context.trans context'.symm, context⟩

end NodeGraph.EvenSum
