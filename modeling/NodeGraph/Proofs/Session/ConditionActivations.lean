import NodeGraph.Proofs.Run.Twin
import NodeGraph.Proofs.Session.Ending

/-!
# Activations of loops that test a condition

From when control enters such a loop until it turns to what was pending before, each test finds the
value that the condition has at that moment, computed anew from the local variables and from what the
nodes wrote last; a pass follows exactly where the condition holds, and Done follows the first test
that fails (`Engine.Reachable.condition_activation`). A loop that runs its body first makes one pass
and then does what a loop does that tests its condition first.
-/

namespace NodeGraph

/-- An activation of a loop that tests a condition, at any stage of a run and whatever else is
pending. It tests at the `moments` listed here: each time it finds the value of its condition without
caches, and the condition holds each time but the last. After each test but the last, what the body
is linked to is done completely, one after the other; after the last, what Done is linked to. A loop
that runs its body first has made one pass before it tests, and what it does then is what a loop
beside it does that tests first and is otherwise the same. -/
theorem Engine.Reachable.condition_activation {e : Engine} (reachable : e.Reachable)
    (acyclic : e.graph.Acyclic) {context : Context} {start id before last : NodeId}
    {m m' : Machine} {rest : List Task} {visits : List (Visit Machine)} {kind : ControlKind}
    (stage : (Run.start ⟨e, context⟩ start).Reaches ⟨m, .enter id :: rest, before⟩)
    (loop : e.graph.kind? id = some (.control kind))
    (conditional : kind = .whileLoop ∨ kind = .doWhile)
    (turns : Run.TurnsTo rest ⟨m, .enter id :: rest, before⟩ visits ⟨m', rest, last⟩) :
    ∃ (passes : List (Pass Machine)) (moments : List Machine) (leaving : Task) (out : Machine)
        (after : List (Visit Machine)),
      Machine.walker.Loops id Layout.WhileLoop.body Layout.WhileLoop.done
        (e.graph.successors ⟨id, Layout.WhileLoop.body⟩) m (.enter id) passes leaving out ∧
      Machine.walker.CompletesEach out (e.graph.successors ⟨id, Layout.WhileLoop.done⟩) id after
        last m' ∧
      visits = passes.flatMap (Pass.visits Layout.WhileLoop.body) ++
        ⟨leaving, .follow [Layout.WhileLoop.done], out⟩ :: after ∧
      moments = (if kind = .whileLoop then [m] else []) ++ passes.map Pass.ended ∧
      (∀ t ∈ moments, t.condition id =
        t.engine.graph.naiveInput t.context.locals ⟨id, Layout.WhileLoop.condition⟩) ∧
      moments.map (fun t => (t.condition id).isTruthy) =
        List.replicate (moments.length - 1) true ++ [false] ∧
      (kind = .doWhile → ∃ first later node, passes = first :: later ∧
        first.ended.engine.graph.node? id = some node ∧
        ∃ visits' last' m'', Machine.walker.Completes (first.ended.push node.testingFirst)
            (.enter e.graph.size) visits' last' m'' ∧
          m''.context = m'.context ∧
          m''.engine.graph.skeleton = (m'.engine.graph.push node.testingFirst).skeleton) := by
  obtain ⟨links, records⟩ := reachable.records
  have on : Machine.On e.graph m := by
    obtain ⟨valid, works⟩ := (stage.fits reachable.valid).1.works reachable.valid
    exact ⟨valid, works.frame⟩
  have ports : kind.loop? = some (Layout.WhileLoop.body, Layout.WhileLoop.done) := by
    rcases conditional with rfl | rfl <;> rfl
  obtain ⟨passes, leaving, out, after, loops, onOut, completes, visited⟩ :=
    Machine.loops_of_completes on loop ports (Run.turnsTo_iff_completes.mp turns) rfl trivial
  have naive {t : Machine} (on : Machine.On e.graph t) : t.condition id =
      t.engine.graph.naiveInput t.context.locals ⟨id, Layout.WhileLoop.condition⟩ :=
    Machine.condition_eq_naiveInput on.valid (Graph.acyclic_of_frame_eq on.frame.symm acyclic) id
  have ended : ∀ p ∈ passes, Machine.On e.graph p.ended :=
    loops.forall_ended (P := Machine.On e.graph) (fun task on => on.perform task) on
  refine ⟨passes, _, leaving, out, after, loops, completes, visited, rfl, ?_⟩
  rcases conditional with rfl | rfl
  · refine ⟨fun t member => ?_, ?_, fun equal => by cases equal⟩
    · rcases List.mem_cons.mp member with rfl | member
      · exact naive on
      · obtain ⟨p, listed, rfl⟩ := List.mem_map.mp member
        exact naive (ended p listed)
    · have tests := Machine.tests_of_loops loops on (.inr ⟨rfl, loop⟩)
      simpa using tests
  · -- The first pass is made without a test.
    have untested := Machine.perform_untested ((on.kind?_eq id).trans loop)
    cases loops with
    | leave made =>
      rw [show m.perform (.enter id) = _ from made] at untested
      cases untested
    | @pass _ begun ended' _ _ _ frame inner last' later made passed loops =>
      rw [show m.perform (.enter id) = _ from made] at untested
      obtain ⟨_, rfl⟩ := Step.again.inj untested
      have on' := ended _ List.mem_cons_self
      refine ⟨fun t member => ?_, ?_, fun _ => ?_⟩
      · obtain ⟨p, listed, rfl⟩ := List.mem_map.mp member
        exact naive (ended p listed)
      · have tests := Machine.tests_of_loops loops on' (.inl rfl)
        simpa using tests
      · obtain ⟨node, found, same⟩ :=
          Option.map_eq_some_iff.mp ((on'.kind?_eq id).trans loop)
        rw [← onOut.following_eq id Layout.WhileLoop.done] at completes
        have resumed := loops.completes (P := Machine.On e.graph) (fun task on => on.perform task)
          (fun on => on.following_eq id Layout.WhileLoop.body) on' rfl completes
        exact ⟨_, later, node, rfl, found,
          Machine.while_of_doWhile on' records acyclic found same resumed⟩

/-- Counts a local variable up, at least once and as long as it is below 3. -/
def countedUp : List Command :=
  [.openSheet .engine {}, .add (Node.ofKind (.control .doWhile)), .add (Node.setLocal "x" .empty),
    .add (Node.getLocal "x"),
    .add ((Node.ofKind (.pure (.binary (.arithmetic .add)))).withLiteral Layout.Binary.right
      (.int 1)),
    .add ((Node.ofKind (.pure (.binary (.comparison .less)))).withLiteral Layout.Binary.right
      (.int 3)),
    .connect ⟨⟨0, Layout.WhileLoop.body⟩, ⟨1, Layout.flowIn⟩⟩,
    .connect ⟨⟨2, Layout.result⟩, ⟨3, Layout.Binary.left⟩⟩,
    .connect ⟨⟨3, Layout.result⟩, ⟨1, Layout.SetLocal.value⟩⟩,
    .connect ⟨⟨2, Layout.result⟩, ⟨4, Layout.Binary.left⟩⟩,
    .connect ⟨⟨4, Layout.result⟩, ⟨0, Layout.WhileLoop.condition⟩⟩]

theorem doWhile_activation : (Engine.built countedUp).Reachable ∧
    (Engine.built countedUp).graph.Acyclic ∧
    (Engine.built countedUp).graph.kind? 0 = some (.control .doWhile) ∧
    ∃ visits m' last, Run.TurnsTo [] (Run.start ⟨Engine.built countedUp, ⟨0, .empty, #[]⟩⟩ 0) visits
        ⟨m', [], last⟩ ∧
      (m'.context.locals.get "x").display = "3" ∧
      ∃ (first : Pass Machine) (node : Node) (visits' : List (Visit Machine)) (last' : NodeId)
          (m'' : Machine),
        Machine.walker.Completes (first.ended.push node.testingFirst) (.enter 5) visits' last' m'' ∧
          m''.context = m'.context := by
  have reachable := @Engine.reachable_built countedUp (by decide +kernel) (by decide +kernel)
  have acyclic : (Engine.built countedUp).graph.Acyclic := by
    apply Graph.acyclic_of_ascending
    decide +kernel
  have loop : (Engine.built countedUp).graph.kind? 0 = some (.control .doWhile) := by
    decide +kernel
  have size : (Engine.built countedUp).graph.size = 5 := by decide +kernel
  have ended : ((Run.start ⟨Engine.built countedUp, ⟨0, .empty, #[]⟩⟩ 0).finish 7).map
      (fun r => (r.machine.context.locals.get "x").display) = some "3" := by
    decide +kernel
  obtain ⟨r, finished, stored⟩ := Option.map_eq_some_iff.mp ended
  have turns := Run.turnsTo_of_finish finished []
  obtain ⟨_, _, _, _, _, _, _, _, _, _, _, twin⟩ :=
    Engine.Reachable.condition_activation reachable acyclic .refl loop (.inr rfl) turns
  obtain ⟨first, _, node, _, _, visits', last', m'', completes, context, _⟩ := twin rfl
  rw [size] at completes
  exact ⟨reachable, acyclic, loop, _, r.machine, r.last, turns, stored, first, node, visits', last',
    m'', completes, context⟩

end NodeGraph
