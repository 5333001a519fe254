import NodeGraph.Proofs.Run.Activation
import NodeGraph.Proofs.Run.Counting
import NodeGraph.Proofs.Session.Aftermath

/-!
# Activations of counting loops

From when control enters a counting loop until it turns to what was pending before, the loop makes
one pass for each index of the range that it read on entry and then goes on to Done, once
(`Engine.Reachable.counting_activation`). What the frame gives is settled on entry
(`Machine.index_of_loops`), so it does not matter what the passes do: they may nest loops, enter the
loop itself again, or write what its inputs are linked to.
-/

namespace NodeGraph

namespace Machine

variable {g : Graph} {m m' out : Machine} {task leaving : Task} {id : NodeId}

/-- A control node that does not go to a body leaves the outputs of nodes that are not pure. -/
theorem outputValue_of_follow (valid : m.engine.Valid) {ports : List PortId}
    (made : m.perform task = (.follow ports, m')) {kind : ControlKind}
    (control : m.kind? task.node = some (.control kind)) {addr : OutputAddr}
    (impure : m.engine.graph.pureKind? addr.node = none) :
    m'.engine.graph.outputValue addr = m.engine.graph.outputValue addr := by
  have performs := performs_perform valid task
  have opened : m.engine.graph.skeleton = (m.openStep task.node).engine.graph.skeleton :=
    (erase_openStep _ m task.node).symm
  rw [made] at performs
  generalize follow : Step.follow ports = step at performs
  cases performs with
  | nothing work => exact (Graph.outputValue_eq_of_skeleton opened impure).symm
  | compute work _ =>
    rw [kind?_openStep, control] at work
    cases task <;> cases work
  | @act operands effect operand e' work reads =>
    rw [kind?_openStep, control] at work
    have pulled := reads.respects Engine.pulled_relation
    have silent : (effect operand).write = none := by
      rcases (Task.acts_of_work work operand).silent_of_follow follow.symm with
        ⟨write, _⟩ | ⟨action, _⟩
      · exact write
      · cases action
    calc _ = e'.graph.outputValue addr := by
            apply outputValue_acted ⟨e', _⟩
            intro port value written
            rw [silent] at written
            cases written
      _ = m.engine.graph.outputValue addr :=
        (Graph.outputValue_eq_of_skeleton (opened.trans pulled.skeleton.symm) impure).symm

/-- The passes of a counting loop are those that its frame gives: each begins with its index
published. -/
theorem index_of_loops {entered : List NodeId} {passes : List (Pass Machine)}
    (loops : walker.Loops id Layout.ForLoop.body Layout.ForLoop.done entered m task passes leaving
      out) (on : On g m) (loop : g.kind? id = some (.control .forLoop)) {frame : CountingFrame}
    {indices : List Int64} (gives : frame.Gives indices)
    (stands : task = .resume id (.counting frame) ∨
      (task = .enter id ∧ (m.countingRange id).frame? = some frame)) :
    passes.map (fun p => p.begun.engine.graph.outputValue ⟨id, Layout.ForLoop.index⟩) =
      indices.map Value.int := by
  induction loops generalizing frame indices with
  | leave made =>
    obtain ⟨_, performed, _⟩ := perform_counting on.valid ((on.kind?_eq id).trans loop) stands
    have leaves := congrArg Prod.fst (performed.symm.trans made)
    cases gives with
    | done _ => rfl
    | pass advanced _ =>
      rw [CountingFrame.effect, advanced] at leaves
      cases leaves
  | @pass m' begun ended out task' leaving frame' inner last later made passed _ ih =>
    obtain ⟨_, performed, published⟩ :=
      perform_counting on.valid ((on.kind?_eq id).trans loop) stands
    obtain ⟨again, rfl⟩ := Prod.mk.inj (performed.symm.trans made)
    cases gives with
    | done ended =>
      rw [CountingFrame.effect, ended] at again
      cases again
    | pass advanced gives =>
      rw [CountingFrame.effect, advanced] at again
      obtain ⟨_, rfl⟩ := Step.again.inj again
      have begun := on.perform task'
      rw [show m'.perform task' = _ from made] at begun
      have ended := passed.keeps (P := On g) (fun task on => on.perform task) begun
      rw [List.map_cons, List.map_cons, published advanced, ih ended gives (.inl rfl)]

end Machine

/-- An activation of a counting loop, at any stage of a run and whatever else is pending. The
indices are those of the range as it was read on entry. For each there is one pass, which begins
with the index in the output of the loop and does completely, one after the other, what the body is
linked to; after the last pass the loop goes on to Done and is not resumed. If there is no pass, the
output of the loop holds what it held before. -/
theorem Engine.Reachable.counting_activation {e : Engine} (reachable : e.Reachable)
    {context : Context} {start id before last : NodeId} {m m' : Machine} {rest : List Task}
    {visits : List (Visit Machine)}
    (stage : (Run.start ⟨e, context⟩ start).Reaches ⟨m, .enter id :: rest, before⟩)
    (loop : e.graph.kind? id = some (.control .forLoop))
    (turns : Run.TurnsTo rest ⟨m, .enter id :: rest, before⟩ visits ⟨m', rest, last⟩)
    (sized : (m.countingRange id).step ≠ Int64.minValue) :
    ∃ (passes : List (Pass Machine)) (indices : List Int64) (leaving : Task) (out : Machine)
        (after : List (Visit Machine)),
      Machine.walker.Loops id Layout.ForLoop.body Layout.ForLoop.done
        (e.graph.successors ⟨id, Layout.ForLoop.body⟩) m (.enter id) passes leaving out ∧
      Machine.walker.CompletesEach out (e.graph.successors ⟨id, Layout.ForLoop.done⟩) id after
        last m' ∧
      visits = passes.flatMap (Pass.visits Layout.ForLoop.body) ++
        ⟨leaving, .follow [Layout.ForLoop.done], out⟩ :: after ∧
      (∀ sequence, (m.countingRange id).Visits (m.countingRange id).step.toInt.natAbs sequence ↔
        sequence = indices.map Int64.toInt) ∧
      passes.map (fun p => p.begun.engine.graph.outputValue ⟨id, Layout.ForLoop.index⟩) =
        indices.map Value.int ∧
      (passes = [] → out.engine.graph.outputValue ⟨id, Layout.ForLoop.index⟩ =
        m.engine.graph.outputValue ⟨id, Layout.ForLoop.index⟩) := by
  have on : Machine.On e.graph m := by
    obtain ⟨valid, works⟩ := (stage.fits reachable.valid).1.works reachable.valid
    exact ⟨valid, works.frame⟩
  have kind : m.kind? id = some (.control .forLoop) := (on.kind?_eq id).trans loop
  obtain ⟨passes, leaving, out, after, loops, _, completes, visited⟩ :=
    Machine.loops_of_completes on loop rfl (Run.turnsTo_iff_completes.mp turns) rfl trivial
  have distance : (m.countingRange id).distance = (m.countingRange id).step.toInt.natAbs :=
    if_neg sized
  -- The range settles the frame, and the frame the passes.
  obtain ⟨indices, visits', published⟩ : ∃ indices : List Int64,
      (m.countingRange id).Visits (m.countingRange id).distance (indices.map Int64.toInt) ∧
        passes.map (fun p => p.begun.engine.graph.outputValue ⟨id, Layout.ForLoop.index⟩) =
          indices.map Value.int := by
    cases entered : (m.countingRange id).frame? with
    | none =>
      have skipped := Machine.perform_skipped kind entered
      refine ⟨[], CountingRange.visits_of_frame?_eq_none entered _, ?_⟩
      cases loops with
      | leave _ => rfl
      | pass made _ _ =>
        rw [show m.perform (.enter id) = _ from made] at skipped
        cases skipped
    | some frame =>
      obtain ⟨indices, gives⟩ := (CountingFrame.progresses_of_initial? entered).exists_gives
      exact ⟨indices, CountingRange.visits_of_gives entered gives,
        Machine.index_of_loops loops on loop gives (.inr ⟨rfl, entered⟩)⟩
  refine ⟨passes, indices, leaving, out, after, loops, completes, visited, ?_, published, ?_⟩
  · intro sequence
    rw [← distance]
    exact ⟨fun h => h.unique visits', fun h => h ▸ visits'⟩
  · rintro rfl
    cases loops with
    | leave made =>
      have leaves : m.perform (.enter id) = (.follow [Layout.ForLoop.done], out) := made
      refine Machine.outputValue_of_follow on.valid leaves kind ?_
      obtain ⟨node, found, control⟩ := Option.map_eq_some_iff.mp kind
      rw [Graph.pureKind?, found, Option.bind_some, control]
      rfl

/-- A counting loop to 2 with another, to 3, in its body, which prints. -/
def nestedLoops : List Command :=
  [.openSheet .engine {},
    .add ((Node.ofKind (.control .forLoop)).withLiteral Layout.ForLoop.finish (.int 2)),
    .add ((Node.ofKind (.control .forLoop)).withLiteral Layout.ForLoop.finish (.int 3)),
    .add (Node.ofKind (.action .print)),
    .connect ⟨⟨0, Layout.ForLoop.body⟩, ⟨1, Layout.flowIn⟩⟩,
    .connect ⟨⟨1, Layout.ForLoop.body⟩, ⟨2, Layout.flowIn⟩⟩]

theorem inner_activation : (Engine.built nestedLoops).Reachable ∧
    ∃ m rest before visits m' last,
      (Run.start ⟨Engine.built nestedLoops, ⟨0, .empty, #[]⟩⟩ 0).Reaches
        ⟨m, .enter 1 :: rest, before⟩ ∧ rest ≠ [] ∧
      (Engine.built nestedLoops).graph.kind? 1 = some (.control .forLoop) ∧
      Run.TurnsTo rest ⟨m, .enter 1 :: rest, before⟩ visits ⟨m', rest, last⟩ ∧
      (m.countingRange 1).step ≠ Int64.minValue ∧
      ∃ (passes : List (Pass Machine)) (leaving : Task) (out : Machine),
        Machine.walker.Loops 1 Layout.ForLoop.body Layout.ForLoop.done
          ((Engine.built nestedLoops).graph.successors ⟨1, Layout.ForLoop.body⟩) m (.enter 1) passes
          leaving out ∧
        passes.map (fun p => p.begun.engine.graph.outputValue ⟨1, Layout.ForLoop.index⟩) =
          [.int 0, .int 1, .int 2] := by
  have reachable := @Engine.reachable_built nestedLoops (by decide +kernel) (by decide +kernel)
  have loop : (Engine.built nestedLoops).graph.kind? 1 = some (.control .forLoop) := by
    decide +kernel
  have stage : (Run.start ⟨Engine.built nestedLoops, ⟨0, .empty, #[]⟩⟩ 0).Reaches
      (Run.advance ⟨Engine.built nestedLoops, ⟨0, .empty, #[]⟩⟩ (.enter 0) [] 0) := .advance .refl
  generalize inner : Run.advance ⟨Engine.built nestedLoops, ⟨0, .empty, #[]⟩⟩ (.enter 0) [] 0 = r
    at stage
  have pending : r.pending = [.enter 1, .resume 0 (.counting ⟨some 1, 2, 1, false⟩)] := by
    rw [← inner]
    decide +kernel
  have range : r.machine.countingRange 1 = ⟨0, 3, 1, false⟩ := by
    rw [← inner]
    decide +kernel
  have ended : (Run.finish 7 ⟨r.machine, [.enter 1], r.last⟩).isSome := by
    rw [← inner]
    decide +kernel
  obtain ⟨m, _, before⟩ := r
  subst pending
  obtain ⟨r', finished⟩ := Option.isSome_iff_exists.mp ended
  have turns := Run.turnsTo_of_finish finished [.resume 0 (.counting ⟨some 1, 2, 1, false⟩)]
  have sized : (m.countingRange 1).step ≠ Int64.minValue := by
    rw [show m.countingRange 1 = _ from range]
    decide
  obtain ⟨passes, indices, leaving, out, _, loops, _, _, visits, published, _⟩ :=
    Engine.Reachable.counting_activation reachable stage loop turns sized
  refine ⟨reachable, m, _, before, _, r'.machine, r'.last, stage, List.cons_ne_nil _ _, loop, turns,
    sized, passes, leaving, out, loops, ?_⟩
  rw [show m.countingRange 1 = _ from range] at visits
  have counted : [0, 1, 2] = indices.map Int64.toInt := by
    refine (visits _).mp (.ascending rfl (by decide) ?_)
    exact .go (by decide) (.go (by decide) (.go (by decide) (.stop (by decide))))
  have indices' : indices = [0, 1, 2] :=
    List.map_injective_iff.mpr (fun _ _ => Int64.toInt_inj.mp) counted.symm
  rw [published, indices']
  rfl

end NodeGraph
