import NodeGraph.Proofs.Run.Checked
import NodeGraph.Proofs.Session.Ending
import NodeGraph.Proofs.Session.Nesting

/-!
# No fallback is taken

Whatever commands an engine was reached by, both ends of its links exist, and requests and the steps
of its runs give what they give with a check in place of every fallback. What is still to be done
in a run is to be done at nodes that exist, and loops are resumed with frames of their own kind
(`Engine.Reachable.takes_no_fallback`).
-/

namespace NodeGraph

/-- The node of the task exists, and a loop is resumed with a frame of its own kind, which for a
counting loop has a distance of one at least. -/
structure Task.InPlace (kind? : Option NodeKind) (task : Task) : Prop where
  there : kind?.isSome
  counting : ∀ id frame, task = .resume id frame →
    ((∃ f, frame = .counting f) ↔ kind? = some (.control .forLoop))
  condition : ∀ id frame, task = .resume id frame →
    (frame = .condition ↔
      kind? = some (.control .whileLoop) ∨ kind? = some (.control .doWhile))
  distance : ∀ id f, task = .resume id (.counting f) → 1 ≤ f.step.toInt

theorem Task.Fits.inPlace {kind? : Option NodeKind} {task : Task} (fits : task.Fits kind?)
    (there : kind?.isSome) (progresses : task.Progresses) : task.InPlace kind? where
  there := there
  counting id frame same := by
    subst same
    cases frame with
    | counting f => exact iff_of_true ⟨f, rfl⟩ fits
    | condition =>
      refine iff_of_false (fun ⟨_, same⟩ => nomatch same) fun counts => ?_
      rcases fits with fits | fits
      · rw [fits] at counts
        cases counts
      · rw [fits] at counts
        cases counts
  condition id frame same := by
    subst same
    cases frame with
    | counting f =>
      have counts : kind? = some (.control .forLoop) := fits
      exact iff_of_false (fun same => nomatch same) (by simp [counts])
    | condition => exact iff_of_true rfl fits
  distance id f same := progresses id f same

namespace Engine

variable {e : Engine}

/-- Answers a request with every check; what it names must exist, or the answer is a fault. -/
def answer? (context : Context) (e : Engine) : Request → Option (Except Fault Value × Engine)
  | .input addr =>
    match e.graph.input addr with
    | .error fault => some (.error fault, e)
    | .ok _ => (read? context.locals e.graph.size addr (e.serve context.id)).map
        fun (value, e) => (.ok value, e)
  | .output addr =>
    match e.graph.output addr with
    | .error fault => some (.error fault, e)
    | .ok _ =>
      let compute := compute? context.locals e.graph.size
      ((e.serve context.id).refreshUsing? compute addr.node).bind fun e =>
        (e.graph.output? addr).map fun output => (.ok output.value, e)

/-- A request takes no fallback. -/
theorem answer?_eq (wf : e.graph.WellFormed) (context : Context) (request : Request) :
    e.answer? context request = some (e.answer context request) := by
  have enough := Graph.card_pureNodes_le e.graph
  have frame : (e.serve context.id).graph.frame = e.graph.frame := erase_serve _ e _
  have answers := answers_answer context e request
  generalize e.answer context request = answered at answers ⊢
  obtain ⟨result, e'⟩ := answered
  dsimp only at answers
  cases answers with
  | noInput missing => rw [answer?, missing]
  | noOutput missing => rw [answer?, missing]
  | @input addr _ _ input value found reads =>
    have there : (e.graph.input? addr).isSome := by
      rw [Graph.input_eq_ok_iff.mp found, Option.isSome_some]
    rw [answer?, found]
    dsimp only
    rw [reads.checked wf frame there enough, Option.map_some]
  | @output addr _ _ output found refreshes =>
    have there : (e.graph.output? addr).isSome := by
      rw [Graph.output_eq_ok_iff.mp found, Option.isSome_some]
    have frame' := (refreshes.respects pulled_relation).frame.trans frame
    rw [answer?, found]
    dsimp only
    rw [refreshes.checked wf frame (Graph.isSome_node?_of_output? there) enough, Option.bind_some]
    rw [← Graph.isSome_output?_eq_of_frame_eq frame'] at there
    obtain ⟨after, found'⟩ := Option.isSome_iff_exists.mp there
    rw [outputValue_eq_map, Graph.output_eq_ok_iff.mpr found', found', Graph.outputValue, found']
    rfl

/-- In an engine that commands lead to, every source and every target exists, and no request takes a
fallback. At every stage of its runs that is so too: everything that is still to be done is in place
and can be done with no fallback. -/
theorem Reachable.takes_no_fallback {e : Engine} (reachable : e.Reachable) :
    e.graph.Closed ∧
    (∀ context request, e.answer? context request = some (e.answer context request)) ∧
    ∀ context start r, (e.graph.node? start).isSome →
      (Run.start ⟨e, context⟩ start).Reaches r → r.machine.engine.graph.Closed ∧
        ∀ task ∈ r.pending, task.InPlace (r.machine.kind? task.node) ∧
          r.machine.perform? task = some (r.machine.perform task) := by
  obtain ⟨links, records⟩ := reachable.records
  have valid := reachable.valid
  refine ⟨records.closed valid.wellFormed, answer?_eq valid.wellFormed,
    fun context start r there reaches => ?_⟩
  obtain ⟨reached, fits⟩ := reaches.fits valid
  obtain ⟨valid', works⟩ := reached.works valid
  have there : (Machine.kind? ⟨e, context⟩ start).isSome := by
    rwa [Machine.kind?, Option.isSome_map]
  have placed := reaches.placed valid records there
  refine ⟨(records.of_frame_eq works.frame).closed valid'.wellFormed,
    fun task member => ?_⟩
  obtain ⟨there, progresses⟩ := placed task member
  exact ⟨(fits task member).inPlace there progresses,
    Machine.perform?_eq valid' there (fits task member)⟩

/-- At every stage of a run that counts. -/
theorem takes_no_fallback_countdown : (built countdown).Reachable ∧
    ((built countdown).graph.node? 0).isSome ∧
    ∀ context r, (Run.start ⟨built countdown, context⟩ 0).Reaches r → ∀ task ∈ r.pending,
      task.InPlace (r.machine.kind? task.node) ∧
        r.machine.perform? task = some (r.machine.perform task) := by
  have reachable := @reachable_built countdown (by decide +kernel) (by decide +kernel)
  have there : ((built countdown).graph.node? 0).isSome := by decide +kernel
  refine ⟨reachable, there, fun context r reaches => ?_⟩
  exact ((Engine.Reachable.takes_no_fallback reachable).2.2 context 0 r there reaches).2

end Engine

end NodeGraph
