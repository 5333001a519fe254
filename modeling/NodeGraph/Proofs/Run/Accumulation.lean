import NodeGraph.Proofs.Graph.Built
import NodeGraph.Proofs.Run.Counting
import NodeGraph.Proofs.Run.Scene

/-!
# Loops that accumulate

A counting loop does completely, one after the other, what its frame gives
(`Scene.completes_counting`). So where each pass over the body makes of the value of a local variable
and the index a new value, a run that sets the variable and then goes to the loop leaves the fold of
these changes over all indices (`Engine.Built.execute_accumulates`).
-/

namespace NodeGraph

theorem Context.setLocal_setLocal (c : Context) (name : String) (first value : Value) :
    (c.setLocal name first).setLocal name value = c.setLocal name value := by
  simp [setLocal]

/-- The indices of an ascending loop are a progression. -/
theorem CountingFrame.exists_ascending (start finish : Int64) {step : Int64}
    (forward : 0 < step.toInt) :
    ∃ indices, CountingFrame.initial? start finish step false =
        some ⟨some start, finish, step, false⟩ ∧
      CountingFrame.Gives ⟨some start, finish, step, false⟩ indices ∧
      Progression (· < finish.toInt) step.toInt start.toInt (indices.map Int64.toInt) := by
  let range : CountingRange := ⟨start, finish, step, false⟩
  have entered : range.frame? = some ⟨some start, finish, step, false⟩ := by
    rcases range.frame?_cases with ⟨_, still⟩ | ⟨up, _⟩ | ⟨_, _, _, down, _⟩
    · rcases still with zero | ⟨_, back⟩
      · exact absurd zero (Int.ne_of_gt forward)
      · exact absurd back (Int.not_lt.mpr (Int.le_of_lt forward))
    · exact up
    · cases down
  obtain ⟨indices, gives⟩ := (CountingFrame.progresses_of_initial? entered).exists_gives
  refine ⟨indices, entered, gives, ?_⟩
  have visits := CountingRange.visits_of_gives entered gives
  rw [range.distance_of_forward forward] at visits
  generalize indices.map Int64.toInt = sequence at visits ⊢
  cases visits with
  | ascending _ _ progression => exact progression
  | descending down _ _ => cases down
  | nothing still =>
    rcases still with zero | ⟨_, back⟩
    · exact absurd zero (Int.ne_of_gt forward)
    · exact absurd back (Int.not_lt.mpr (Int.le_of_lt forward))

namespace Scene

variable {s : Scene} {id : NodeId}

/-- The step of a node that sets a local variable. -/
theorem perform_setLocal (kind : s.kind? id = some (.action .setLocal)) {name : String}
    {value : Value}
    (named : s.graph.naiveInput s.context.locals ⟨id, Layout.SetLocal.key⟩ = .text name)
    (worth : s.graph.naiveInput s.context.locals ⟨id, Layout.SetLocal.value⟩ = value) :
    s.perform (.enter id) = (.follow [Layout.flowOut],
      Scene.write { s with context := s.context.setLocal name value } ⟨id, Layout.SetLocal.stored⟩
        value) := by
  have effect : ActionKind.setLocal.effect
      (fun port => s.graph.naiveInput s.context.locals ⟨id, port⟩) =
        { step := .follow [Layout.flowOut]
          assign := some (name, value)
          write := some (Layout.SetLocal.stored, value) } := by
    rw [ActionKind.effect, named, worth]
    rfl
  rw [perform, Task.node, kind]
  show ((ActionKind.setLocal.effect _).step, s.apply id (ActionKind.setLocal.effect _)) = _
  rw [effect]
  rfl

/-- The step of a node that chooses between two branches. -/
theorem perform_ifElse (kind : s.kind? id = some (.control .ifElse)) {condition : Value}
    (worth : s.graph.naiveInput s.context.locals ⟨id, Layout.IfElse.condition⟩ = condition) :
    s.perform (.enter id) = (.follow [if condition.isTruthy then Layout.IfElse.whenTrue
      else Layout.IfElse.whenFalse], s) := by
  subst worth
  rw [perform, Task.node, kind]
  rfl

/-- The step of a counting loop that control enters. -/
theorem perform_forLoop (kind : s.kind? id = some (.control .forLoop)) {frame : CountingFrame}
    {start finish step : Int64} {descending : Bool}
    (starts : s.graph.naiveInput s.context.locals ⟨id, Layout.ForLoop.start⟩ = .int start)
    (finishes : s.graph.naiveInput s.context.locals ⟨id, Layout.ForLoop.finish⟩ = .int finish)
    (steps : s.graph.naiveInput s.context.locals ⟨id, Layout.ForLoop.step⟩ = .int step)
    (descends : s.graph.naiveInput s.context.locals ⟨id, Layout.ForLoop.descending⟩ =
      .bool descending)
    (entered : CountingFrame.initial? start finish step descending = some frame) :
    s.perform (.enter id) = (frame.effect.step, s.apply id frame.effect) := by
  have effect : ControlKind.forLoop.effect id
      (fun port => s.graph.naiveInput s.context.locals ⟨id, port⟩) = frame.effect := by
    simp only [ControlKind.effect, starts, finishes, steps, descends, Value.toInt, Value.isTruthy,
      entered]
  rw [perform, Task.node, kind, ← effect]
  rfl

/-- A node that sets a local variable, and that nothing follows. -/
theorem completes_setLocal (kind : s.kind? id = some (.action .setLocal)) {name : String}
    {value : Value}
    (named : s.graph.naiveInput s.context.locals ⟨id, Layout.SetLocal.key⟩ = .text name)
    (worth : s.graph.naiveInput s.context.locals ⟨id, Layout.SetLocal.value⟩ = value)
    (ends : s.graph.successors ⟨id, Layout.flowOut⟩ = []) :
    ∃ visits s', walker.Completes s (.enter id) visits id s' ∧ s'.graph.frame = s.graph.frame ∧
      s'.context = s.context.setLocal name value := by
  have made := perform_setLocal kind named worth
  have frame := frame_perform s (.enter id)
  rw [made] at frame
  have nothing := (following_eq_of_frame_eq frame id Layout.flowOut).trans ends
  exact ⟨_, _, .of_ends made nothing, frame, rfl⟩

/-- A counting loop that nothing follows makes the passes that its frame gives. `P` says what holds
before the passes for these indices; each pass has to establish it for the others. -/
theorem completes_counting {g : Graph} {P : List Int64 → Scene → Prop}
    (on : ∀ {rest s}, P rest s → s.graph.frame = g.frame)
    (ends : g.successors ⟨id, Layout.ForLoop.done⟩ = [])
    (pass : ∀ {index rest s}, P (index :: rest) s → ∃ visits last s',
      walker.CompletesEach (s.write ⟨id, Layout.ForLoop.index⟩ (.int index))
        (g.successors ⟨id, Layout.ForLoop.body⟩) id visits last s' ∧ P rest s')
    {frame : CountingFrame} {indices : List Int64} (gives : frame.Gives indices) {task : Task}
    (node : task.node = id)
    (made : s.perform task = (frame.effect.step, s.apply id frame.effect)) (begun : P indices s) :
    ∃ visits s', walker.Completes s task visits id s' ∧ P [] s' := by
  induction gives generalizing s task with
  | @done frame ended =>
    subst node
    have effect : frame.effect = { step := .follow [Layout.ForLoop.done] } := by
      rw [CountingFrame.effect, ended]
    rw [effect] at made
    have made : s.perform task = (.follow [Layout.ForLoop.done], s) := made
    have nothing := (following_eq_of_frame_eq (on begun) task.node _).trans ends
    exact ⟨_, s, .of_ends made nothing, begun⟩
  | @pass frame next index rest advanced _ ih =>
    subst node
    have effect : frame.effect = { step := .again Layout.ForLoop.body (.counting next)
                                   write := some (Layout.ForLoop.index, .int index) } := by
      rw [CountingFrame.effect, advanced]
    rw [effect] at made
    obtain ⟨inner, last, ended, passed, later⟩ := pass begun
    have same : (Task.resume task.node (.counting next)).node = task.node := rfl
    obtain ⟨outer, s', resumed, left⟩ := ih same rfl later
    have written := (frame_write s ⟨task.node, Layout.ForLoop.index⟩ (.int index)).trans (on begun)
    rw [← following_eq_of_frame_eq written] at passed
    exact ⟨_, s', .again made passed resumed, left⟩

end Scene

/-- The plan begins with a node that sets a local variable to a literal and goes to an ascending
loop that counts by its literals, and nothing follows the loop. -/
structure Accumulates (plan : List Node.Plan) (links : List Link) (name : String)
    (first start finish step : Int64) : Prop where
  sets : plan[0]? = some ⟨.action .setLocal, [.empty, .text name, .int first]⟩
  counts : plan[1]? = some ⟨.control .forLoop,
    [.empty, .int start, .int finish, .int step, .bool false]⟩
  unlinked : ∀ target ∈ [(⟨0, Layout.SetLocal.key⟩ : InputAddr), ⟨0, Layout.SetLocal.value⟩,
      ⟨1, Layout.ForLoop.start⟩, ⟨1, Layout.ForLoop.finish⟩, ⟨1, Layout.ForLoop.step⟩,
      ⟨1, Layout.ForLoop.descending⟩],
    Link.sourceOf links target = none
  enters : Link.targetsOf links ⟨0, Layout.flowOut⟩ = [⟨1, Layout.flowIn⟩]
  ends : Link.targetsOf links ⟨1, Layout.ForLoop.done⟩ = []

section Accumulates

variable {plan : List Node.Plan} {links : List Link} {name : String}
  {first start finish step : Int64} {c : Context}

/-- A pass over the body of the loop: what the local variable holds and the index make a new value
of the variable. -/
def Accumulates.Pass (plan : List Node.Plan) (links : List Link) (name : String) (c : Context)
    (f : Int64 → Int64 → Int64) (index : Int64) : Prop :=
  ∀ {s : Scene} {value : Int64}, s.graph.Built plan links → s.graph.Acyclic →
    s.context = c.setLocal name (.int value) →
    s.graph.outputValue ⟨1, Layout.ForLoop.index⟩ = .int index →
    ∃ visits last s', Scene.walker.CompletesEach s
        (s.graph.successors ⟨1, Layout.ForLoop.body⟩) 1 visits last s' ∧
      s'.graph.frame = s.graph.frame ∧ s'.context = c.setLocal name (.int (f value index))

/-- Before the passes for the indices that remain: folding these into what the local variable holds
gives the total. -/
structure Accumulating (plan : List Node.Plan) (links : List Link) (name : String) (c : Context)
    (f : Int64 → Int64 → Int64) (g : Graph) (total : Int64) (rest : List Int64) (s : Scene) :
    Prop where
  frame : s.graph.frame = g.frame
  holds : ∃ value, s.context = c.setLocal name (.int value) ∧ rest.foldl f value = total
  passes : ∀ index ∈ rest, Accumulates.Pass plan links name c f index

theorem Accumulating.pass {g : Graph} (built : g.Built plan links) (acyclic : g.Acyclic)
    (shape : Accumulates plan links name first start finish step) {f : Int64 → Int64 → Int64}
    {total index : Int64} {rest : List Int64} {s : Scene}
    (before : Accumulating plan links name c f g total (index :: rest) s) :
    ∃ visits last s', Scene.walker.CompletesEach (s.write ⟨1, Layout.ForLoop.index⟩ (.int index))
      (g.successors ⟨1, Layout.ForLoop.body⟩) 1 visits last s' ∧
      Accumulating plan links name c f g total rest s' := by
  obtain ⟨value, holds, folded⟩ := before.holds
  have written := (Scene.frame_write s ⟨1, Layout.ForLoop.index⟩ (.int index)).trans before.frame
  have built := built.of_frame_eq before.frame
  have there : (s.graph.output? ⟨1, Layout.ForLoop.index⟩).isSome :=
    (built.wellFormed.isSome_output? (built.kind?_eq_some shape.counts) _).mpr (by decide)
  obtain ⟨visits, last, s', completes, frame, holds'⟩ :=
    before.passes index List.mem_cons_self (built.of_frame_eq (Scene.frame_write s _ _))
      (Graph.acyclic_of_frame_eq written.symm acyclic) holds
      (Graph.outputValue_modifyOutput_self there _)
  rw [Graph.successors_eq_of_frame_eq written] at completes
  exact ⟨visits, last, s', completes, frame.trans written, ⟨f value index, holds', folded⟩,
    fun other member => before.passes other (List.mem_cons_of_mem index member)⟩

/-- The loop folds the passes over its indices. -/
theorem Scene.completes_accumulates {g : Graph} (built : g.Built plan links) (acyclic : g.Acyclic)
    (shape : Accumulates plan links name first start finish step) {f : Int64 → Int64 → Int64}
    {indices : List Int64}
    (entered : CountingFrame.initial? start finish step false =
      some ⟨some start, finish, step, false⟩)
    (gives : CountingFrame.Gives ⟨some start, finish, step, false⟩ indices)
    (passes : ∀ index ∈ indices, Accumulates.Pass plan links name c f index) :
    ∃ visits s', walker.Completes ⟨g, c⟩ (.enter 0) visits 1 s' ∧
      s'.context = c.setLocal name (.int (indices.foldl f first)) := by
  have unlinked := shape.unlinked
  simp only [List.forall_mem_cons] at unlinked
  obtain ⟨key, value, starts, finishes, steps, descends, _⟩ := unlinked
  -- The variable is set, and then the loop is entered.
  have sets := perform_setLocal (s := ⟨g, c⟩) (built.kind?_eq_some shape.sets)
    (built.naiveInput_of_literal shape.sets rfl key)
    (built.naiveInput_of_literal shape.sets rfl value)
  have frame := frame_perform ⟨g, c⟩ (.enter 0)
  rw [sets] at frame
  have built' := built.of_frame_eq frame
  have loops := perform_forLoop (built'.kind?_eq_some shape.counts)
    (built'.naiveInput_of_literal shape.counts rfl starts)
    (built'.naiveInput_of_literal shape.counts rfl finishes)
    (built'.naiveInput_of_literal shape.counts rfl steps)
    (built'.naiveInput_of_literal shape.counts rfl descends) entered
  have ends : g.successors ⟨1, Layout.ForLoop.done⟩ = [] := by
    rw [built.records.successors, shape.ends, List.map_nil]
  obtain ⟨visits, s', completes, left⟩ :=
    completes_counting (P := Accumulating plan links name c f g (indices.foldl f first))
      Accumulating.frame ends (Accumulating.pass built acyclic shape) gives rfl loops
      ⟨frame, ⟨first, rfl, rfl⟩, passes⟩
  have enters : g.successors ⟨0, Layout.flowOut⟩ = [1] := by
    rw [built.records.successors, shape.enters, List.map_singleton]
  have follows := (following_eq_of_frame_eq frame 0 Layout.flowOut).trans enters
  obtain ⟨_, holds, rfl⟩ := left.holds
  exact ⟨_, s', .of_follows sets follows completes, holds⟩

/-- A run from the node that sets the variable comes to its end at the loop and leaves the fold in
the variable, and everything else in the context as it was. -/
theorem Engine.Built.execute_accumulates {e : Engine} (built : e.Built c plan links)
    (acyclic : e.graph.Acyclic)
    (shape : Accumulates plan (Link.recorded links) name first start finish step)
    {f : Int64 → Int64 → Int64} {indices : List Int64}
    (entered : CountingFrame.initial? start finish step false =
      some ⟨some start, finish, step, false⟩)
    (gives : CountingFrame.Gives ⟨some start, finish, step, false⟩ indices)
    (passes : ∀ index ∈ indices, Accumulates.Pass plan (Link.recorded links) name c f index) :
    ∃ limit e', e.execute limit 0 = some (.ok 1, e') ∧
      e'.context = c.setLocal name (.int (indices.foldl f first)) := by
  obtain ⟨visits, s', completes, context⟩ :=
    Scene.completes_accumulates built.graph acyclic shape entered gives passes
  have shows : Scene.Shows ⟨e.graph, c⟩ ⟨e, c⟩ := ⟨built.valid, acyclic, rfl, rfl⟩
  obtain ⟨steps, m', completes', shows', _⟩ := shows.simulated completes
  have found : ∃ node, e.graph.node? 0 = some node := by
    obtain ⟨node, there, _⟩ := Option.map_eq_some_iff.mp ((built.graph.node 0).trans shape.sets)
    exact ⟨node, there⟩
  obtain ⟨limit, executed, _⟩ := Machine.execute_of_completes found completes'
  refine ⟨limit, { m'.engine with context := m'.context }, ?_, shows'.context.trans context⟩
  rw [Engine.execute, built.context, executed, Option.map_some]

end Accumulates

end NodeGraph
