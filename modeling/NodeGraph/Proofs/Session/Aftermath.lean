import NodeGraph.Proofs.Engine.Evaluations
import NodeGraph.Proofs.Graph.Apart
import NodeGraph.Proofs.Run.Scene
import NodeGraph.Proofs.Run.Steps
import NodeGraph.Proofs.Session.Memoization
import NodeGraph.Proofs.Session.Numbers

/-!
# Reads after a run

The last step of a run shares its epoch with the reads that follow. A step reads before it writes,
so what it has read may be out of date once it is made. Only a step that sets a local variable both
writes and ends a branch: after any other the reads give the values without caches, and after such
a step they do where nothing that it read depends on what it wrote
(`Engine.Reachable.read_after_run`). Where a variable is counted up, a read still gives what the
step has read (`Engine.read_after_incrementing`).
-/

namespace NodeGraph

/-- A step that does not go to the body of a loop writes nothing, unless it sets a local
variable. -/
theorem Task.Acts.silent_of_follow {kind? : Option NodeKind} {task : Task}
    {operand : PortId → Value} {effect : Effect} (acts : task.Acts kind? operand effect)
    {ports : List PortId} (follow : effect.step = .follow ports) :
    (effect.write = none ∧ effect.assign = none) ∨
      kind? = some (.action .setLocal) ∧ ∃ id, task = .enter id := by
  have counting (frame : CountingFrame) (ends : frame.effect.step = .follow ports) :
      frame.effect.write = none ∧ frame.effect.assign = none := by
    rcases frame.effect_cases with ⟨_, _, _, equal⟩ | equal
    · rw [equal] at ends
      cases ends
    · rw [equal]
      exact ⟨rfl, rfl⟩
  have condition : (conditionEffect operand).write = none ∧
      (conditionEffect operand).assign = none := by
    rcases conditionEffect_cases operand with equal | equal <;> rw [equal] <;> exact ⟨rfl, rfl⟩
  cases acts with
  | @action id kind found =>
    cases kind with
    | start => exact .inl ⟨rfl, rfl⟩
    | print => exact .inl ⟨rfl, rfl⟩
    | setLocal => exact .inr ⟨found, id, rfl⟩
  | first _ _ => exact .inl (counting _ follow)
  | skipped _ => exact .inl ⟨rfl, rfl⟩
  | tested _ => exact .inl condition
  | untested _ => cases follow
  | chosen _ => exact .inl ⟨rfl, rfl⟩
  | counted => exact .inl (counting _ follow)
  | retested => exact .inl condition

/-- What is current after reads of the inputs of a node where nothing was current before. -/
theorem Engine.ReadsEach.pulled_of_current {locals : Locals} {depth : Nat} {id : NodeId}
    {ports : List PortId} {e e' : Engine} {values : PortId → Value}
    (h : ReadsEach locals depth id ports e values e') (fresh : e.Fresh) {a : NodeId} {node : Node}
    (found : e'.graph.node? a = some node)
    (current : ¬ node.Stamps fun stamp => e'.epoch.isCurrent stamp = false) :
    a = id ∨ e.graph.PulledFor id a := by
  by_contra beyond
  obtain ⟨apart, unpulled⟩ := not_or.mp beyond
  have same := h.spares apart fun port _ source link up => unpulled ⟨port, source, link, up⟩
  rw [found] at same
  rw [(h.respects pulled_relation).epoch] at current
  exact current (fresh a node same.symm)

namespace Machine

variable (m : Machine) (id : NodeId) (effect : Effect)

/-- What a step changes after its reads shows in no input. -/
theorem input?_acted (addr : InputAddr) :
    ((m.apply id effect).countStep id).engine.graph.input? addr = m.engine.graph.input? addr := by
  have counted (g : Graph) : (g.modifyNode id Node.countEvaluation).input? addr =
      g.input? addr := by
    apply Graph.input?_modifyNode
    intro node
    rfl
  rw [graph_acted, counted, graph_apply]
  cases effect.write with
  | none => rfl
  | some write => exact Graph.input?_modifyOutput _ _ _ _

theorem current_acted (other : NodeId) :
    ((m.apply id effect).countStep id).engine.Current other ↔ m.engine.Current other := by
  refine Engine.current_congr (epoch_acted m id effect) ?_
  have counted (g : Graph) (f : Node → Node)
      (same : ∀ node, (f node).computedAt = node.computedAt) :
      ((g.modifyNode id f).node? other).map (·.computedAt) =
        (g.node? other).map (·.computedAt) := by
    rw [Graph.node?_modifyNode]
    split
    · simp [Function.comp_def, same]
    · rfl
  rw [graph_acted, counted _ Node.countEvaluation (fun _ => rfl), graph_apply]
  cases effect.write with
  | none => rfl
  | some write =>
    apply counted
    intro node
    rfl

theorem outputValue_acted {addr : OutputAddr}
    (unwritten : ∀ port value, effect.write = some (port, value) → id ≠ addr.node) :
    ((m.apply id effect).countStep id).engine.graph.outputValue addr =
      m.engine.graph.outputValue addr := by
  have counted (g : Graph) : (g.modifyNode id Node.countEvaluation).outputValue addr =
      g.outputValue addr := by
    apply Graph.outputValue_modifyNode
    intro node
    rfl
  rw [graph_acted, counted, graph_apply]
  cases written : effect.write with
  | none => rfl
  | some write =>
    obtain ⟨port, value⟩ := write
    apply Graph.outputValue_modifyOutput_of_ne
    rintro rfl
    exact unwritten port value written rfl

end Machine

namespace Scene

variable {s : Scene} {m : Machine}

/-- What is current stays right in a step whose changes it does not depend on. -/
theorem Underway.apply_kept (h : Underway s m) {id : NodeId} {effect : Effect}
    (unwritten : ∀ port value, effect.write = some (port, value) →
      m.engine.graph.pureKind? id = none)
    (node : ∀ a kind, m.engine.Current a → m.engine.graph.pureKind? a = some kind →
      (s.apply id effect).graph.naiveNode (s.apply id effect).context.locals a kind =
        s.graph.naiveNode s.context.locals a kind)
    (input : ∀ addr input, m.engine.graph.input? addr = some input →
      m.engine.epoch.isCurrent input.stamp = true →
      (s.apply id effect).graph.naiveInput (s.apply id effect).context.locals addr =
        s.graph.naiveInput s.context.locals addr) :
    Underway (s.apply id effect) ((m.apply id effect).countStep id) := by
  have shows := h.apply id effect
  have works := (Machine.works_apply m id effect).trans (Machine.works_countStep _ id)
  refine ⟨works.ready h.ready, shows.acyclic, shows.context, shows.skeleton,
    fun {a place kind} found isPure current => ?_,
    fun {addr place source} found linked current => ?_⟩
  · have pure := Graph.pureKind?_eq_some found isPure
    rw [Graph.pureKind?_eq_of_frame_eq works.frame] at pure
    have before := (Machine.current_acted m id effect a).mp ⟨place, found, current⟩
    have same := node a kind before pure
    obtain ⟨old, found', now⟩ := before
    obtain ⟨old', found'', isPure'⟩ := Graph.pureKind?_eq_some_iff.mp pure
    obtain rfl := Option.some.inj (found'.symm.trans found'')
    rw [Machine.outputValue_acted m id effect, same]
    · exact h.coherent.node found' isPure' now
    · rintro port value written rfl
      rw [unwritten port value written] at pure
      cases pure
  · rw [Machine.input?_acted] at found
    rw [Machine.epoch_acted] at current
    rw [input addr place found current]
    exact h.coherent.input found linked current

theorem apply_of_silent (s : Scene) (id : NodeId) {effect : Effect} (write : effect.write = none)
    (assign : effect.assign = none) : (s.apply id effect).graph = s.graph ∧
      (s.apply id effect).context.locals = s.context.locals := by
  unfold apply Effect.onContext
  rw [write, assign]
  cases effect.line <;> exact ⟨rfl, rfl⟩

/-- A step that sets a local variable leaves everything current right where nothing that it read
depends on what it writes. -/
theorem Underway.setLocal (h : Underway s m) (fresh : m.engine.Fresh) {id : NodeId}
    (kind : m.kind? id = some (.action .setLocal)) (apart : s.graph.SetsApart id)
    {operand : PortId → Value} {m' : Machine}
    (after : m.readAll id ActionKind.setLocal.operands = (operand, m')) :
    Underway (s.apply id (ActionKind.setLocal.effect operand))
      ((m'.apply id (ActionKind.setLocal.effect operand)).countStep id) := by
  obtain ⟨values, read⟩ := h.readAll id ActionKind.setLocal.operands
  have reads := (Machine.readsEach_readAll m id ActionKind.setLocal.operands).2
  have works := Machine.works_readAll id ActionKind.setLocal.operands m
  rw [after] at values read reads works
  have named : ∀ text, s.graph.fixedText? ⟨id, Layout.SetLocal.key⟩ = some text →
      text = (operand Layout.SetLocal.key).display := by
    intro text fixed
    have key := values Layout.SetLocal.key (by simp [ActionKind.operands])
    rw [show operand Layout.SetLocal.key = _ from key]
    exact (Graph.inputUsing_of_fixedText? fixed).symm
  have pulled {a : NodeId} {node : Node} (found : m'.engine.graph.node? a = some node)
      (now : ¬ node.Stamps fun stamp => m'.engine.epoch.isCurrent stamp = false) :
      a = id ∨ s.graph.PulledFor id a := by
    rw [← Graph.pulledFor_congr (Graph.frame_eq h.coherent.skeleton)]
    exact reads.pulled_of_current fresh found now
  have impure : m'.engine.graph.pureKind? id = none := by
    obtain ⟨node, found, action⟩ := Option.map_eq_some_iff.mp kind
    rw [Graph.pureKind?_eq_of_frame_eq works.frame, Graph.pureKind?, found, Option.bind_some,
      action]
    rfl
  refine read.apply_kept (fun _ _ _ => impure) ?_ ?_
  · rintro a kind ⟨node, found, now⟩ pure
    rcases pulled found (fun stamps => by simp [stamps.node] at now) with rfl | pulled
    · rw [impure] at pure
      cases pure
    · rw [Graph.pureKind?_eq_of_frame_eq (Graph.frame_eq read.coherent.skeleton)] at pure
      exact apart.naiveNode_eq named pulled pure
  · rintro ⟨a, port⟩ input found now
    obtain ⟨node, place, there⟩ := Graph.input?_eq_some_iff.mp found
    have reads := pulled place fun stamps => by simp [stamps.input there] at now
    exact apart.naiveInput_eq named reads port

/-- A pure node that control reaches is computed, and that leaves everything current right. -/
theorem Underway.computed (h : Underway s m) {id : NodeId} {kind : PureKind}
    (pure : m.kind? id = some (.pure kind)) : Underway s
      { m with engine := m.engine.compute m.context.locals m.engine.graph.size id kind } := by
  obtain ⟨node, found, isPure⟩ := Option.map_eq_some_iff.mp pure
  have quiet := h.ready.valid.quiet
  obtain ⟨_, coherent⟩ := h.coherent.compute h.acyclic h.shows.wellFormed quiet
    h.ready.valid.nonneg (Graph.pureKind?_eq_some found isPure)
  rw [← h.context] at coherent
  have works := Machine.works_of_pulled
    (Engine.pulled_relation.computeWithin m.context.locals m.engine.graph.size found isPure
      (quiet.idle found))
  exact ⟨works.ready h.ready, h.acyclic, h.context, h.context ▸ coherent⟩

/-- A step that ends a branch leaves everything current right, unless it sets a local variable that
what it read depends on. -/
theorem Shows.underway_of_follow (h : Shows s m) {task : Task} {ports : List PortId}
    {m' : Machine} (made : m.perform task = (.follow ports, m'))
    (apart : m.kind? task.node = some (.action .setLocal) → s.graph.SetsApart task.node) :
    ∃ s', Underway s' m' := by
  have begun := h.openStep task.node
  have fresh := (Machine.ready_openStep h.valid task.node).2
  rw [← Machine.kind?_openStep m task.node] at apart
  rw [Machine.perform_eq] at made
  generalize m.openStep task.node = m₁ at begun fresh apart made
  cases work : task.work (m₁.kind? task.node) with
  | nothing =>
    rw [work] at made
    obtain ⟨_, rfl⟩ := Prod.mk.inj made
    exact ⟨s, begun⟩
  | compute kind =>
    rw [work] at made
    obtain ⟨_, rfl⟩ := Prod.mk.inj made
    exact ⟨s, begun.computed (Machine.pure_of_work work).1⟩
  | act operands effect =>
    rw [work, Machine.work] at made
    have read := (begun.readAll task.node operands).2
    generalize after : m₁.readAll task.node operands = between at read made
    obtain ⟨operand, m₂⟩ := between
    obtain ⟨follow, rfl⟩ := Prod.mk.inj made
    rcases (Task.acts_of_work work operand).silent_of_follow follow with
      ⟨write, assign⟩ | ⟨kind, id, rfl⟩
    · obtain ⟨graph, locals⟩ := apply_of_silent s task.node write assign
      refine ⟨_, read.apply_kept ?_ ?_ ?_⟩
      · intro port value written
        rw [write] at written
        cases written
      · intro a kind _ _
        rw [graph, locals]
      · intro addr input _ _
        rw [graph, locals]
    · rw [kind] at work
      obtain ⟨rfl, rfl⟩ := Work.act.inj work
      exact ⟨_, begun.setLocal fresh kind (apart kind) after⟩

/-- Where everything current is right, a read gives the value without caches. -/
theorem Underway.getValue (h : Underway s m) {addr : InputAddr}
    (there : (m.engine.graph.input? addr).isSome) : (m.engine.getValue addr m.context).1 =
      .ok (m.engine.graph.naiveInput m.context.locals addr) := by
  obtain ⟨input, found⟩ := Option.isSome_iff_exists.mp there
  have read := (h.read addr).1
  rw [← h.context, ← Graph.naiveInput_eq_of_skeleton h.coherent.skeleton] at read
  rw [Engine.getValue, Graph.input_eq_ok_iff.mpr found, Engine.serve_of_serves h.ready.serves]
  exact congrArg Except.ok read

end Scene

namespace Engine

/-- In a new epoch every read gives the value without caches. -/
theorem Valid.getValue_openEpoch {e : Engine} (valid : e.Valid) (acyclic : e.graph.Acyclic)
    (context : Context) {addr : InputAddr} (there : (e.graph.input? addr).isSome) :
    (e.openEpoch.getValue addr context).1 =
      .ok (e.graph.naiveInput context.locals addr) := by
  obtain ⟨opened, _, unserved⟩ := valid.openEpoch
  have skeleton : e.openEpoch.graph.skeleton = e.graph.skeleton := erase_openEpoch _ e
  have frame := Graph.frame_eq skeleton
  have answering : Answering e.openEpoch.graph context e.openEpoch :=
    answering_of_unserved opened (by rw [unserved]; simp)
  obtain ⟨value, _⟩ := answering.getValue (Graph.acyclic_of_frame_eq frame.symm acyclic)
    opened.wellFormed addr
  obtain ⟨input, found⟩ := Option.isSome_iff_exists.mp there
  rw [value, Graph.map_input_eq_of_frame_eq frame, Graph.input_eq_ok_iff.mpr found,
    Graph.naiveInput_eq_of_skeleton skeleton]
  rfl

/-- After a run, a read for its context gives the value without caches in the state that the run
left, provided that a node which set a local variable in the last step stands apart from what it
read for that. This is asked of the step, whichever input is read afterwards. In a new epoch the
read gives that value after every run. -/
theorem Reachable.read_after_run {e : Engine} (reachable : e.Reachable)
    (acyclic : e.graph.Acyclic) {context : Context} {limit : Nat} {start last : NodeId}
    {m' : Machine} (executed : Machine.execute limit ⟨e, context⟩ start = some (.ok last, m'))
    {addr : InputAddr} (there : (e.graph.input? addr).isSome) :
    (((e.graph.node? last).map (·.kind) = some (.action .setLocal) → e.graph.SetsApart last) →
      (m'.engine.getValue addr m'.context).1 =
        .ok (m'.engine.graph.naiveInput m'.context.locals addr)) ∧
    (m'.engine.openEpoch.getValue addr m'.context).1 =
      .ok (m'.engine.graph.naiveInput m'.context.locals addr) := by
  obtain ⟨valid, works⟩ := Machine.works_execute reachable.valid executed
  have frame : m'.engine.graph.frame = e.graph.frame := works.frame
  have inputs := congrArg Option.isSome (Graph.map_input?_eq_of_frame_eq frame addr)
  rw [Option.isSome_map, Option.isSome_map, there] at inputs
  refine ⟨fun apart => ?_, valid.getValue_openEpoch
    (Graph.acyclic_of_frame_eq frame.symm acyclic) m'.context inputs⟩
  obtain ⟨_, m₁, task, ports, reaches, rfl, made⟩ :=
    (Machine.completes_of_execute executed).2.exists_last_step
      (P := fun m => Machine.Reaches ⟨e, context⟩ m)
      (fun task reaches => .perform task reaches) .refl
  obtain ⟨valid₁, works₁⟩ := reaches.works reachable.valid
  have frame₁ : m₁.engine.graph.frame = e.graph.frame := works₁.frame
  have shows : Scene.Shows ⟨m₁.engine.graph, m₁.context⟩ m₁ :=
    ⟨valid₁, Graph.acyclic_of_frame_eq frame₁.symm acyclic, rfl, rfl⟩
  have kinds : m₁.kind? task.node = (e.graph.node? task.node).map (·.kind) :=
    Machine.kind?_eq_of_frame_eq works₁.frame task.node
  obtain ⟨s', underway⟩ := shows.underway_of_follow made fun kind =>
    (apart (kinds.symm.trans kind)).of_frame_eq frame₁.symm
  exact underway.getValue inputs

/-- Sets `x` to one more than `y` and stores that for a print node. -/
def storing : List Command :=
  [.openSheet .engine {}, .add (Node.setLocal "x" .empty), .add (Node.getLocal "y"),
    .add ((Node.ofKind (.pure (.binary (.arithmetic .add)))).withLiteral Layout.Binary.right
      (.int 1)),
    .add (Node.ofKind (.action .print)), .connect ⟨⟨1, 0⟩, ⟨2, 0⟩⟩, .connect ⟨⟨2, 0⟩, ⟨0, 2⟩⟩,
    .connect ⟨⟨0, 1⟩, ⟨3, 1⟩⟩]

theorem read_after_storing : (built storing).Reachable ∧ (built storing).graph.Acyclic ∧
    ((built storing).graph.input? ⟨3, 1⟩).isSome ∧ (built storing).graph.SetsApart 0 ∧
    ∃ m', Machine.execute 1 ⟨built storing, ⟨7, .empty, #[]⟩⟩ 0 = some (.ok 0, m') ∧
      (m'.engine.getValue ⟨3, 1⟩ m'.context).1.toOption.map Value.display = some "1" := by
  have reachable := @reachable_built storing (by decide +kernel) (by decide +kernel)
  have acyclic : (built storing).graph.Acyclic := by
    apply Graph.acyclic_of_ascending
    decide +kernel
  have there : ((built storing).graph.input? ⟨3, 1⟩).isSome := by decide +kernel
  have apart : (built storing).graph.SetsApart 0 :=
    Graph.setsApart_of_all (by decide +kernel) (by decide +kernel)
  have ended : (Machine.execute 1 ⟨built storing, ⟨7, .empty, #[]⟩⟩ 0).map (fun r =>
      (r.1.toOption, (r.2.engine.graph.naiveInput r.2.context.locals ⟨3, 1⟩).display)) =
      some (some 0, "1") := by
    decide +kernel
  obtain ⟨⟨result, m'⟩, executed, equal⟩ := Option.map_eq_some_iff.mp ended
  obtain ⟨last, value⟩ := Prod.mk.inj equal
  obtain rfl := eq_ok_of_toOption last
  have read := (Reachable.read_after_run reachable acyclic executed there).1 fun _ => apart
  exact ⟨reachable, acyclic, there, apart, m', executed, by rw [read]; exact congrArg some value⟩

/-- Counts up `x`. -/
def incrementing : List Command :=
  [.openSheet .engine {}, .add (Node.setLocal "x" .empty), .add (Node.getLocal "x"),
    .add ((Node.ofKind (.pure (.binary (.arithmetic .add)))).withLiteral Layout.Binary.right
      (.int 1)),
    .connect ⟨⟨1, 0⟩, ⟨2, 0⟩⟩, .connect ⟨⟨2, 0⟩, ⟨0, 2⟩⟩]

/-- Where the variable that is set is the one that was looked up, a read after the run still gives
what the step has read, and not what it is worth now. -/
theorem read_after_incrementing : (built incrementing).Reachable ∧
    (built incrementing).graph.Acyclic ∧ ((built incrementing).graph.input? ⟨0, 2⟩).isSome ∧
    ∃ m', Machine.execute 1 ⟨built incrementing, ⟨7, .empty, #[]⟩⟩ 0 = some (.ok 0, m') ∧
      (m'.engine.getValue ⟨0, 2⟩ m'.context).1.toOption.map Value.display = some "1" ∧
      (m'.engine.graph.naiveInput m'.context.locals ⟨0, 2⟩).display = "2" ∧
      (m'.engine.getValue ⟨0, 2⟩ m'.context).1 ≠
        .ok (m'.engine.graph.naiveInput m'.context.locals ⟨0, 2⟩) := by
  have reachable := @reachable_built incrementing (by decide +kernel) (by decide +kernel)
  have acyclic : (built incrementing).graph.Acyclic := by
    apply Graph.acyclic_of_ascending
    decide +kernel
  have ended : (Machine.execute 1 ⟨built incrementing, ⟨7, .empty, #[]⟩⟩ 0).map (fun r =>
      (r.1.toOption, (r.2.engine.getValue ⟨0, 2⟩ r.2.context).1.toOption.map Value.display,
        (r.2.engine.graph.naiveInput r.2.context.locals ⟨0, 2⟩).display)) =
      some (some 0, some "1", "2") := by
    decide +kernel
  obtain ⟨⟨result, m'⟩, executed, equal⟩ := Option.map_eq_some_iff.mp ended
  obtain ⟨last, equal⟩ := Prod.mk.inj equal
  obtain ⟨read, value⟩ := Prod.mk.inj equal
  obtain rfl := eq_ok_of_toOption last
  refine ⟨reachable, acyclic, by decide +kernel, m', executed, read, value, fun same => ?_⟩
  dsimp only at read value
  simp [same, Except.toOption, value] at read

end Engine

end NodeGraph
