import NodeGraph.Proofs.Engine.Coherence
import NodeGraph.Proofs.Run.Valid
import NodeGraph.Proofs.Session.Invariant

/-!
# Runs without caches

A scene is a graph and a context, and nothing is remembered in it: a step there takes every value it
reads from the graph as it is when the step begins. Runs of an engine make the steps that scenes
make (`Engine.Reachable.execute_iff_scene`), as every step has an epoch of its own.
-/

namespace NodeGraph

/-- A graph and the context of a run on it. -/
structure Scene where
  graph : Graph
  context : Context

namespace Scene

/-- Writes an output of a node. -/
def write (s : Scene) (addr : OutputAddr) (value : Value) : Scene :=
  { s with graph := s.graph.modifyOutput addr fun output => { output with value } }

/-- Makes the changes of a step. -/
def apply (s : Scene) (id : NodeId) (effect : Effect) : Scene :=
  let s := { s with context := effect.onContext s.context }
  match effect.write with
  | some (port, value) => s.write ⟨id, port⟩ value
  | none => s

/-- Does what is to be done at a node. What is read for it is computed anew from the graph. -/
def work (s : Scene) (id : NodeId) : Work → Step × Scene
  | .nothing => (.follow [], s)
  | .compute kind =>
    (.follow [], s.write ⟨id, Layout.result⟩ (s.graph.naiveNode s.context.locals id kind))
  | .act _ effect =>
    let effect := effect fun port => s.graph.naiveInput s.context.locals ⟨id, port⟩
    (effect.step, s.apply id effect)

/-- What kind of node is at a position. -/
def kind? (s : Scene) (id : NodeId) : Option NodeKind := (s.graph.node? id).map (·.kind)

/-- The step of a task. -/
def perform (s : Scene) (task : Task) : Step × Scene :=
  s.work task.node (task.work (s.kind? task.node))

/-- The nodes linked to outputs of a node: output by output, and at each one oldest link first. -/
def following (s : Scene) (id : NodeId) (ports : List PortId) : List NodeId :=
  ports.flatMap fun port => s.graph.successors ⟨id, port⟩

/-- Scenes as the recursion drives them: every step reads the graph as the step before it has left
it. -/
def walker : Walker Scene := ⟨perform, following⟩

section Frame

variable {g : Graph} {s : Scene}

theorem frame_write (s : Scene) (addr : OutputAddr) (value : Value) :
    (s.write addr value).graph.frame = s.graph.frame :=
  Graph.erase_modifyNode fun _ _ => Node.erase_write rfl _ _

theorem frame_apply (s : Scene) (id : NodeId) (effect : Effect) :
    (s.apply id effect).graph.frame = s.graph.frame := by
  unfold apply
  cases effect.write with
  | none => rfl
  | some write => exact frame_write _ _ _

theorem frame_perform (s : Scene) (task : Task) :
    (s.perform task).2.graph.frame = s.graph.frame := by
  unfold perform
  cases task.work (s.kind? task.node) with
  | nothing => rfl
  | compute kind => exact frame_write s _ _
  | act operands effect => exact frame_apply s _ _

theorem following_eq_of_frame_eq (frame : s.graph.frame = g.frame) (id : NodeId) (port : PortId) :
    s.following id [port] = g.successors ⟨id, port⟩ := by
  rw [following, List.flatMap_singleton]
  exact Graph.successors_eq_of_frame_eq frame _

end Frame

/-- A machine that is to the scene as caches are to no caches. -/
structure Shows (s : Scene) (m : Machine) : Prop where
  valid : m.engine.Valid
  acyclic : s.graph.Acyclic
  context : m.context = s.context
  skeleton : m.engine.graph.skeleton = s.graph.skeleton

/-- Steps that show alike: the same task and step, the same context after it, and the same values
in the outputs of the nodes that are not pure and of the node that was entered. -/
structure Agrees (v : Visit Machine) (v' : Visit Scene) : Prop where
  task : v.task = v'.task
  step : v.step = v'.step
  context : v.after.context = v'.after.context
  skeleton : v.after.engine.graph.skeleton = v'.after.graph.skeleton
  entered : ∀ id port, v.task = .enter id →
    v.after.engine.graph.outputValue ⟨id, port⟩ = v'.after.graph.outputValue ⟨id, port⟩

namespace Shows

variable {s : Scene} {m : Machine}

theorem wellFormed (h : Shows s m) : s.graph.WellFormed :=
  Graph.wellFormed_of_frame_eq (Graph.frame_eq h.skeleton) h.valid.wellFormed

theorem kind?_eq (h : Shows s m) (id : NodeId) :
    m.kind? id = s.kind? id :=
  Graph.map_kind_eq_of_frame_eq (Graph.frame_eq h.skeleton) id

/-- The values in the outputs of a node that is not pure show. -/
theorem outputValue_eq (h : Shows s m) {addr : OutputAddr}
    (impure : m.engine.graph.pureKind? addr.node = none) :
    m.engine.graph.outputValue addr = s.graph.outputValue addr :=
  Graph.outputValue_eq_of_skeleton h.skeleton impure

/-- What can be followed shows. -/
theorem following_eq (h : Shows s m) (id : NodeId) (ports : List PortId) :
    walker.following s id ports = Machine.walker.following m id ports := by
  rw [Machine.walker_following, Machine.following]
  show s.following id ports = _
  unfold following
  congr 1
  funext port
  exact Graph.successors_eq_of_frame_eq (Graph.frame_eq h.skeleton).symm ⟨id, port⟩

end Shows

/-- The same in the middle of a step, while nothing was written yet. -/
structure Underway (s : Scene) (m : Machine) : Prop where
  ready : m.Ready
  acyclic : s.graph.Acyclic
  context : m.context = s.context
  coherent : m.engine.Coherent s.graph s.context.locals

/-- A step begins with nothing current. -/
theorem Shows.openStep {s : Scene} {m : Machine} (h : Shows s m) (id : NodeId) :
    Underway s (m.openStep id) := by
  rcases Machine.ready_openStep h.valid id with ⟨ready, fresh⟩
  have skeleton : (m.openStep id).engine.graph.skeleton = s.graph.skeleton :=
    (Machine.erase_openStep _ m id).trans h.skeleton
  exact ⟨ready, h.acyclic, h.context, Engine.coherent_of_fresh skeleton fresh _⟩

namespace Underway

variable {s : Scene} {m : Machine}

theorem shows (h : Underway s m) : Shows s m :=
  ⟨h.ready.valid, h.acyclic, h.context, h.coherent.skeleton⟩

theorem read (h : Underway s m) (addr : InputAddr) :
    (m.read addr).1 = s.graph.naiveInput s.context.locals addr ∧ Underway s (m.read addr).2 := by
  have ready := (Machine.works_read m addr).ready h.ready
  obtain ⟨value, coherent⟩ := h.coherent.read h.acyclic h.shows.wellFormed h.ready.valid.quiet
    h.ready.valid.nonneg addr
  rw [← h.context] at value coherent
  exact ⟨h.context ▸ value, ready, h.acyclic, h.context, h.context ▸ coherent⟩

/-- Reading inputs of a node gives their values without caches. -/
theorem readAll (h : Underway s m) (id : NodeId) (ports : List PortId) :
    (∀ port ∈ ports, (m.readAll id ports).1 port =
      s.graph.naiveInput s.context.locals ⟨id, port⟩) ∧ Underway s (m.readAll id ports).2 := by
  refine readAll_keeps
    (fun port value => value = s.graph.naiveInput s.context.locals ⟨id, port⟩) ports ?_ h
  intro port _ m h
  exact h.read ⟨id, port⟩

/-- A pure node that control reaches is computed. -/
theorem compute (h : Underway s m) {id : NodeId} {kind : PureKind}
    (pure : m.kind? id = some (.pure kind)) :
    let after : Machine :=
      { m with engine := m.engine.compute m.context.locals m.engine.graph.size id kind }
    let scene := s.write ⟨id, Layout.result⟩ (s.graph.naiveNode s.context.locals id kind)
    Shows scene after ∧
      ∀ port, after.engine.graph.outputValue ⟨id, port⟩ = scene.graph.outputValue ⟨id, port⟩ := by
  intro after scene
  obtain ⟨node, found, isPure⟩ := Option.map_eq_some_iff.mp pure
  have pure' := Graph.pureKind?_eq_some found isPure
  have pureScene : s.graph.pureKind? id = some kind := by
    rw [← Graph.pureKind?_eq_of_frame_eq (Graph.frame_eq h.coherent.skeleton), pure']
  have wf := h.shows.wellFormed
  obtain ⟨settled, coherent⟩ := h.coherent.compute h.acyclic wf h.ready.valid.quiet
    h.ready.valid.nonneg pure'
  rw [← h.context] at settled coherent
  have works : Machine.Works m after := Machine.works_of_pulled
    (Engine.pulled_relation.computeWithin _ _ found isPure (h.ready.valid.quiet.idle found))
  have written : scene.graph.skeleton = s.graph.skeleton := by
    obtain ⟨node', found', isPure'⟩ := Graph.pureKind?_eq_some_iff.mp pureScene
    refine Graph.erase_modifyNode ?_
    intro other place
    obtain rfl : node' = other := Option.some.inj (found'.symm.trans place)
    exact @Node.erase_write (fun k => !k.isPure) node' (by rw [isPure']; rfl) _ _
  refine ⟨⟨(works.ready h.ready).valid, ?_, h.context, ?_⟩, fun port => ?_⟩
  · exact Graph.acyclic_of_frame_eq (Graph.frame_eq written).symm h.acyclic
  · rw [written]
    exact coherent.skeleton
  · cases there : (s.graph.output? ⟨id, port⟩).isSome with
    | true =>
      obtain rfl : port = Layout.result := (wf.isSome_output?_iff pureScene).mp there
      have value := coherent.outputValue_eq wf there settled
      rw [show scene.graph.outputValue ⟨id, Layout.result⟩ = _ from
        Graph.outputValue_modifyOutput_self there _, ← h.context]
      exact value.trans (Graph.outputUsing_of_pure pureScene)
    | false =>
      have absent : ∀ g : Graph, g.frame = s.graph.frame → g.outputValue ⟨id, port⟩ = .empty := by
        intro g frame
        apply Graph.outputValue_of_none
        rw [← Option.isNone_iff_eq_none, ← Option.not_isSome,
          Graph.isSome_output?_eq_of_frame_eq frame, there]
        rfl
      rw [absent _ (Graph.frame_eq coherent.skeleton), absent _ (Graph.frame_eq written)]

/-- What a step changes shows. -/
theorem apply (h : Underway s m) (id : NodeId) (effect : Effect) :
    Shows (s.apply id effect) ((m.apply id effect).countStep id) := by
  have works := (Machine.works_apply m id effect).trans (Machine.works_countStep _ id)
  have counted : ((m.apply id effect).countStep id).engine.graph.skeleton =
      (m.apply id effect).engine.graph.skeleton := by
    rw [Machine.countStep, Engine.graph_count]
    exact Graph.erase_modifyNode fun _ _ => rfl
  have context : ((m.apply id effect).countStep id).context = effect.onContext s.context := by
    rw [← h.context]
    exact Machine.context_apply m id effect
  unfold Scene.apply
  cases written : effect.write with
  | none =>
    refine ⟨(works.ready h.ready).valid, h.acyclic, context, ?_⟩
    rw [counted, Machine.graph_apply, written]
    exact h.coherent.skeleton
  | some write =>
    obtain ⟨port, value⟩ := write
    have frame := frame_write s ⟨id, port⟩ value
    have acyclic := Graph.acyclic_of_frame_eq frame.symm h.acyclic
    refine ⟨(works.ready h.ready).valid, acyclic, context, ?_⟩
    rw [counted, Machine.graph_apply, written]
    exact Graph.erase_modifyOutput_congr h.coherent.skeleton ⟨id, port⟩ value

end Underway

/-- A machine makes the step of the scene that it shows. -/
theorem Shows.perform {s : Scene} {m : Machine} (h : Shows s m) (task : Task) :
    (s.perform task).1 = (m.perform task).1 ∧ Shows (s.perform task).2 (m.perform task).2 ∧
      ∀ id port, task = .enter id → (m.perform task).2.engine.graph.outputValue ⟨id, port⟩ =
        (s.perform task).2.graph.outputValue ⟨id, port⟩ := by
  have begun := h.openStep task.node
  rw [Machine.perform_eq, Scene.perform, ← begun.shows.kind?_eq]
  generalize m.openStep task.node = m' at begun
  -- Only a pure node that is entered is computed.
  have impure : ∀ id, task = .enter id → (∀ kind, task.work (m'.kind? task.node) ≠ .compute kind) →
      m'.engine.graph.pureKind? id = none := by
    rintro id rfl other
    rw [Option.eq_none_iff_forall_ne_some]
    intro kind pure
    obtain ⟨node, found, isPure⟩ := Graph.pureKind?_eq_some_iff.mp pure
    refine other kind ?_
    rw [Machine.kind?, Task.node, found, Option.map_some, isPure]
    rfl
  cases work : task.work (m'.kind? task.node) with
  | nothing =>
    refine ⟨rfl, begun.shows, fun id port entered => begun.shows.outputValue_eq ?_⟩
    subst entered
    refine impure id rfl ?_
    intro kind equal
    rw [work] at equal
    cases equal
  | compute kind =>
    obtain ⟨pure, id, rfl⟩ := Machine.pure_of_work work
    rcases begun.compute pure with ⟨shows, outputs⟩
    refine ⟨rfl, shows, ?_⟩
    intro other port entered
    obtain rfl := Task.enter.inj entered
    exact outputs port
  | act operands effect =>
    rcases begun.readAll task.node operands with ⟨values, read⟩
    have same := Task.effect_congr work values
    have shows := read.apply task.node (effect (m'.readAll task.node operands).1)
    have made : s.work task.node (.act operands effect) =
        ((effect (m'.readAll task.node operands).1).step,
          s.apply task.node (effect (m'.readAll task.node operands).1)) := by
      rw [same]
      rfl
    rw [made]
    refine ⟨rfl, shows, fun id port entered => shows.outputValue_eq ?_⟩
    subst entered
    have works := Machine.works_work m' id (.act operands effect) begun.ready.valid.quiet
      (by intro kind equal; cases equal)
    have kept := Graph.pureKind?_eq_of_frame_eq works.frame id
    refine kept.trans (impure id rfl ?_)
    intro kind equal
    rw [work] at equal
    cases equal

/-- A run of a machine and a run without caches. -/
theorem Shows.simulate {s : Scene} {m m' : Machine} (h : Shows s m) {task : Task}
    {visits : List (Visit Machine)} {last : NodeId}
    (completes : Machine.walker.Completes m task visits last m') :
    ∃ visits' s', Scene.walker.Completes s task visits' last s' ∧ Shows s' m' ∧
      List.Forall₂ Agrees visits visits' := by
  refine completes.simulate (R := fun m s => Shows s m) (fun {m s} h task => ?_)
    (fun h id ports => h.following_eq id ports) h
  rcases h.perform task with ⟨step, shows, entered⟩
  exact ⟨step, shows, rfl, step.symm, shows.context, shows.skeleton, entered⟩

theorem Shows.simulated {s s' : Scene} {m : Machine} (h : Shows s m) {task : Task}
    {visits : List (Visit Scene)} {last : NodeId}
    (completes : Scene.walker.Completes s task visits last s') :
    ∃ visits' m', Machine.walker.Completes m task visits' last m' ∧ Shows s' m' ∧
      List.Forall₂ (fun v v' => Agrees v' v) visits visits' := by
  refine completes.simulate (R := Shows) (fun {s m} h task => ?_)
    (fun h id ports => (h.following_eq id ports).symm) h
  rcases h.perform task with ⟨step, shows, entered⟩
  exact ⟨step.symm, shows, rfl, step.symm, shows.context, shows.skeleton, entered⟩

end Scene

/-- A run of an engine is a run without caches: it ends exactly when that one does, with the same
steps, and then leaves the same context, the same wiring and literals and the same outputs of the
nodes that are not pure. Pure nodes must form no cycle. -/
theorem Engine.Reachable.execute_iff_scene {e : Engine} (reachable : e.Reachable)
    (acyclic : e.graph.Acyclic) (context : Context) (start last : NodeId) :
    (∀ limit m', Machine.execute limit ⟨e, context⟩ start = some (.ok last, m') →
      ∃ visits s', Scene.walker.Completes ⟨e.graph, context⟩ (.enter start) visits last s' ∧
        List.Forall₂ Scene.Agrees (Run.visits limit (Run.start ⟨e, context⟩ start)) visits ∧
        m'.context = s'.context ∧ m'.engine.graph.skeleton = s'.graph.skeleton) ∧
    (∀ visits s', (∃ node, e.graph.node? start = some node) →
      Scene.walker.Completes ⟨e.graph, context⟩ (.enter start) visits last s' →
      ∃ limit m', Machine.execute limit ⟨e, context⟩ start = some (.ok last, m')) := by
  have shows : Scene.Shows ⟨e.graph, context⟩ ⟨e, context⟩ := ⟨reachable.valid, acyclic, rfl, rfl⟩
  constructor
  · intro limit m' executed
    obtain ⟨_, completes⟩ := Machine.completes_of_execute executed
    obtain ⟨visits, s', completes', shows', agrees⟩ := shows.simulate completes
    exact ⟨visits, s', completes', agrees, shows'.context, shows'.skeleton⟩
  · intro visits s' found completes
    obtain ⟨steps, m', completes', _, _⟩ := shows.simulated completes
    obtain ⟨limit, executed, _⟩ := Machine.execute_of_completes found completes'
    exact ⟨limit, m', executed⟩

/-- Sets `x` and prints twice its value, on a new graph. -/
def printing : List Command :=
  [.openSheet .engine {}, .add (Node.setLocal "x" (.int 21)), .add (Node.ofKind (.action .print)),
    .add (Node.getLocal "x"), .add (Node.ofKind (.pure (.binary (.arithmetic .add)))),
    .connect ⟨⟨0, 0⟩, ⟨1, 0⟩⟩, .connect ⟨⟨2, 0⟩, ⟨3, 0⟩⟩, .connect ⟨⟨2, 0⟩, ⟨3, 1⟩⟩,
    .connect ⟨⟨3, 0⟩, ⟨1, 1⟩⟩]

theorem execute_printing : (Engine.built printing).Reachable ∧
    (Engine.built printing).graph.Acyclic ∧ ∃ visits s',
      Scene.walker.Completes ⟨(Engine.built printing).graph, ⟨7, .empty, #[]⟩⟩ (.enter 0) visits 1 s' ∧
        s'.context.printed = #["42"] := by
  have reachable := @Engine.reachable_built printing (by decide +kernel) (by decide +kernel)
  have acyclic : (Engine.built printing).graph.Acyclic := by
    apply Graph.acyclic_of_ascending
    decide +kernel
  have ended : (Machine.execute 2 ⟨Engine.built printing, ⟨7, .empty, #[]⟩⟩ 0).map
      (fun r => (r.1.toOption, r.2.context.printed)) = some (some 1, #["42"]) := by
    decide +kernel
  obtain ⟨⟨result, m'⟩, executed, equal⟩ := Option.map_eq_some_iff.mp ended
  obtain ⟨last, printed⟩ := Prod.mk.inj equal
  obtain rfl := eq_ok_of_toOption last
  obtain ⟨visits, s', completes, _, context, _⟩ :=
    (Engine.Reachable.execute_iff_scene reachable acyclic _ 0 1).1 2 m' executed
  exact ⟨reachable, acyclic, visits, s', completes, context ▸ printed⟩

end NodeGraph
