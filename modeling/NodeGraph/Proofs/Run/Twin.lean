import NodeGraph.Proofs.Graph.Ports
import NodeGraph.Proofs.Graph.Pushed
import NodeGraph.Proofs.Run.Conditions

/-!
# Two loops with the same condition and bindings

Where two loops read their conditions from the same output, or have the same literal there, and go to
the same nodes, what follows when one of them is resumed is what follows when control enters the
other, if that one tests its condition first (`Scene.completes_twin`). So once a loop that runs its
body at least once has made its first pass, it does what such a loop put beside it does
(`Machine.while_of_doWhile`).
-/

namespace NodeGraph

namespace Graph

variable {g h : Graph} {a b : NodeId}

/-- Two loops with the same condition and the same bindings. -/
structure Twins (g : Graph) (a b : NodeId) : Prop where
  condition : (g.input? ⟨a, Layout.WhileLoop.condition⟩).map Input.erase =
    (g.input? ⟨b, Layout.WhileLoop.condition⟩).map Input.erase
  successors : ∀ port, g.successors ⟨a, port⟩ = g.successors ⟨b, port⟩

theorem Twins.of_frame_eq (twins : g.Twins a b) (same : h.frame = g.frame) : h.Twins a b where
  condition := by
    rw [map_input?_eq_of_frame_eq same, twins.condition, map_input?_eq_of_frame_eq same]
  successors port := by
    rw [successors_eq_of_frame_eq same, twins.successors, successors_eq_of_frame_eq same]

theorem inputUsing_congr {value : NodeId → PureKind → Value} {addr addr' : InputAddr}
    (same : (g.input? addr).map Input.erase = (g.input? addr').map Input.erase) :
    g.inputUsing value addr = g.inputUsing value addr' := by
  unfold inputUsing
  cases found : g.input? addr with
  | none =>
    rw [found, Option.map_none, eq_comm, Option.map_eq_none_iff] at same
    rw [same]
  | some input =>
    rw [found, Option.map_some] at same
    obtain ⟨input', found', equal⟩ := Option.map_eq_some_iff.mp same.symm
    have source := congrArg Input.source equal
    have literal := congrArg Input.literal equal
    change input'.source = input.source at source
    change input'.literal = input.literal at literal
    rw [found']
    dsimp only
    rw [source, literal]

end Graph

namespace Scene

variable {g : Graph} {node : Node} {s s' : Scene} {task : Task}

/-- The scene with one more node. -/
def push (s : Scene) (node : Node) : Scene := { s with graph := s.graph.push node }

theorem kind?_eq_of_frame_eq (frame : s.graph.frame = g.frame) (id : NodeId) :
    s.kind? id = g.kind? id := Graph.map_kind_eq_of_frame_eq frame id

theorem write_push {addr : OutputAddr} (other : addr.node ≠ s.graph.size) (value : Value) :
    (s.push node).write addr value = (s.write addr value).push node :=
  congrArg (Scene.mk · s.context) (Graph.modifyNode_push other node _)

theorem apply_push {id : NodeId} (other : id ≠ s.graph.size) (effect : Effect) :
    (s.push node).apply id effect = (s.apply id effect).push node := by
  unfold apply
  cases effect.write with
  | none => rfl
  | some write => exact write_push (s := { s with context := effect.onContext s.context }) other _

section Push

variable (impure : node.kind.pure? = none) (wf : g.WellFormed) (acyclic : g.Acyclic)

include impure wf acyclic

/-- One more node changes nothing for a step of another one. -/
theorem perform_push (frame : s.graph.frame = g.frame) (other : task.node ≠ s.graph.size) :
    (s.push node).perform task = ((s.perform task).1, (s.perform task).2.push node) := by
  have wf' := Graph.wellFormed_of_frame_eq frame.symm wf
  have acyclic' := Graph.acyclic_of_frame_eq frame.symm acyclic
  have kind : (s.push node).kind? task.node = s.kind? task.node :=
    congrArg (Option.map fun n : Node => n.kind) (Graph.node?_push_of_ne other node)
  rw [perform, kind, perform]
  cases work : task.work (s.kind? task.node) with
  | nothing => rfl
  | compute kind =>
    obtain ⟨found, _⟩ := Machine.pure_of_work work
    obtain ⟨place, there, isPure⟩ := Option.map_eq_some_iff.mp found
    have value := Graph.naiveNode_push impure wf' acyclic' s.context.locals
      (Graph.pureKind?_eq_some there isPure)
    dsimp only [Scene.work]
    rw [← write_push other, ← value]
    rfl
  | act operands effect =>
    have operand : (fun port =>
        (s.push node).graph.naiveInput (s.push node).context.locals ⟨task.node, port⟩) =
          fun port => s.graph.naiveInput s.context.locals ⟨task.node, port⟩ := by
      funext port
      exact Graph.naiveInput_push impure wf' acyclic' other
    simp only [Scene.work, operand, apply_push other]

/-- One more node changes nothing for what is done completely at the others. -/
theorem completes_push {links : List Link} (records : g.Records links)
    (frame : s.graph.frame = g.frame) {visits : List (Visit Scene)} {last : NodeId}
    (completes : walker.Completes s task visits last s') (old : task.node < g.size) :
    s'.graph.frame = g.frame ∧
      ∃ visits', walker.Completes (s.push node) task visits' last (s'.push node) := by
  have within {s : Scene} (frame : s.graph.frame = g.frame) {id : NodeId} (old : id < g.size) :
      id ≠ s.graph.size := by
    rw [Graph.size_eq_of_frame_eq frame]
    exact Nat.ne_of_lt old
  obtain ⟨visits', _, completes', ⟨rfl, frame'⟩, _⟩ :=
    completes.simulate_within (v := walker)
      (R := fun s t => t = s.push node ∧ s.graph.frame = g.frame) (A := fun _ _ => True)
      (T := fun task => task.node < g.size)
      (by
        rintro s _ ⟨rfl, frame⟩ task old
        have made := perform_push impure wf acyclic frame (within frame old)
        exact ⟨(congrArg Prod.fst made : ((s.push node).perform task).1 = _),
          ⟨(congrArg Prod.snd made : ((s.push node).perform task).2 = _),
            (frame_perform s task).trans frame⟩, trivial⟩)
      (by
        rintro s _ ⟨rfl, frame⟩ task ports old
        refine ⟨?_, fun id follows => ?_⟩
        · show List.flatMap _ _ = List.flatMap _ _
          congr 1
          funext port
          exact Graph.successors_push_of_ne (within frame old) node
        · obtain ⟨port, _, follows⟩ := List.mem_flatMap.mp follows
          rw [Graph.successors_eq_of_frame_eq frame] at follows
          obtain ⟨place, found⟩ := Option.isSome_iff_exists.mp (records.isSome_successor follows)
          exact Graph.lt_size_of_node? found)
      (fun _ _ old => old) ⟨rfl, frame⟩ old
  exact ⟨frame', visits', completes'⟩

end Push

section Twins

variable {a b : NodeId} (twins : g.Twins a b)

include twins

theorem condition_eq_of_twins (frame : s.graph.frame = g.frame) :
    s.graph.naiveInput s.context.locals ⟨a, Layout.WhileLoop.condition⟩ =
      s.graph.naiveInput s.context.locals ⟨b, Layout.WhileLoop.condition⟩ :=
  Graph.inputUsing_congr (twins.of_frame_eq frame).condition

/-- The passes of one loop are passes of the other. -/
theorem loops_twin {body done : PortId} {entered : List NodeId} {passes : List (Pass Scene)}
    {leaving task' : Task} {out : Scene}
    (loops : walker.Loops a body done entered s task passes leaving out)
    (frame : s.graph.frame = g.frame) (tests : task.Tests (g.kind? a) a)
    (tests' : task'.Tests (g.kind? b) b) :
    ∃ passes' leaving', walker.Loops b body done entered s task' passes' leaving' out := by
  have step {s : Scene} {task : Task} {id : NodeId} (frame : s.graph.frame = g.frame)
      (tests : task.Tests (g.kind? id) id) : s.perform task = (conditionStep
        (s.graph.naiveInput s.context.locals ⟨id, Layout.WhileLoop.condition⟩), s) := by
    rw [← kind?_eq_of_frame_eq frame] at tests
    exact perform_condition tests
  induction loops generalizing task' with
  | leave made =>
    have made' := step frame tests'
    rw [← condition_eq_of_twins twins frame, ← step frame tests] at made'
    exact ⟨[], task', .leave (made'.trans made)⟩
  | @pass s begun ended out task leaving left inner last later made passed _ ih =>
    have made' := step frame tests'
    rw [← condition_eq_of_twins twins frame, ← step frame tests] at made'
    have tested := (step frame tests).symm.trans made
    obtain ⟨again, rfl⟩ := Prod.mk.inj tested
    obtain ⟨_, rfl⟩ := conditionStep_eq_again again
    have ended := passed.keeps (P := fun s => s.graph.frame = g.frame)
      (fun {s} task frame => (frame_perform s task).trans frame) frame
    obtain ⟨passes', leaving', loops'⟩ := ih ended (.inl rfl) (.inl rfl)
    obtain ⟨last', passed'⟩ := passed.exists_from b
    exact ⟨_, leaving', .pass (made'.trans made) passed' loops'⟩

/-- Once it is resumed, a loop does what control does that enters the other one, which tests its
condition first. -/
theorem completes_twin (tests : g.kind? b = some (.control .whileLoop))
    (frame : s.graph.frame = g.frame) {visits : List (Visit Scene)} {last : NodeId}
    (completes : walker.Completes s (.resume a .condition) visits last s') :
    ∃ visits' last', walker.Completes s (.enter b) visits' last' s' := by
  have performed {s : Scene} (task : Task) (frame : s.graph.frame = g.frame) :
      (s.perform task).2.graph.frame = g.frame := (frame_perform s task).trans frame
  have own {s : Scene} {task : Task} (_ : s.graph.frame = g.frame)
      (own : task = .resume a .condition) : task.node = a ∧
        ((walker.perform s task).1 = .follow [Layout.WhileLoop.done] ∨
          ∃ frame, (walker.perform s task).1 = .again Layout.WhileLoop.body frame ∧
            Task.resume a frame = .resume a .condition) := by
    have tests : task.Tests (s.kind? a) a := .inl own
    refine ⟨tests.node, ?_⟩
    rw [show walker.perform s task = _ from perform_condition tests]
    dsimp only [conditionStep]
    split
    · exact .inr ⟨.condition, rfl, rfl⟩
    · exact .inl rfl
  obtain ⟨passes, leaving, out, after, loops, frame', each, _⟩ :=
    completes.loops (P := fun s => s.graph.frame = g.frame)
      (T := fun task => task = .resume a .condition) performed
      (fun frame => following_eq_of_frame_eq frame a Layout.WhileLoop.body) own frame rfl
  obtain ⟨passes', leaving', loops'⟩ := loops_twin twins loops frame (.inl rfl) (.inr ⟨rfl, tests⟩)
  obtain ⟨last', each'⟩ := each.exists_from b
  rw [show walker.following out a [Layout.WhileLoop.done] = _ from
    following_eq_of_frame_eq frame' a _, twins.successors,
    ← following_eq_of_frame_eq frame' b] at each'
  exact ⟨_, last', loops'.completes (P := fun s => s.graph.frame = g.frame) performed
    (fun frame => by
      rw [twins.successors]
      exact following_eq_of_frame_eq frame b Layout.WhileLoop.body)
    frame rfl each'⟩

end Twins

end Scene

/-- A loop that tests its condition first, otherwise like the one given. -/
def Node.testingFirst (n : Node) : Node := { n with kind := .control .whileLoop }

namespace Machine

variable {g : Graph} {m m' : Machine} {id : NodeId} {node : Node}

/-- The machine with one more node in its graph, which keeps its links. -/
def push (m : Machine) (node : Node) : Machine :=
  { m with engine := { m.engine with graph := m.engine.graph.push node } }

/-- A loop that tests its condition first can stand beside one that runs its body first. -/
theorem valid_push (valid : m.engine.Valid) (found : m.engine.graph.node? id = some node)
    (kind : node.kind = .control .doWhile) : (m.push node.testingFirst).engine.Valid := by
  have stamps {P : Int → Prop} (all : m.engine.graph.Stamps P) : node.testingFirst.Stamps P :=
    ⟨(all id node found).node, (all id node found).input⟩
  have laid : node.testingFirst.LaidOut := by
    have laid := valid.wellFormed.laidOut found
    refine ⟨laid.inputs.trans ?_, laid.outputs.trans ?_⟩ <;>
    · rw [kind]
      rfl
  have idle : node.activity = .idle := valid.quiet.idle found
  refine ⟨valid.wellFormed.push laid ?_, valid.quiet.push idle, valid.nonneg,
    valid.issued.push (stamps valid.issued), fun none => ?_⟩
  · intro port input source there linked
    have place : m.engine.graph.input? ⟨id, port⟩ = some input :=
      Graph.input?_eq_some_iff.mpr ⟨node, found, there⟩
    exact valid.wellFormed.wired place linked
  · exact (valid.unserved none).push (stamps (valid.unserved none))

/-- After its first pass, a loop that runs its body at least once does what a loop that tests its
condition first does if it stands beside it with the same condition and the same bindings. -/
theorem while_of_doWhile {links : List Link} (on : On g m) (records : g.Records links)
    (acyclic : g.Acyclic) (found : m.engine.graph.node? id = some node)
    (kind : node.kind = .control .doWhile) {visits : List (Visit Machine)} {last : NodeId}
    (completes : walker.Completes m (.resume id .condition) visits last m') :
    ∃ visits' last' m'',
      walker.Completes (m.push node.testingFirst) (.enter g.size) visits' last' m'' ∧
      m''.context = m'.context ∧
      m''.engine.graph.skeleton = (m'.engine.graph.push node.testingFirst).skeleton := by
  have wf := Graph.wellFormed_of_frame_eq on.frame on.valid.wellFormed
  have size : m.engine.graph.size = g.size := Graph.size_eq_of_frame_eq on.frame
  have old : id < g.size := size ▸ Graph.lt_size_of_node? found
  have acyclic' := Graph.acyclic_of_frame_eq on.frame.symm acyclic
  have shows : Scene.Shows ⟨m.engine.graph, m.context⟩ m := ⟨on.valid, acyclic', rfl, rfl⟩
  obtain ⟨_, s', scene, shows', _⟩ := shows.simulate completes
  have impure : node.testingFirst.kind.pure? = none := rfl
  obtain ⟨_, _, beside⟩ := Scene.completes_push impure wf acyclic records on.frame scene old
  have twins : (m.engine.graph.push node.testingFirst).Twins id g.size := by
    rw [← size] at old ⊢
    refine ⟨?_, fun port => ?_⟩
    · rw [Graph.input?_push_self, Graph.input?_push_of_ne (Nat.ne_of_lt old), Graph.input?, found]
      rfl
    · rw [Graph.successors_push_self found node.testingFirst rfl,
        Graph.successors_push_of_ne (Nat.ne_of_lt old)]
  have tests : (m.engine.graph.push node.testingFirst).kind? g.size =
      some (.control .whileLoop) := by
    rw [← size, Graph.kind?, Graph.node?_push_self]
    rfl
  obtain ⟨_, last', twin⟩ := Scene.completes_twin twins tests rfl beside
  have shows'' : Scene.Shows (Scene.push ⟨m.engine.graph, m.context⟩ node.testingFirst)
      (m.push node.testingFirst) :=
    ⟨valid_push on.valid found kind, Graph.acyclic_push rfl acyclic', rfl, rfl⟩
  obtain ⟨visits', m'', completes', ended, _⟩ := shows''.simulated twin
  refine ⟨visits', last', m'', completes', ended.context.trans shows'.context.symm, ?_⟩
  have skeleton : (s'.graph.push node.testingFirst).skeleton =
      (m'.engine.graph.push node.testingFirst).skeleton := by
    rw [Graph.skeleton, Graph.erase_push, ← Graph.skeleton, ← shows'.skeleton, Graph.skeleton,
      ← Graph.erase_push, Graph.skeleton]
  exact ended.skeleton.trans skeleton

end Machine

end NodeGraph
