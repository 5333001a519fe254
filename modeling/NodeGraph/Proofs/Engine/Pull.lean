import NodeGraph.Engine.Pull
import NodeGraph.Proofs.Engine.Stamps
import NodeGraph.Proofs.Graph.Erasure
import NodeGraph.Proofs.Graph.Wiring

/-!
# What a pull does at most

A pull counts, reports cycles, stores values in the caches of inputs and computes pure nodes. A
relation that holds of these acts holds of every pull (`PullRelation.read`), whatever the wiring. So
a pull keeps the skeleton of the graph, leaves no node marked, and puts on it no stamp but the
current one (`Engine.pulled_read`).
-/

namespace NodeGraph

namespace Engine

section Parts

variable (e : Engine) (update : Statistics → Statistics) (event : Event) (id : NodeId)
  (f : Node → Node) (value : Value)

@[simp]
theorem graph_count : (e.count update).graph = e.graph := by
  unfold count
  split <;> rfl

@[simp]
theorem graph_modifyNode : (e.modifyNode id f).graph = e.graph.modifyNode id f := rfl

/-- The part of an engine that a pull has no business with. -/
def still (e : Engine) : Engine := { e with graph := {}, statistics := {}, journal := #[] }

@[simp]
theorem still_count : (e.count update).still = e.still := by
  unfold count
  split <;> rfl

@[simp]
theorem still_modifyNode : (e.modifyNode id f).still = e.still := rfl

@[simp]
theorem epoch_count : (e.count update).epoch = e.epoch := by
  show (e.count update).still.epoch = e.still.epoch
  rw [still_count]

@[simp]
theorem still_finishComputing : (e.finishComputing id value).still = e.still :=
  (still_count _ _).trans (still_modifyNode _ _ _)

theorem graph_finishComputing : (e.finishComputing id value).graph =
    e.graph.modifyNode id fun node =>
      { node.write Layout.result value with
        activity := .idle, computedAt := e.epoch.number, evaluations := node.evaluations + 1 } :=
  graph_count _ _

@[simp]
theorem graph_store (addr : InputAddr) : (e.store addr value).graph =
    e.graph.modifyInput addr fun input => input.store value e.epoch.number := rfl

@[simp]
theorem epoch_finishComputing : (e.finishComputing id value).epoch = e.epoch := by
  have same := congrArg Engine.epoch (still_finishComputing e id value)
  exact same

@[simp]
theorem input?_finishComputing (addr : InputAddr) :
    (e.finishComputing id value).graph.input? addr = e.graph.input? addr := by
  rw [graph_finishComputing]
  apply Graph.input?_modifyNode
  intro node
  rfl

theorem output?_finishComputing (addr : OutputAddr) :
    (e.finishComputing id value).graph.output? addr =
      if ⟨id, Layout.result⟩ = addr then
        (e.graph.output? addr).map fun output => { output with value }
      else e.graph.output? addr := by
  rw [← Graph.output?_modifyOutput, graph_finishComputing, Graph.output?, Graph.output?,
    Graph.modifyOutput, Graph.node?_modifyNode, Graph.node?_modifyNode]
  split
  · simp only [Option.bind_map, Function.comp_def]
    rfl
  · rfl

end Parts

theorem outputValue_eq_map (e : Engine) (addr : OutputAddr) :
    e.outputValue addr = (e.graph.output addr).map fun _ => e.graph.outputValue addr := by
  unfold outputValue
  cases found : e.graph.output addr with
  | error fault => rfl
  | ok output =>
    rw [Graph.output_eq_ok_iff] at found
    simp [bind, Except.bind, Except.map, Graph.outputValue, found]

/-- How an input is read while computations may still nest `depth` deep. -/
def readWithin (locals : Locals) (depth : Nat) : InputAddr → Engine → Value × Engine :=
  readUsing (refreshUsing (compute locals depth))

theorem read_eq_readWithin (locals : Locals) (addr : InputAddr) (e : Engine) :
    e.read locals addr = e.readWithin locals e.graph.size addr := by
  unfold Engine.read readWithin Engine.refresh readUsing
  simp only [graph_count]

theorem compute_succ (locals : Locals) (depth : Nat) (id : NodeId) (kind : PureKind) (e : Engine) :
    compute locals (depth + 1) id kind e =
      (operate (readWithin locals depth) locals id kind (e.beginComputing id)).2.finishComputing id
        (operate (readWithin locals depth) locals id kind (e.beginComputing id)).1 := rfl

/-- A relation between the engine before and after that every act of a pull respects. -/
structure PullRelation (R : Engine → Engine → Prop) : Prop where
  refl : ∀ e, R e e
  trans : ∀ {e₁ e₂ e₃}, R e₁ e₂ → R e₂ e₃ → R e₁ e₃
  hit : ∀ e, R e (e.count Statistics.hit)
  miss : ∀ e, R e (e.count Statistics.miss)
  cycle : ∀ e id title, R e ((e.log (.pullCycle id title)).count Statistics.cycle)
  store : ∀ e addr value, R e (e.store addr value)
  /-- The computation of a pure node, with whatever happens while it is marked. -/
  compute : ∀ {e e' : Engine} {id : NodeId} {node : Node} {kind : PureKind} (value : Value),
    e.graph.node? id = some node → node.kind = .pure kind → node.activity = .idle →
    R (e.beginComputing id) e' → R e (e'.finishComputing id value)

namespace PullRelation

variable {R : Engine → Engine → Prop} (rel : PullRelation R)

include rel

theorem readUsing {refresh : NodeId → Engine → Engine} (refreshed : ∀ id e, R e (refresh id e))
    (addr : InputAddr) (e : Engine) : R e (e.readUsing refresh addr).2 := by
  unfold Engine.readUsing
  split
  · exact rel.refl e
  case h_2 input found =>
    split
    · exact rel.refl e
    case h_2 source linked =>
      split
      · exact rel.hit e
      · exact rel.trans (rel.trans (rel.miss e) (refreshed source.node _)) (rel.store _ _ _)

theorem refreshUsing {compute : NodeId → PureKind → Engine → Engine}
    (computed : ∀ {id node kind e}, e.graph.node? id = some node → node.kind = .pure kind →
      node.activity = .idle → R e (compute id kind e))
    (id : NodeId) (e : Engine) : R e (e.refreshUsing compute id) := by
  unfold Engine.refreshUsing
  split
  · exact rel.refl e
  case h_2 node found =>
    split
    case h_1 kind pure =>
      split
      · exact rel.refl e
      · split
        · exact rel.cycle e _ _
        case h_2 idle => exact computed found pure idle
    · exact rel.refl e

theorem operate {read : InputAddr → Engine → Value × Engine} (reads : ∀ addr e, R e (read addr e).2)
    (locals : Locals) (id : NodeId) (kind : PureKind) (e : Engine) :
    R e (operate read locals id kind e).2 := by
  cases kind with
  | binary op => exact rel.trans (reads _ e) (reads _ _)
  | getLocal => exact reads _ e

theorem computeWithin (locals : Locals) (depth : Nat) {id : NodeId} {node : Node} {kind : PureKind}
    {e : Engine} (found : e.graph.node? id = some node) (pure : node.kind = .pure kind)
    (idle : node.activity = .idle) : R e (Engine.compute locals depth id kind e) := by
  induction depth generalizing id node kind e with
  | zero => exact rel.refl e
  | succ depth ih =>
    rw [compute_succ]
    refine rel.compute _ found pure idle (rel.operate ?_ locals id kind _)
    intro addr e
    exact rel.readUsing (rel.refreshUsing ih) addr e

theorem refresh (locals : Locals) (id : NodeId) (e : Engine) : R e (e.refresh locals id) :=
  rel.refreshUsing (fun found pure idle => rel.computeWithin locals _ found pure idle) id e

/-- Every read of an input respects the relation. -/
theorem read (locals : Locals) (addr : InputAddr) (e : Engine) : R e (e.read locals addr).2 :=
  rel.readUsing (rel.refresh locals) addr e

end PullRelation

/-- What is the same before and after a pull, and how the stamps may have changed. -/
structure Pulled (e e' : Engine) : Prop where
  still : e'.still = e.still
  skeleton : e'.graph.skeleton = e.graph.skeleton
  activity : ∀ id, e'.graph.activity? id = e.graph.activity? id
  /-- New stamps are those of the current epoch. -/
  stamps : ∀ {P : Int → Prop}, P e.epoch.number → e.graph.Stamps P → e'.graph.Stamps P

namespace Pulled

variable {e e' e'' : Engine}

theorem of_graph_eq (still : e'.still = e.still) (graph : e'.graph = e.graph) : Pulled e e' where
  still := still
  skeleton := by rw [graph]
  activity _ := by rw [graph]
  stamps _ before := by
    rw [graph]
    exact before

theorem epoch (h : Pulled e e') : e'.epoch = e.epoch := by
  have same := congrArg Engine.epoch h.still
  exact same

theorem serves (h : Pulled e e') : e'.serves = e.serves := by
  have same := congrArg Engine.serves h.still
  exact same

theorem trans (h : Pulled e e') (h' : Pulled e' e'') : Pulled e e'' where
  still := h'.still.trans h.still
  skeleton := h'.skeleton.trans h.skeleton
  activity id := (h'.activity id).trans (h.activity id)
  stamps now before := h'.stamps (by rw [h.epoch]; exact now) (h.stamps now before)

theorem frame (h : Pulled e e') : e'.graph.frame = e.graph.frame := Graph.frame_eq h.skeleton

theorem pureKind? (h : Pulled e e') (id : NodeId) :
    e'.graph.pureKind? id = e.graph.pureKind? id := Graph.pureKind?_eq_of_frame_eq h.frame id

end Pulled

theorem pulled_store (e : Engine) (addr : InputAddr) (value : Value) :
    Pulled e (e.store addr value) where
  still := rfl
  skeleton := Graph.erase_modifyNode fun node _ => Node.erase_modifyInput_store _ node _ _ _
  activity id := by
    apply Graph.activity?_modifyNode
    intro node
    rfl
  stamps now before := before.modifyNode fun node old => old.modifyInput fun _ _ => now

/-- The mark on a node does not show in any erasure. -/
theorem erase_beginComputing (keeps : NodeKind → Bool) (e : Engine) (id : NodeId) :
    (e.beginComputing id).graph.erase keeps = e.graph.erase keeps :=
  Graph.erase_modifyNode fun _ _ => rfl

/-- What a pure node computes does not show in the skeleton. -/
theorem skeleton_finishComputing {e : Engine} {id : NodeId} {kind : PureKind}
    (pure : e.graph.pureKind? id = some kind) (value : Value) :
    (e.finishComputing id value).graph.skeleton = e.graph.skeleton := by
  obtain ⟨node, found, isPure⟩ := Graph.pureKind?_eq_some_iff.mp pure
  have unkept : (!node.kind.isPure) = false := by
    rw [isPure]
    rfl
  rw [graph_finishComputing]
  refine Graph.erase_modifyNode ?_
  intro other place
  obtain rfl : node = other := Option.some.inj (found.symm.trans place)
  exact @Node.erase_write (fun k => !k.isPure) node unkept Layout.result value

/-- Between the mark and its removal anything may happen that a pull may do. -/
theorem pulled_compute {e e' : Engine} {id : NodeId} {node : Node} {kind : PureKind} (value : Value)
    (found : e.graph.node? id = some node) (pure : node.kind = .pure kind)
    (idle : node.activity = .idle) (during : Pulled (e.beginComputing id) e') :
    Pulled e (e'.finishComputing id value) := by
  have marked : (e.beginComputing id).graph.skeleton = e.graph.skeleton :=
    erase_beginComputing _ e id
  have kept : e'.graph.pureKind? id = some kind := by
    rw [during.pureKind?, Graph.pureKind?_eq_of_frame_eq (Graph.frame_eq marked)]
    exact Graph.pureKind?_eq_some found pure
  refine ⟨?_, ?_, ?_, ?_⟩
  · rw [still_finishComputing]
    exact during.still
  · rw [skeleton_finishComputing kept, during.skeleton, marked]
  · intro other
    rw [graph_finishComputing]
    by_cases same : id = other
    · subst same
      obtain ⟨after, found', _⟩ := Graph.pureKind?_eq_some_iff.mp kept
      rw [Graph.activity?, Graph.node?_modifyNode_self found', Graph.activity?, found]
      exact congrArg some idle.symm
    · rw [Graph.activity?, Graph.node?_modifyNode_of_ne same]
      refine (during.activity other).trans ?_
      exact congrArg (Option.map _) (Graph.node?_modifyNode_of_ne same)
  · intro P now before
    rw [graph_finishComputing, during.epoch]
    have begun : (e.beginComputing id).graph.Stamps P := by
      apply before.modifyNode
      intro _ old
      exact ⟨old.node, old.input⟩
    apply (during.stamps now begun).modifyNode
    intro _ old
    exact ⟨now, old.input⟩

theorem pulled_relation : PullRelation Pulled where
  refl _ := .of_graph_eq rfl rfl
  trans := Pulled.trans
  hit e := .of_graph_eq (still_count e _) (graph_count e _)
  miss e := .of_graph_eq (still_count e _) (graph_count e _)
  cycle _ _ _ := .of_graph_eq (still_count _ _) (graph_count _ _)
  store := pulled_store
  compute := pulled_compute

theorem pulled_refreshWithin (locals : Locals) (depth : Nat) (id : NodeId) (e : Engine) :
    Pulled e (e.refreshUsing (compute locals depth) id) :=
  pulled_relation.refreshUsing (pulled_relation.computeWithin locals depth) id e

theorem pulled_readWithin (locals : Locals) (depth : Nat) (addr : InputAddr) (e : Engine) :
    Pulled e (e.readWithin locals depth addr).2 :=
  pulled_relation.readUsing (pulled_refreshWithin locals depth) addr e

/-- A read changes nothing but caches, values and counts of pure nodes, and stamps. -/
theorem pulled_read (locals : Locals) (addr : InputAddr) (e : Engine) :
    Pulled e (e.read locals addr).2 := pulled_relation.read locals addr e

theorem pulled_refresh (locals : Locals) (id : NodeId) (e : Engine) :
    Pulled e (e.refresh locals id) := pulled_relation.refresh locals id e

end Engine

end NodeGraph
