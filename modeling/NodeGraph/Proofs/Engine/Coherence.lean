import NodeGraph.Proofs.Engine.Abreast
import NodeGraph.Proofs.Graph.Naive

/-!
# What is current is right

An engine is coherent with a graph and local variables when everything current in it is what the
graph is worth without caches. Where nothing is current that is so for any local variables
(`Engine.coherent_of_fresh`), and while the pure nodes form no cycle every pull keeps it and gives
the value without caches (`Engine.Coherent.read`).
-/

namespace NodeGraph.Engine

/-- What is current in the engine has its value without caches, taken from a graph that differs in
nothing but what pulls may change. -/
structure Coherent (g : Graph) (locals : Locals) (e : Engine) : Prop where
  skeleton : e.graph.skeleton = g.skeleton
  node : ∀ {id node kind}, e.graph.node? id = some node → node.kind = .pure kind →
    e.epoch.isCurrent node.computedAt = true →
    e.graph.outputValue ⟨id, Layout.result⟩ = g.naiveNode locals id kind
  input : ∀ {addr input source}, e.graph.input? addr = some input → input.source = some source →
    e.epoch.isCurrent input.stamp = true → input.cached = g.naiveInput locals addr

/-- Where nothing is current, nothing current is wrong. -/
theorem coherent_of_fresh {g : Graph} {e : Engine} (skeleton : e.graph.skeleton = g.skeleton)
    (fresh : e.Fresh) (locals : Locals) : Coherent g locals e where
  skeleton := skeleton
  node found _ current := absurd current (fresh.node_stale found)
  input found _ current := absurd current (fresh.input_stale found)

section Naive

variable (g : Graph) (locals : Locals)

/-- A node has its value without caches. -/
def NaiveNode (id : NodeId) (v v' : Value) : Prop :=
  v' = v ∧ ∀ kind, g.pureKind? id = some kind → v = g.naiveNode locals id kind

/-- An input has its value without caches. -/
def NaiveInput (addr : InputAddr) (v v' : Value) : Prop := v' = v ∧ v = g.naiveInput locals addr

variable {g locals}

/-- Where there are no cycles, the values without caches are computed from each other. -/
theorem naive_matches (acyclic : g.Acyclic) :
    Matches g locals locals (NaiveNode g locals) (NaiveInput g locals) where
  absent missing := by
    refine ⟨rfl, ?_⟩
    rw [Graph.naiveInput, Graph.inputUsing, missing]
  literal found unlinked := ⟨rfl, (Graph.inputUsing_of_unlinked found unlinked).symm⟩
  written link impure := by
    refine ⟨rfl, ?_⟩
    rw [Graph.naiveInput_of_source link]
    exact (Graph.outputUsing_of_impure impure).symm
  pulled link pure value := by
    obtain ⟨rfl, right⟩ := value
    refine ⟨rfl, ?_⟩
    rw [Graph.naiveInput_of_source link, right _ pure]
    exact (Graph.outputUsing_of_pure pure).symm
  computed {id kind operand operand'} pure reads := by
    refine ⟨PureKind.value_congr fun port member => (reads port member).1, ?_⟩
    intro kind' pure'
    obtain rfl : kind = kind' := Option.some.inj (pure.symm.trans pure')
    rw [Graph.naiveNode_eq acyclic pure]
    exact PureKind.value_congr fun port member => (reads port member).2

/-- To be coherent is to match what is right, side by side with itself. -/
theorem coherent_iff_abreast {e : Engine} : Coherent g locals e ↔
    Abreast g (NaiveNode g locals) (NaiveInput g locals) e e := by
  constructor
  · intro coherent
    refine ⟨.refl e, coherent.skeleton, fun {id node kind} found pure current => ?_,
      fun {addr input input' source} found found' linked current => ?_⟩
    · refine ⟨rfl, ?_⟩
      intro kind' pure'
      rw [← Graph.pureKind?_eq_of_frame_eq (Graph.frame_eq coherent.skeleton),
        Graph.pureKind?_eq_some found pure] at pure'
      obtain rfl := Option.some.inj pure'
      exact coherent.node found pure current
    · obtain rfl : input = input' := Option.some.inj (found.symm.trans found')
      exact ⟨rfl, coherent.input found linked current⟩
  · intro abreast
    refine ⟨abreast.skeleton, fun {id node kind} found pure current => ?_,
      fun {addr input source} found linked current => ?_⟩
    · have pure' := Graph.pureKind?_eq_some found pure
      rw [Graph.pureKind?_eq_of_frame_eq abreast.frame] at pure'
      exact (abreast.matching.node found pure current).2 kind pure'
    · exact (abreast.matching.input found found linked current).2

end Naive

namespace Coherent

variable {g : Graph} {locals : Locals} {e : Engine}

/-- An output that is settled has its value without caches. -/
theorem outputValue_eq (coherent : Coherent g locals e) (wf : g.WellFormed) {addr : OutputAddr}
    (found : (g.output? addr).isSome) (settled : e.Settled addr.node) :
    e.graph.outputValue addr = g.naiveOutput locals addr := by
  cases pure : g.pureKind? addr.node with
  | none =>
    rw [Graph.naiveOutput_eq_of_skeleton coherent.skeleton.symm]
    refine (Graph.outputUsing_of_impure ?_).symm
    rw [Graph.pureKind?_eq_of_frame_eq (Graph.frame_eq coherent.skeleton), pure]
  | some kind =>
    have pure' := Graph.pureKind?_eq_of_frame_eq (Graph.frame_eq coherent.skeleton) addr.node
    rw [pure] at pure'
    obtain ⟨node, place, isPure⟩ := Graph.pureKind?_eq_some_iff.mp pure'
    have port : addr.port = Layout.result := (wf.isSome_output?_iff pure).mp found
    have value := coherent.node place isPure (settled node kind place isPure)
    rw [← port] at value
    exact value.trans (Graph.outputUsing_of_pure pure).symm

variable (coherent : Coherent g locals e) (acyclic : g.Acyclic) (wf : g.WellFormed)
  (quiet : e.graph.Quiet) (nonneg : 0 ≤ e.epoch.number)

include coherent acyclic wf quiet nonneg

/-- Every read gives the value without caches, and leaves what is current right. -/
theorem read (addr : InputAddr) :
    (e.read locals addr).1 = g.naiveInput locals addr ∧
      Coherent g locals (e.read locals addr).2 := by
  obtain ⟨value, after⟩ := (coherent_iff_abreast.mp coherent).read acyclic wf
    (naive_matches acyclic) quiet nonneg addr
  exact ⟨value.2, coherent_iff_abreast.mpr after⟩

/-- A node that was brought up to date is settled, and what is current is right. -/
theorem refresh (id : NodeId) :
    (e.refresh locals id).Settled id ∧ Coherent g locals (e.refresh locals id) := by
  obtain ⟨settled, after⟩ := (coherent_iff_abreast.mp coherent).refresh acyclic wf
    (naive_matches acyclic) quiet nonneg id
  exact ⟨settled, coherent_iff_abreast.mpr after⟩

/-- The same of a pure node that is computed whether or not it is current. -/
theorem compute {id : NodeId} {kind : PureKind} (pure : e.graph.pureKind? id = some kind) :
    (e.compute locals e.graph.size id kind).Settled id ∧
      Coherent g locals (e.compute locals e.graph.size id kind) := by
  obtain ⟨settled, after⟩ := (coherent_iff_abreast.mp coherent).compute acyclic wf
    (naive_matches acyclic) quiet nonneg pure
  exact ⟨settled, coherent_iff_abreast.mpr after⟩

end Coherent

end NodeGraph.Engine
