import NodeGraph.Proofs.Engine.Consistency
import NodeGraph.Proofs.Engine.Nesting
import NodeGraph.Proofs.Graph.Upstream

/-!
# How often nodes are computed

A pull computes a node only while it is not current, and makes it current by that, so no node is
computed twice in an epoch (`Engine.Refreshes.tally`). Where nothing is current, what a pull of a
pure node computes is exactly what lies upstream of it (`Engine.Computes.evaluations`): nothing else
is touched, and what is current has nothing upstream that is not current or being computed.
-/

namespace NodeGraph

/-- How often the body of a node ran. -/
def Graph.evaluations (g : Graph) (id : NodeId) : Nat := ((g.node? id).map (·.evaluations)).getD 0

theorem Graph.evaluations_modifyNode {g : Graph} {id : NodeId} {f : Node → Node}
    (same : ∀ node, (f node).evaluations = node.evaluations) (other : NodeId) :
    (g.modifyNode id f).evaluations other = g.evaluations other := by
  rw [evaluations, node?_modifyNode]
  split
  · simp [evaluations, Function.comp_def, same]
  · rfl

theorem Graph.evaluations_modifyNode_of_ne {g : Graph} {id other : NodeId} (different : id ≠ other)
    (f : Node → Node) : (g.modifyNode id f).evaluations other = g.evaluations other := by
  rw [evaluations, node?_modifyNode_of_ne different, evaluations]

namespace Engine

variable {e e' e'' : Engine} {id other : NodeId}

/-- What happens to a node within an epoch: nothing that counts, or its one computation. -/
inductive Tally (e e' : Engine) (id : NodeId) : Prop where
  | kept (current : e'.Current id ↔ e.Current id)
      (evaluations : e'.graph.evaluations id = e.graph.evaluations id)
  | ran (stale : ¬ e.Current id) (current : e'.Current id)
      (evaluations : e'.graph.evaluations id = e.graph.evaluations id + 1)

namespace Tally

theorem of_graph_eq (epoch : e'.epoch = e.epoch) (graph : e'.graph = e.graph) (id : NodeId) :
    Tally e e' id := .kept (current_congr epoch (by rw [graph])) (by rw [graph])

/-- After its computation a node is current, and so it is not computed again. -/
theorem trans (h : Tally e e' id) (h' : Tally e' e'' id) : Tally e e'' id := by
  cases h with
  | kept current evaluations =>
    cases h' with
    | kept current' evaluations' =>
      exact .kept (current'.trans current) (evaluations'.trans evaluations)
    | ran stale current' evaluations' =>
      exact .ran (stale ∘ current.mpr) current' (evaluations ▸ evaluations')
  | ran stale current evaluations =>
    cases h' with
    | kept current' evaluations' =>
      exact .ran stale (current'.mpr current) (evaluations'.trans evaluations)
    | ran stale' => exact absurd current stale'

theorem mono (h : Tally e e' id) (current : e.Current id) : e'.Current id := by
  cases h with
  | kept same => exact same.mpr current
  | ran _ now => exact now

theorem le (h : Tally e e' id) : e'.graph.evaluations id ≤ e.graph.evaluations id + 1 := by
  cases h with
  | kept _ evaluations => omega
  | ran _ _ evaluations => omega

end Tally

theorem tally_count (e : Engine) (update : Statistics → Statistics) (id : NodeId) :
    Tally e (e.count update) id := .of_graph_eq (epoch_count e update) (graph_count e update) id

theorem evaluations_store (e : Engine) (addr : InputAddr) (value : Value) (id : NodeId) :
    (e.store addr value).graph.evaluations id = e.graph.evaluations id := by
  apply Graph.evaluations_modifyNode
  intro node
  rfl

theorem tally_store (e : Engine) (addr : InputAddr) (value : Value) (id : NodeId) :
    Tally e (e.store addr value) id :=
  .kept (current_store e addr value id) (evaluations_store e addr value id)

theorem tally_beginComputing (e : Engine) (id other : NodeId) :
    Tally e (e.beginComputing id) other := by
  refine .kept (current_beginComputing e id other) ?_
  apply Graph.evaluations_modifyNode
  intro node
  rfl

theorem tally_finishComputing {kind : PureKind} (nonneg : 0 ≤ e.epoch.number)
    (pure : e.graph.pureKind? id = some kind) (stale : ¬ e.Current id) (value : Value)
    (other : NodeId) : Tally e (e.finishComputing id value) other := by
  by_cases same : id = other
  · subst same
    refine .ran stale (current_finishComputing nonneg pure) ?_
    obtain ⟨node, found, _⟩ := Graph.pureKind?_eq_some_iff.mp pure
    rw [Graph.evaluations, graph_finishComputing, Graph.node?_modifyNode_self found,
      Graph.evaluations, found]
    rfl
  · refine .kept (current_finishComputing_of_ne same) ?_
    rw [graph_finishComputing, Graph.evaluations_modifyNode_of_ne same]

section Pulls

variable {locals : Locals} {depth : Nat}

mutual

/-- A read computes a node at most once, and never one that is current. -/
theorem Reads.tally {depth : Nat} {addr : InputAddr} {e e' : Engine} {value : Value}
    (h : Reads locals depth addr e value e') (nonneg : 0 ≤ e.epoch.number) (other : NodeId) :
    Tally e e' other := by
  match h with
  | .absent _ => exact .of_graph_eq rfl rfl other
  | .unlinked _ _ => exact .of_graph_eq rfl rfl other
  | .cached _ _ _ => exact tally_count e _ other
  | .pulled _ _ _ refreshes =>
    have counted := tally_count e Statistics.miss other
    exact (counted.trans (refreshes.tally (by rwa [epoch_count]) other)).trans
      (tally_store _ addr _ other)

theorem ReadsEach.tally {depth : Nat} {id : NodeId} {ports : List PortId} {e e' : Engine}
    {values : PortId → Value} (h : ReadsEach locals depth id ports e values e')
    (nonneg : 0 ≤ e.epoch.number) (other : NodeId) : Tally e e' other := by
  match h with
  | .nil => exact .of_graph_eq rfl rfl other
  | .cons first others =>
    have epoch := (first.respects pulled_relation).epoch
    exact (first.tally nonneg other).trans (others.tally (by rwa [epoch]) other)

theorem Refreshes.tally {depth : Nat} {id : NodeId} {e e' : Engine}
    (h : Refreshes locals depth id e e') (nonneg : 0 ≤ e.epoch.number) (other : NodeId) :
    Tally e e' other := by
  match h with
  | .impure _ => exact .of_graph_eq rfl rfl other
  | .current _ _ _ => exact .of_graph_eq rfl rfl other
  | .cycle _ _ _ _ =>
    refine .of_graph_eq ?_ ?_ other
    · exact epoch_count _ _
    · exact graph_count _ _
  | .computed found pure stale _ computes =>
    refine computes.tally nonneg (Graph.pureKind?_eq_some found pure) ?_ other
    rintro ⟨node, place, current⟩
    obtain rfl := Option.some.inj (found.symm.trans place)
    simp [stale] at current

/-- The mark on a node keeps it from being computed by what its own computation needs. -/
theorem Computes.tally {depth : Nat} {id : NodeId} {kind : PureKind} {e e' : Engine}
    (h : Computes locals depth id kind e e') (nonneg : 0 ≤ e.epoch.number)
    (pure : e.graph.pureKind? id = some kind) (stale : ¬ e.Current id) (other : NodeId) :
    Tally e e' other := by
  match h with
  | .operate reads =>
    have marks := reads.respects keepsMarks_relation
    have pulled := reads.respects pulled_relation
    have marked : (e.beginComputing id).graph.frame = e.graph.frame :=
      erase_beginComputing _ e id
    have found : (e.graph.node? id).isSome := by
      obtain ⟨node, found, _⟩ := Graph.pureKind?_eq_some_iff.mp pure
      exact Option.isSome_iff_exists.mpr ⟨node, found⟩
    refine ((tally_beginComputing e id other).trans (reads.tally nonneg other)).trans
      (@tally_finishComputing _ id kind ?_ ?_ ?_ _ other)
    · rwa [pulled.epoch]
    · rw [pulled.pureKind?, Graph.pureKind?_eq_of_frame_eq marked, pure]
    · rwa [marks.current (activity?_beginComputing found), current_beginComputing]

end

mutual

/-- A read changes no node but its own and those that lie upstream. -/
theorem Reads.spares {depth : Nat} {addr : InputAddr} {e e' : Engine} {value : Value}
    (h : Reads locals depth addr e value e') {other : NodeId} (apart : other ≠ addr.node)
    (beyond : ∀ source, e.graph.source? addr = some source →
      ¬ e.graph.Upstream other source.node) : e'.graph.node? other = e.graph.node? other := by
  match h with
  | .absent _ => rfl
  | .unlinked _ _ => rfl
  | .cached _ _ _ => rw [graph_count]
  | .pulled found linked _ refreshes =>
    have link := Graph.source?_eq_some_iff.mpr ⟨_, found, linked⟩
    have refreshed := refreshes.spares (by rw [graph_count]; exact beyond _ link)
    rw [graph_store, Graph.modifyInput, Graph.node?_modifyNode_of_ne (Ne.symm apart), refreshed,
      graph_count]

theorem ReadsEach.spares {depth : Nat} {id : NodeId} {ports : List PortId} {e e' : Engine}
    {values : PortId → Value} (h : ReadsEach locals depth id ports e values e') {other : NodeId}
    (apart : other ≠ id) (beyond : ∀ port ∈ ports, ∀ source,
      e.graph.source? ⟨id, port⟩ = some source → ¬ e.graph.Upstream other source.node) :
    e'.graph.node? other = e.graph.node? other := by
  match h with
  | .nil => rfl
  | .cons first others =>
    have frame := (first.respects pulled_relation).frame
    have read := first.spares apart (beyond _ List.mem_cons_self)
    refine (others.spares apart fun port member source link => ?_).trans read
    rw [Graph.upstream_congr frame]
    rw [Graph.source?_eq_of_frame_eq frame] at link
    exact beyond port (List.mem_cons_of_mem _ member) source link

theorem Refreshes.spares {depth : Nat} {id : NodeId} {e e' : Engine}
    (h : Refreshes locals depth id e e') {other : NodeId} (beyond : ¬ e.graph.Upstream other id) :
    e'.graph.node? other = e.graph.node? other := by
  match h with
  | .impure _ => rfl
  | .current _ _ _ => rfl
  | .cycle _ _ _ _ => rw [graph_count]; rfl
  | .computed found pure _ _ computes =>
    exact computes.spares (Graph.pureKind?_eq_some found pure) beyond

theorem Computes.spares {depth : Nat} {id : NodeId} {kind : PureKind} {e e' : Engine}
    (h : Computes locals depth id kind e e') (pure : e.graph.pureKind? id = some kind)
    {other : NodeId} (beyond : ¬ e.graph.Upstream other id) :
    e'.graph.node? other = e.graph.node? other := by
  have isPure : (e.graph.pureKind? id).isSome := by rw [pure, Option.isSome_some]
  have apart : other ≠ id := by
    rintro rfl
    exact beyond (Graph.upstream_self isPure)
  match h with
  | .operate reads =>
    have marked : (e.beginComputing id).graph.frame = e.graph.frame :=
      erase_beginComputing _ e id
    have read := reads.spares apart fun port _ source link => by
      rw [Graph.upstream_congr marked]
      rw [Graph.source?_eq_of_frame_eq marked] at link
      exact fun up => beyond (up.of_source link isPure)
    rw [graph_finishComputing, Graph.node?_modifyNode_of_ne (Ne.symm apart), read,
      beginComputing, graph_modifyNode, Graph.node?_modifyNode_of_ne (Ne.symm apart)]

end

end Pulls

/-- The node was computed in this epoch or is being computed. -/
def Begun (e : Engine) (id : NodeId) : Prop :=
  e.Current id ∨ e.graph.activity? id = some .computing

theorem Begun.mono (h : e.Begun id) (tally : Tally e e' id) (marks : KeepsMarks e e') :
    e'.Begun id := h.imp tally.mono marks.marked

theorem begun_store (e : Engine) (addr : InputAddr) (value : Value) (id : NodeId) :
    (e.store addr value).Begun id ↔ e.Begun id := by
  rw [Begun, current_store, (pulled_store e addr value).activity, Begun]

theorem begun_congr (epoch : e'.epoch = e.epoch) (graph : e'.graph = e.graph) :
    e'.Begun id ↔ e.Begun id := by
  rw [Begun, current_congr epoch (by rw [graph]), graph, Begun]

/-- What is current was not read past anything that is still to be computed: the pure source of a
current input, and of any input of a current node, was begun. -/
structure Closed (e : Engine) : Prop where
  wellFormed : e.graph.WellFormed
  nonneg : 0 ≤ e.epoch.number
  node : ∀ {addr : InputAddr} {source : OutputAddr}, e.graph.source? addr = some source →
    (e.graph.pureKind? source.node).isSome → e.Current addr.node → e.Begun source.node
  input : ∀ {addr : InputAddr} {input : Input} {source : OutputAddr},
    e.graph.input? addr = some input → input.source = some source →
    (e.graph.pureKind? source.node).isSome → e.epoch.isCurrent input.stamp = true →
    e.Begun source.node

namespace Closed

theorem of_fresh (wf : e.graph.WellFormed) (nonneg : 0 ≤ e.epoch.number) (fresh : e.Fresh) :
    e.Closed where
  wellFormed := wf
  nonneg := nonneg
  node _ _ current := absurd current (fresh.not_current _)
  input found _ _ current := absurd current (fresh.input_stale found)

/-- Where more is begun, only what has become current needs a look. -/
theorem advance (closed : e.Closed) (frame : e'.graph.frame = e.graph.frame)
    (epoch : e'.epoch = e.epoch) (begun : ∀ {id}, e.Begun id → e'.Begun id)
    (node : ∀ {addr source}, e.graph.source? addr = some source →
      (e.graph.pureKind? source.node).isSome → e'.Current addr.node →
      e.Current addr.node ∨ e'.Begun source.node)
    (input : ∀ {addr input source}, e'.graph.input? addr = some input →
      input.source = some source → (e.graph.pureKind? source.node).isSome →
      e.graph.input? addr = some input ∨ e'.Begun source.node) : e'.Closed where
  wellFormed := Graph.wellFormed_of_frame_eq frame.symm closed.wellFormed
  nonneg := epoch ▸ closed.nonneg
  node link pure current := by
    rw [Graph.source?_eq_of_frame_eq frame] at link
    rw [Graph.pureKind?_eq_of_frame_eq frame] at pure
    rcases node link pure current with current | done
    · exact begun (closed.node link pure current)
    · exact done
  input found linked pure current := by
    rw [Graph.pureKind?_eq_of_frame_eq frame] at pure
    rw [epoch] at current
    rcases input found linked pure with found | done
    · exact begun (closed.input found linked pure current)
    · exact done

theorem of_graph_eq (closed : e.Closed) (epoch : e'.epoch = e.epoch) (graph : e'.graph = e.graph) :
    e'.Closed := by
  have current (id : NodeId) : e'.Current id ↔ e.Current id := current_congr epoch (by rw [graph])
  exact closed.advance (by rw [graph]) epoch (begun_congr epoch graph).mpr
    (fun _ _ now => .inl ((current _).mp now)) (fun found _ _ => .inl (graph ▸ found))

/-- The value of an input is stored once the source of the input was begun. -/
theorem store (closed : e.Closed) {addr : InputAddr} (begun : ∀ source,
      e.graph.source? addr = some source → (e.graph.pureKind? source.node).isSome →
      e.Begun source.node) (value : Value) : (e.store addr value).Closed := by
  refine closed.advance (pulled_store e addr value).frame rfl (begun_store e addr value _).mpr
    (fun _ _ now => .inl ((current_store e addr value _).mp now)) ?_
  intro other input source found linked pure
  rw [input?_store] at found
  split at found
  case isTrue equal =>
    subst equal
    obtain ⟨before, found', rfl⟩ := Option.map_eq_some_iff.mp found
    have link := Graph.source?_eq_some_iff.mpr ⟨before, found', linked⟩
    exact .inr ((begun_store e addr value _).mpr (begun source link pure))
  case isFalse => exact .inl found

theorem beginComputing (closed : e.Closed) (id : NodeId) : (e.beginComputing id).Closed := by
  have marked : (e.beginComputing id).graph.frame = e.graph.frame :=
    erase_beginComputing _ e id
  have inputs (addr : InputAddr) : (e.beginComputing id).graph.input? addr =
      e.graph.input? addr := by
    apply Graph.input?_modifyNode
    intro node
    rfl
  refine closed.advance marked rfl (fun {other} begun => ?_)
    (fun _ _ now => .inl ((current_beginComputing e id _).mp now))
    (fun found _ _ => .inl (inputs _ ▸ found))
  rcases begun with current | computing
  · exact .inl ((current_beginComputing e id other).mpr current)
  · right
    rw [Engine.beginComputing, graph_modifyNode, Graph.activity?, Graph.node?_modifyNode]
    split
    · obtain ⟨node, found, _⟩ := Option.map_eq_some_iff.mp computing
      rw [found]
      rfl
    · exact computing

/-- A node becomes current once all its sources were begun. -/
theorem finishComputing (closed : e.Closed) {kind : PureKind}
    (pure : e.graph.pureKind? id = some kind)
    (begun : ∀ port source, e.graph.source? ⟨id, port⟩ = some source →
      (e.graph.pureKind? source.node).isSome → e.Begun source.node) (value : Value) :
    (e.finishComputing id value).Closed := by
  have more {other : NodeId} (h : e.Begun other) : (e.finishComputing id value).Begun other := by
    by_cases same : id = other
    · subst same
      exact .inl (current_finishComputing closed.nonneg pure)
    · refine h.imp (current_finishComputing_of_ne same).mpr fun computing => ?_
      rwa [graph_finishComputing, Graph.activity?, Graph.node?_modifyNode_of_ne same]
  refine closed.advance (Graph.frame_eq (skeleton_finishComputing pure value))
    (epoch_finishComputing e id value) more ?_ ?_
  · intro addr source link isPure now
    by_cases same : id = addr.node
    · subst same
      exact .inr (more (begun addr.port source link isPure))
    · exact .inl ((current_finishComputing_of_ne same).mp now)
  · intro addr input source found _ _
    exact .inl (input?_finishComputing e id value addr ▸ found)

end Closed

section Pulls

variable {locals : Locals}

mutual

/-- A read leaves its pure source begun. -/
theorem Reads.closed {depth : Nat} {addr : InputAddr} {e e' : Engine} {value : Value}
    (h : Reads locals depth addr e value e') (closed : e.Closed) :
    e'.Closed ∧ ∀ source, e.graph.source? addr = some source →
      (e.graph.pureKind? source.node).isSome → e'.Begun source.node := by
  match h with
  | .absent missing =>
    refine ⟨closed, fun source link => ?_⟩
    simp [Graph.source?, missing] at link
  | .unlinked found linked =>
    refine ⟨closed, fun source link => ?_⟩
    simp [Graph.source?, found, linked] at link
  | .cached found linked current =>
    refine ⟨closed.of_graph_eq (epoch_count _ _) (graph_count _ _), fun source link pure => ?_⟩
    obtain ⟨input, found', linked'⟩ := Graph.source?_eq_some_iff.mp link
    obtain rfl := Option.some.inj (found.symm.trans found')
    rw [begun_congr (epoch_count _ _) (graph_count _ _)]
    exact closed.input found linked' pure current
  | @Reads.pulled _ _ _ _ e' _ source found linked _ refreshes =>
    have counted := closed.of_graph_eq (epoch_count e Statistics.miss) (graph_count _ _)
    obtain ⟨after, begun⟩ := refreshes.closed counted
    have pulled := refreshes.respects pulled_relation
    have link : e'.graph.source? addr = some source := by
      rw [Graph.source?_eq_of_frame_eq pulled.frame, graph_count]
      exact Graph.source?_eq_some_iff.mpr ⟨_, found, linked⟩
    have reached : ∀ other, e'.graph.source? addr = some other →
        (e'.graph.pureKind? other.node).isSome → e'.Begun other.node := by
      intro other link' pure
      obtain rfl := Option.some.inj (link.symm.trans link')
      exact begun (by rwa [← pulled.pureKind?])
    refine ⟨after.store reached _, fun other link' pure => ?_⟩
    rw [begun_store]
    apply reached other
    · rwa [Graph.source?_eq_of_frame_eq pulled.frame, graph_count]
    · rwa [pulled.pureKind?, graph_count]

theorem ReadsEach.closed {depth : Nat} {id : NodeId} {ports : List PortId} {e e' : Engine}
    {values : PortId → Value} (h : ReadsEach locals depth id ports e values e')
    (closed : e.Closed) : e'.Closed ∧ ∀ port ∈ ports, ∀ source,
      e.graph.source? ⟨id, port⟩ = some source → (e.graph.pureKind? source.node).isSome →
      e'.Begun source.node := by
  match h with
  | .nil => exact ⟨closed, fun _ member => absurd member List.not_mem_nil⟩
  | .cons first others =>
    obtain ⟨between, begun⟩ := first.closed closed
    obtain ⟨after, begun'⟩ := others.closed between
    have pulled := first.respects pulled_relation
    refine ⟨after, fun port member source link pure => ?_⟩
    rcases List.mem_cons.mp member with rfl | member
    · exact (begun source link pure).mono (others.tally between.nonneg _)
        (others.respects keepsMarks_relation)
    · apply begun' port member source
      · rwa [Graph.source?_eq_of_frame_eq pulled.frame]
      · rwa [pulled.pureKind?]

theorem Refreshes.closed {depth : Nat} {id : NodeId} {e e' : Engine}
    (h : Refreshes locals depth id e e') (closed : e.Closed) :
    e'.Closed ∧ ((e.graph.pureKind? id).isSome → e'.Begun id) := by
  match h with
  | .impure impure => exact ⟨closed, fun pure => by simp [impure] at pure⟩
  | .current found _ current => exact ⟨closed, fun _ => .inl ⟨_, found, current⟩⟩
  | .cycle found _ _ busy =>
    refine ⟨closed.of_graph_eq (epoch_count _ _) (graph_count _ _), fun _ => .inr ?_⟩
    rw [graph_count]
    show e.graph.activity? id = some .computing
    rw [Graph.activity?, found, Option.map_some, busy]
  | .computed found pure _ _ computes =>
    obtain ⟨after, current⟩ := computes.closed (Graph.pureKind?_eq_some found pure) closed
    exact ⟨after, fun _ => .inl current⟩

theorem Computes.closed {depth : Nat} {id : NodeId} {kind : PureKind} {e e' : Engine}
    (h : Computes locals depth id kind e e') (pure : e.graph.pureKind? id = some kind)
    (closed : e.Closed) : e'.Closed ∧ e'.Current id := by
  match h with
  | @Computes.operate _ _ _ _ _ e' _ reads =>
    obtain ⟨after, begun⟩ := reads.closed (closed.beginComputing id)
    have pulled := reads.respects pulled_relation
    have marked : (e.beginComputing id).graph.frame = e.graph.frame :=
      erase_beginComputing _ e id
    have pure' : e'.graph.pureKind? id = some kind := by
      rw [pulled.pureKind?, Graph.pureKind?_eq_of_frame_eq marked, pure]
    refine ⟨after.finishComputing pure' (fun port source link above => ?_) _,
      current_finishComputing after.nonneg pure'⟩
    obtain ⟨input, found, _⟩ := Graph.source?_eq_some_iff.mp link
    apply begun port (after.wellFormed.mem_operands pure' found) source
    · rwa [← Graph.source?_eq_of_frame_eq pulled.frame]
    · rwa [← pulled.pureKind?]

end

/-- Where nothing is current or being computed, the nodes that are current after a computation are
those that lie upstream. -/
theorem Computes.current_iff {depth : Nat} {kind : PureKind}
    (h : Computes locals depth id kind e e') (pure : e.graph.pureKind? id = some kind)
    (wf : e.graph.WellFormed) (quiet : e.graph.Quiet) (nonneg : 0 ≤ e.epoch.number)
    (fresh : e.Fresh) (other : NodeId) : e'.Current other ↔ e.graph.Upstream other id := by
  obtain ⟨closed, current⟩ := h.closed pure (.of_fresh wf nonneg fresh)
  have pulled : Pulled e e' := by
    obtain ⟨node, found, isPure⟩ := Graph.pureKind?_eq_some_iff.mp pure
    have computed := pulled_relation.computeWithin locals depth found
      isPure (quiet.idle found)
    rwa [h.compute_eq (Nat.le_refl depth)] at computed
  constructor
  · intro now
    by_contra beyond
    obtain ⟨node, found, stamp⟩ := now
    rw [h.spares pure beyond] at found
    rw [pulled.epoch] at stamp
    exact fresh.node_stale found stamp
  · intro up
    -- The path is followed from the node that was pulled back to the other.
    refine Relation.ReflTransGen.head_induction_on up.2 current ?_
    intro a b fed _ now
    obtain ⟨above, below, port, input, source, found, linked, rfl⟩ := Graph.feeds_iff.mp fed
    have link : e'.graph.source? ⟨b, port⟩ = some source := by
      rw [Graph.source?_eq_of_frame_eq pulled.frame]
      exact Graph.source?_eq_some_iff.mpr ⟨input, found, linked⟩
    rcases closed.node link (by rwa [pulled.pureKind?]) now with current | computing
    · exact current
    · rw [pulled.activity] at computing
      exact absurd computing (quiet source.node)

/-- Where nothing is current, a computation runs each node that lies upstream once, and no other. -/
theorem Computes.evaluations {depth : Nat} {kind : PureKind}
    (h : Computes locals depth id kind e e') (pure : e.graph.pureKind? id = some kind)
    (wf : e.graph.WellFormed) (quiet : e.graph.Quiet) (nonneg : 0 ≤ e.epoch.number)
    (fresh : e.Fresh) (other : NodeId) :
    (e.graph.Upstream other id →
        e'.graph.evaluations other = e.graph.evaluations other + 1) ∧
      (¬ e.graph.Upstream other id →
        e'.graph.evaluations other = e.graph.evaluations other) := by
  rw [← h.current_iff pure wf quiet nonneg fresh other]
  rcases h.tally nonneg pure (fresh.not_current id) other with ⟨same, count⟩ | ⟨_, now, count⟩
  · exact ⟨fun now => absurd (same.mp now) (fresh.not_current other), fun _ => count⟩
  · exact ⟨fun _ => count, fun never => absurd now never⟩

end Pulls

end Engine

end NodeGraph
