import NodeGraph.Proofs.Engine.Consistency
import NodeGraph.Proofs.Engine.Nesting

/-!
# Cycles that a pull flags

A pull that comes back to a node being computed flags it: in the journal, and in the statistics
where they are collected (`Engine.Flags`). Every node that is being computed lies downstream of what
is read for it, so a node that is flagged lies on a cycle (`Engine.Refreshes.flags`). And where
nothing was flagged, all that has become current is grounded (`Engine.Refreshes.rooted`), so a pull
that starts with nothing current misses no cycle.
-/

namespace NodeGraph

/-- The node that a pull came back to, if the entry reports one. -/
def Event.flagged? : Event → Option NodeId
  | .pullCycle node _ => some node
  | _ => none

namespace Engine

variable {e e' e'' : Engine} {ids others : List NodeId}

/-- The nodes that the journal reports pulls to have come back to, the first one first. -/
def flagged (e : Engine) : List NodeId := e.journal.toList.filterMap Event.flagged?

/-- From one engine to the other these nodes were flagged, in this order. Each is in the journal,
and each is counted if statistics are collected. -/
structure Flags (e e' : Engine) (ids : List NodeId) : Prop where
  config : e'.config = e.config
  flagged : e'.flagged = e.flagged ++ ids
  cycles : e'.statistics.cycles =
    e.statistics.cycles + if e.config.collectStatistics then ids.length else 0

theorem Flags.of_same (config : e'.config = e.config) (flagged : e'.flagged = e.flagged)
    (cycles : e'.statistics.cycles = e.statistics.cycles) : Flags e e' [] := by
  refine ⟨config, ?_, ?_⟩
  · rw [flagged, List.append_nil]
  · rw [cycles, List.length_nil, ite_self, Nat.add_zero]

theorem Flags.refl (e : Engine) : Flags e e [] := .of_same rfl rfl rfl

theorem Flags.trans (h : Flags e e' ids) (h' : Flags e' e'' others) :
    Flags e e'' (ids ++ others) := by
  refine ⟨h'.config.trans h.config, ?_, ?_⟩
  · rw [h'.flagged, h.flagged, List.append_assoc]
  · rw [h'.cycles, h.cycles, h.config, List.length_append]
    split <;> omega

/-- Other counts do not matter. -/
theorem flags_count (e : Engine) (update : Statistics → Statistics)
    (same : ∀ s, (update s).cycles = s.cycles) : Flags e (e.count update) [] := by
  unfold count
  split
  · exact .of_same rfl rfl (same e.statistics)
  · exact .refl e

/-- A pull comes back to a node. -/
theorem flags_cycle (e : Engine) (id : NodeId) (title : String) :
    Flags e ((e.log (.pullCycle id title)).count Statistics.cycle) [id] := by
  have logged : (e.log (.pullCycle id title)).flagged = e.flagged ++ [id] := by
    simp [Engine.flagged, log, Event.flagged?]
  have collects : (e.log (.pullCycle id title)).config.collectStatistics =
      e.config.collectStatistics := rfl
  unfold count
  rw [collects]
  split
  next on =>
    refine ⟨rfl, logged, ?_⟩
    rw [if_pos on]
    rfl
  next off =>
    refine ⟨rfl, logged, ?_⟩
    rw [if_neg off]
    rfl

theorem flags_modifyNode (e : Engine) (id : NodeId) (f : Node → Node) :
    Flags e (e.modifyNode id f) [] := .of_same rfl rfl rfl

theorem flags_finishComputing (e : Engine) (id : NodeId) (value : Value) :
    Flags e (e.finishComputing id value) [] :=
  (flags_modifyNode e id _).trans (flags_count _ Statistics.evaluation fun _ => rfl)

/-- From one engine to the other only such nodes were flagged. -/
def FlagsOnly (P : NodeId → Prop) (e e' : Engine) : Prop :=
  ∃ ids, Flags e e' ids ∧ ∀ id ∈ ids, P id

namespace FlagsOnly

variable {P Q : NodeId → Prop}

theorem of_silent (flags : Flags e e' []) : FlagsOnly P e e' :=
  ⟨[], flags, fun _ member => absurd member List.not_mem_nil⟩

theorem trans (h : FlagsOnly P e e') (h' : FlagsOnly P e' e'') : FlagsOnly P e e'' := by
  obtain ⟨ids, flags, only⟩ := h
  obtain ⟨others, flags', only'⟩ := h'
  refine ⟨ids ++ others, flags.trans flags', fun id member => ?_⟩
  rcases List.mem_append.mp member with member | member
  · exact only id member
  · exact only' id member

theorem mono (h : FlagsOnly P e e') (weaker : ∀ id, P id → Q id) : FlagsOnly Q e e' := by
  obtain ⟨ids, flags, only⟩ := h
  exact ⟨ids, flags, fun id member => weaker id (only id member)⟩

end FlagsOnly

section Sound

variable {g : Graph} {root : NodeId}

/-- A node is brought up to date because the root is: it leads to the root, and every node that is
being computed lies downstream of it. -/
structure Sought (g : Graph) (root : NodeId) (e : Engine) (id : NodeId) : Prop where
  toward : Relation.ReflTransGen (fun a b => g.feeds a b = true) id root
  ahead : ∀ m, e.graph.activity? m = some .computing →
    Relation.TransGen (fun a b => g.feeds a b = true) id m

theorem Sought.pulled {id : NodeId} (sought : Sought g root e id) (pulled : Pulled e e') :
    Sought g root e' id where
  toward := sought.toward
  ahead m computing := by
    rw [pulled.activity] at computing
    exact sought.ahead m computing

/-- What feeds the node that is marked lies upstream of it and of the nodes that were marked. -/
theorem Sought.beginComputing {id a : NodeId} (sought : Sought g root e id)
    (fed : g.feeds a id = true) : Sought g root (e.beginComputing id) a where
  toward := sought.toward.head fed
  ahead m computing := by
    by_cases same : id = m
    · subst same
      exact .single fed
    · rw [Engine.beginComputing, graph_modifyNode, Graph.activity?,
        Graph.node?_modifyNode_of_ne same] at computing
      exact .head fed (sought.ahead m computing)

theorem sought_self (quiet : e.graph.Quiet) (id : NodeId) : Sought g id e id where
  toward := .refl
  ahead m busy := absurd busy (quiet m)

/-- A pull that comes back to a node which is being computed has followed a cycle. -/
theorem Sought.cycleAbove {id : NodeId} (sought : Sought g root e id)
    (busy : e.graph.activity? id = some .computing) : g.CycleAbove root id := by
  have cyclic : g.Cyclic id := sought.ahead id busy
  exact ⟨⟨cyclic.isSome_pureKind?, sought.toward⟩, cyclic⟩

variable {locals : Locals}

mutual

/-- A read flags nodes of cycles only. -/
theorem Reads.flags {depth : Nat} {addr : InputAddr} {e e' : Engine} {value : Value}
    (h : Reads locals depth addr e value e') (frame : e.graph.frame = g.frame)
    (sought : ∀ source, g.source? addr = some source → (g.pureKind? source.node).isSome →
      Sought g root e source.node) : FlagsOnly (g.CycleAbove root) e e' := by
  match h with
  | .absent _ => exact .of_silent (.refl e)
  | .unlinked _ _ => exact .of_silent (.refl e)
  | .cached _ _ _ => exact .of_silent (flags_count e Statistics.hit fun _ => rfl)
  | @Reads.pulled _ _ _ _ _ input source found linked _ refreshes =>
    have link : g.source? addr = some source := by
      rw [← Graph.source?_eq_of_frame_eq frame]
      exact Graph.source?_eq_some_iff.mpr ⟨input, found, linked⟩
    have missed : FlagsOnly (g.CycleAbove root) e (e.count Statistics.miss) :=
      .of_silent (flags_count e Statistics.miss fun _ => rfl)
    have counted : Pulled e (e.count Statistics.miss) :=
      .of_graph_eq (still_count e _) (graph_count e _)
    exact (missed.trans (refreshes.flags (counted.frame.trans frame) fun pure =>
      (sought source link pure).pulled counted)).trans
        (.of_silent (flags_modifyNode _ addr.node _))

theorem ReadsEach.flags {depth : Nat} {id : NodeId} {ports : List PortId} {e e' : Engine}
    {values : PortId → Value} (h : ReadsEach locals depth id ports e values e')
    (frame : e.graph.frame = g.frame)
    (sought : ∀ port source, g.source? ⟨id, port⟩ = some source →
      (g.pureKind? source.node).isSome → Sought g root e source.node) :
    FlagsOnly (g.CycleAbove root) e e' := by
  match h with
  | .nil => exact .of_silent (.refl e)
  | .cons first others =>
    have pulled := first.respects pulled_relation
    exact (first.flags frame (sought _)).trans (others.flags (pulled.frame.trans frame)
      fun port source link pure => (sought port source link pure).pulled pulled)

theorem Refreshes.flags {depth : Nat} {id : NodeId} {e e' : Engine}
    (h : Refreshes locals depth id e e') (frame : e.graph.frame = g.frame)
    (sought : (g.pureKind? id).isSome → Sought g root e id) :
    FlagsOnly (g.CycleAbove root) e e' := by
  match h with
  | .impure _ => exact .of_silent (.refl e)
  | .current _ _ _ => exact .of_silent (.refl e)
  | .cycle found pure _ busy =>
    refine ⟨[id], flags_cycle e id _, fun other member => ?_⟩
    obtain rfl := List.mem_singleton.mp member
    have isPure := Graph.pureKind?_eq_some found pure
    rw [Graph.pureKind?_eq_of_frame_eq frame] at isPure
    refine (sought (by rw [isPure, Option.isSome_some])).cycleAbove ?_
    rw [Graph.activity?, found, Option.map_some, busy]
  | .computed found pure _ _ computes =>
    have isPure := Graph.pureKind?_eq_some found pure
    rw [Graph.pureKind?_eq_of_frame_eq frame] at isPure
    exact computes.flags frame isPure (sought (by rw [isPure, Option.isSome_some]))

/-- A node that is being computed lies sought of what it needs. -/
theorem Computes.flags {depth : Nat} {id : NodeId} {kind : PureKind} {e e' : Engine}
    (h : Computes locals depth id kind e e') (frame : e.graph.frame = g.frame)
    (pure : g.pureKind? id = some kind) (sought : Sought g root e id) :
    FlagsOnly (g.CycleAbove root) e e' := by
  match h with
  | .operate reads =>
    have marked : (e.beginComputing id).graph.frame = e.graph.frame :=
      erase_beginComputing _ e id
    have begun : FlagsOnly (g.CycleAbove root) e (e.beginComputing id) :=
      .of_silent (flags_modifyNode e id _)
    refine (begun.trans (reads.flags (marked.trans frame) fun port source link above => ?_)).trans
      (.of_silent (flags_finishComputing _ id _))
    obtain ⟨kind', above⟩ := Option.isSome_iff_exists.mp above
    exact sought.beginComputing (Graph.feeds_of_source link above pure)

end

end Sound

/-- What is current has no cycle upstream: neither a node that was computed, nor the source of an
input that was read. -/
structure Rooted (g : Graph) (e : Engine) : Prop where
  frame : e.graph.frame = g.frame
  node : ∀ {id}, e.Current id → g.Grounded id
  input : ∀ {addr input source}, e.graph.input? addr = some input → input.source = some source →
    e.epoch.isCurrent input.stamp = true → g.Grounded source.node

section Complete

variable {g : Graph}

theorem rooted_of_fresh (frame : e.graph.frame = g.frame) (fresh : e.Fresh) : Rooted g e where
  frame := frame
  node current := absurd current (fresh.not_current _)
  input found _ current := absurd current (fresh.input_stale found)

namespace Rooted

variable (rooted : Rooted g e)

include rooted

theorem of_graph_eq (epoch : e'.epoch = e.epoch) (graph : e'.graph = e.graph) : Rooted g e' where
  frame := by rw [graph, rooted.frame]
  node current := rooted.node ((current_congr epoch (by rw [graph])).mp current)
  input := by
    rw [graph, epoch]
    exact rooted.input

theorem store {addr : InputAddr} (grounded : ∀ source, g.source? addr = some source →
      g.Grounded source.node) (value : Value) : Rooted g (e.store addr value) where
  frame := (pulled_store e addr value).frame.trans rooted.frame
  node current := rooted.node ((current_store e addr value _).mp current)
  input {other input source} found linked current := by
    by_cases same : addr = other
    · subst same
      refine grounded source ?_
      rw [← Graph.source?_eq_of_frame_eq rooted.frame,
        ← Graph.source?_eq_of_frame_eq (pulled_store e addr value).frame]
      exact Graph.source?_eq_some_iff.mpr ⟨input, found, linked⟩
    · rw [input?_store, if_neg same] at found
      exact rooted.input found linked current

theorem beginComputing (id : NodeId) : Rooted g (e.beginComputing id) where
  frame := by
    have marked : (e.beginComputing id).graph.frame = e.graph.frame :=
      erase_beginComputing _ e id
    exact marked.trans rooted.frame
  node current := rooted.node ((current_beginComputing e id _).mp current)
  input {addr input source} found linked current := by
    have same : (e.beginComputing id).graph.input? addr = e.graph.input? addr := by
      apply Graph.input?_modifyNode
      intro node
      rfl
    exact rooted.input (same ▸ found) linked current

theorem finishComputing {id : NodeId} {kind : PureKind} (pure : g.pureKind? id = some kind)
    (grounded : g.Grounded id) (value : Value) : Rooted g (e.finishComputing id value) where
  frame := by
    have pure' := (Graph.pureKind?_eq_of_frame_eq rooted.frame id).trans pure
    exact (Graph.frame_eq (skeleton_finishComputing pure' value)).trans rooted.frame
  node {other} current := by
    by_cases same : id = other
    · exact same ▸ grounded
    · exact rooted.node ((current_finishComputing_of_ne same).mp current)
  input found linked current := by
    rw [input?_finishComputing] at found
    rw [epoch_finishComputing] at current
    exact rooted.input found linked current

end Rooted

@[simp]
theorem flagged_count (e : Engine) (update : Statistics → Statistics) :
    (e.count update).flagged = e.flagged := by
  unfold count
  split <;> rfl

@[simp]
theorem flagged_finishComputing (e : Engine) (id : NodeId) (value : Value) :
    (e.finishComputing id value).flagged = e.flagged := flagged_count _ _

/-- What is flagged stays in the journal. -/
theorem flagged_relation : PullRelation fun e e' => e.flagged <+: e'.flagged where
  refl _ := List.prefix_refl _
  trans := List.IsPrefix.trans
  hit e := by rw [flagged_count]
  miss e := by rw [flagged_count]
  cycle e id title := by
    rw [flagged_count]
    simp [Engine.flagged, log]
  store _ _ _ := List.prefix_refl _
  compute {e e' id node kind} value _ _ _ during := by
    rwa [flagged_finishComputing]

/-- What comes between two engines of which the later one has nothing new flagged. -/
theorem silent_split (first : e.flagged <+: e'.flagged) (second : e'.flagged <+: e''.flagged)
    (silent : e''.flagged = e.flagged) : e'.flagged = e.flagged ∧ e''.flagged = e'.flagged := by
  rw [silent] at second
  have same := second.eq_of_length_le first.length_le
  exact ⟨same, silent.trans same.symm⟩

variable {locals : Locals}

mutual

/-- A read that flags nothing leaves what it reads from without a cycle. -/
theorem Reads.rooted {depth : Nat} {addr : InputAddr} {e e' : Engine} {value : Value}
    (h : Reads locals depth addr e value e') (wf : g.WellFormed) (rooted : Rooted g e)
    (silent : e'.flagged = e.flagged) :
    Rooted g e' ∧ ∀ source, g.source? addr = some source → g.Grounded source.node := by
  have place : g.source? addr = e.graph.source? addr :=
    Graph.source?_eq_of_frame_eq rooted.frame.symm addr
  match h with
  | .absent missing =>
    refine ⟨rooted, fun source link => ?_⟩
    obtain ⟨input, found, _⟩ := Graph.source?_eq_some_iff.mp (place ▸ link)
    simp [missing] at found
  | .unlinked found unlinked =>
    refine ⟨rooted, fun source link => ?_⟩
    obtain ⟨input, found', linked⟩ := Graph.source?_eq_some_iff.mp (place ▸ link)
    obtain rfl := Option.some.inj (found.symm.trans found')
    simp [unlinked] at linked
  | .cached found linked current =>
    refine ⟨rooted.of_graph_eq (epoch_count _ _) (graph_count _ _), fun source link => ?_⟩
    obtain ⟨input, found', linked'⟩ := Graph.source?_eq_some_iff.mp (place ▸ link)
    obtain rfl := Option.some.inj (found.symm.trans found')
    exact rooted.input found linked' current
  | @Reads.pulled _ _ _ _ _ input origin found linked _ refreshes =>
    have counted := rooted.of_graph_eq (epoch_count e Statistics.miss) (graph_count e _)
    obtain ⟨rooted', grounded⟩ := refreshes.rooted wf counted (by rw [flagged_count]; exact silent)
    have every : ∀ source, g.source? addr = some source → g.Grounded source.node := by
      intro source link
      rw [place, Graph.source?_eq_some_iff.mpr ⟨input, found, linked⟩] at link
      exact Option.some.inj link ▸ grounded
    exact ⟨rooted'.store every _, every⟩

theorem ReadsEach.rooted {depth : Nat} {id : NodeId} {ports : List PortId} {e e' : Engine}
    {values : PortId → Value} (h : ReadsEach locals depth id ports e values e') (wf : g.WellFormed)
    (rooted : Rooted g e) (silent : e'.flagged = e.flagged) :
    Rooted g e' ∧ ∀ port ∈ ports, ∀ source, g.source? ⟨id, port⟩ = some source →
      g.Grounded source.node := by
  match h with
  | .nil => exact ⟨rooted, fun port member => absurd member List.not_mem_nil⟩
  | .cons first others =>
    obtain ⟨silent', silent''⟩ := silent_split (first.respects flagged_relation)
      (others.respects flagged_relation) silent
    obtain ⟨rooted', here⟩ := first.rooted wf rooted silent'
    obtain ⟨rooted'', rest⟩ := others.rooted wf rooted' silent''
    refine ⟨rooted'', fun port member => ?_⟩
    rcases List.mem_cons.mp member with rfl | member
    · exact here
    · exact rest port member

theorem Refreshes.rooted {depth : Nat} {id : NodeId} {e e' : Engine}
    (h : Refreshes locals depth id e e') (wf : g.WellFormed) (rooted : Rooted g e)
    (silent : e'.flagged = e.flagged) : Rooted g e' ∧ g.Grounded id := by
  have kind? : g.pureKind? id = e.graph.pureKind? id :=
    Graph.pureKind?_eq_of_frame_eq rooted.frame.symm id
  match h with
  | .impure impure => exact ⟨rooted, Graph.grounded_of_impure (kind?.trans impure)⟩
  | .current found pure current => exact ⟨rooted, rooted.node ⟨_, found, current⟩⟩
  | .cycle _ _ _ _ =>
    have longer := congrArg List.length silent
    rw [(flags_cycle e id _).flagged, List.length_append, List.length_singleton] at longer
    omega
  | .computed found pure _ _ computes =>
    exact computes.rooted wf (kind?.trans (Graph.pureKind?_eq_some found pure)) rooted silent

/-- All that feeds a node is read when it is computed, so no cycle leads to it either. -/
theorem Computes.rooted {depth : Nat} {id : NodeId} {kind : PureKind} {e e' : Engine}
    (h : Computes locals depth id kind e e') (wf : g.WellFormed)
    (pure : g.pureKind? id = some kind) (rooted : Rooted g e)
    (silent : e'.flagged = e.flagged) : Rooted g e' ∧ g.Grounded id := by
  match h with
  | @Computes.operate _ _ _ _ _ e₁ _ reads =>
    have quiet : e₁.flagged = (e.beginComputing id).flagged := by
      rwa [flagged_finishComputing] at silent
    obtain ⟨rooted', operands⟩ := reads.rooted wf (rooted.beginComputing id) quiet
    have grounded : g.Grounded id := by
      refine Graph.grounded_of_feeders fun a fed => ?_
      obtain ⟨_, _, port, input, source, found, linked, rfl⟩ := Graph.feeds_iff.mp fed
      exact operands port (wf.mem_operands pure found) source
        (Graph.source?_eq_some_iff.mpr ⟨input, found, linked⟩)
    exact ⟨rooted'.finishComputing pure grounded _, grounded⟩

end

/-- A pure node is computed while nothing is current and nothing is being computed: it flags a node
exactly if there is a cycle above it. -/
theorem Computes.flags_iff {depth : Nat} {id : NodeId} {kind : PureKind} {e e' : Engine}
    (h : Computes locals depth id kind e e') (wf : e.graph.WellFormed) (quiet : e.graph.Quiet)
    (fresh : e.Fresh) (pure : e.graph.pureKind? id = some kind) :
    ∃ ids, Flags e e' ids ∧ (ids ≠ [] ↔ ∃ a, e.graph.CycleAbove id a) := by
  obtain ⟨ids, flags, above⟩ := h.flags rfl pure (sought_self quiet id)
  refine ⟨ids, flags, fun some => ?_, fun cycle none => ?_⟩
  · obtain ⟨a, member⟩ := List.exists_mem_of_ne_nil ids some
    exact ⟨a, above a member⟩
  · subst none
    have silent : e'.flagged = e.flagged := by rw [flags.flagged, List.append_nil]
    have grounded := (h.rooted wf pure (rooted_of_fresh rfl fresh) silent).2
    exact Graph.not_grounded_iff.mpr cycle grounded

end Complete

section Quiet

variable {g : Graph} {locals : Locals} {depth : Nat}

/-- Where nothing is being computed, only nodes of cycles are flagged. -/
theorem Refreshes.flags_cyclic {id : NodeId} (h : Refreshes locals depth id e e')
    (frame : e.graph.frame = g.frame) (quiet : e.graph.Quiet) : FlagsOnly g.Cyclic e e' := by
  have above : FlagsOnly (g.CycleAbove id) e e' := h.flags frame fun _ => sought_self quiet id
  exact above.mono fun _ above => above.2

theorem Reads.flags_cyclic {addr : InputAddr} {value : Value}
    (h : Reads locals depth addr e value e') (frame : e.graph.frame = g.frame)
    (quiet : e.graph.Quiet) : FlagsOnly g.Cyclic e e' := by
  obtain ⟨root, sought⟩ : ∃ root, ∀ source, g.source? addr = some source →
      (g.pureKind? source.node).isSome → Sought g root e source.node := by
    cases link : g.source? addr with
    | none => exact ⟨addr.node, fun source there => nomatch there⟩
    | some source =>
      refine ⟨source.node, fun other there _ => ?_⟩
      obtain rfl := Option.some.inj there
      exact sought_self quiet source.node
  exact (h.flags frame sought).mono fun _ above => above.2

theorem ReadsEach.flags_cyclic {id : NodeId} {ports : List PortId} {values : PortId → Value}
    (h : ReadsEach locals depth id ports e values e') (frame : e.graph.frame = g.frame)
    (quiet : e.graph.Quiet) : FlagsOnly g.Cyclic e e' := by
  induction ports generalizing e values with
  | nil =>
    cases h
    exact .of_silent (.refl _)
  | cons port rest ih =>
    cases h with
    | cons first others =>
      have pulled := first.respects pulled_relation
      exact (first.flags_cyclic frame quiet).trans
        (ih others (pulled.frame.trans frame) (quiet.of_activity? pulled.activity))

end Quiet

section Silent

variable (e : Engine)

theorem flags_log (event : Event) (quiet : event.flagged? = none) : Flags e (e.log event) [] := by
  refine .of_same rfl ?_ rfl
  simp [Engine.flagged, log, quiet]

theorem flags_invalidate : Flags e e.invalidate [] := by
  have cleared : Flags e { e with graph := e.graph.invalidate, serves := none } [] :=
    .of_same rfl rfl rfl
  have counted := cleared.trans (flags_count _ Statistics.invalidation fun _ => rfl)
  exact counted.trans (flags_log _ _ rfl)

theorem flags_openEpoch : Flags e e.openEpoch [] := by
  unfold openEpoch
  generalize e.epoch.advance e.lastEpoch = advanced
  obtain ⟨kind, epoch⟩ := advanced
  cases kind with
  | stepped => exact .of_same rfl rfl rfl
  | wrapped =>
    have moved : Flags e { e with epoch } [] := .of_same rfl rfl rfl
    have logged := moved.trans (flags_log _ .epochWrapped rfl)
    have counted := logged.trans (flags_count _ Statistics.wrap fun _ => rfl)
    exact counted.trans (flags_invalidate _)

theorem flags_serve (context : Nat) : Flags e (e.serve context) [] := by
  unfold serve
  split
  · exact .of_same rfl rfl rfl
  · split
    · exact .refl e
    · have logged := flags_log e (.contextChanged e.epoch.number) rfl
      have opened := logged.trans (flags_openEpoch _)
      exact ⟨opened.config, opened.flagged, opened.cycles⟩

end Silent

end Engine

end NodeGraph
