import NodeGraph.Proofs.Engine.Pull
import NodeGraph.Proofs.Engine.Stamps
import NodeGraph.Proofs.Graph.Naive

/-!
# Pulls in lockstep

How a pull goes on depends on the wiring, on what is current and on what is being computed, and not
on any value. So two pulls from engines that agree in this go on alike, and a relation between the
engines that every act of a pull keeps holds at the end (`PullPair.read`).

Where the pure nodes form no cycle, a pull never comes back to a node being computed, so a node is
current when its output is taken. A relation may rely on this (`strict`).
-/

namespace NodeGraph

/-- Reads inputs of a node in order; gives the value at each port. -/
def readAll {σ : Type} (read : InputAddr → σ → Value × σ) (id : NodeId) :
    List PortId → σ → (PortId → Value) × σ
  | [], s => (fun _ => .empty, s)
  | port :: rest, s =>
    let (value, s) := read ⟨id, port⟩ s
    let (values, s) := readAll read id rest s
    (fun other => if other = port then value else values other, s)

/-- Reads that go on alike one by one do so together. -/
theorem readAll_pair {σ τ : Type} {R : σ → τ → Prop} {Reads : PortId → Value → Value → Prop}
    {read : InputAddr → σ → Value × σ} {read' : InputAddr → τ → Value × τ} {id : NodeId} :
    ∀ (ports : List PortId), (∀ port ∈ ports, ∀ {s t}, R s t →
        Reads port (read ⟨id, port⟩ s).1 (read' ⟨id, port⟩ t).1 ∧
          R (read ⟨id, port⟩ s).2 (read' ⟨id, port⟩ t).2) →
      ∀ {s t}, R s t →
        (∀ port ∈ ports,
          Reads port ((readAll read id ports s).1 port) ((readAll read' id ports t).1 port)) ∧
        R (readAll read id ports s).2 (readAll read' id ports t).2 := by
  intro ports
  induction ports with
  | nil =>
    intro _ s t related
    exact ⟨fun _ member => absurd member List.not_mem_nil, related⟩
  | cons port rest ih =>
    intro step s t related
    rcases step port List.mem_cons_self related with ⟨value, related⟩
    obtain ⟨values, related⟩ := ih
      (fun other member => step other (List.mem_cons_of_mem port member)) related
    refine ⟨?_, related⟩
    intro other member
    by_cases same : other = port
    · subst same
      simpa [readAll] using value
    · have member : other ∈ rest := (List.mem_cons.mp member).resolve_left same
      simpa [readAll, same] using values other member

/-- What every read keeps and gives, all of them together do. -/
theorem readAll_keeps {σ : Type} {I : σ → Prop} (Reads : PortId → Value → Prop)
    {read : InputAddr → σ → Value × σ} {id : NodeId} (ports : List PortId)
    (step : ∀ port ∈ ports, ∀ {s}, I s →
      Reads port (read ⟨id, port⟩ s).1 ∧ I (read ⟨id, port⟩ s).2) {s : σ} (h : I s) :
    (∀ port ∈ ports, Reads port ((readAll read id ports s).1 port)) ∧
      I (readAll read id ports s).2 := by
  have both : ∀ port ∈ ports, ∀ {s t}, (s = t ∧ I s) →
      Reads port (read ⟨id, port⟩ s).1 ∧
        ((read ⟨id, port⟩ s).2 = (read ⟨id, port⟩ t).2 ∧ I (read ⟨id, port⟩ s).2) := by
    rintro port member s t ⟨rfl, h⟩
    rcases step port member h with ⟨value, kept⟩
    exact ⟨value, rfl, kept⟩
  obtain ⟨values, _, kept⟩ := @readAll_pair _ _ _ (fun port value _ => Reads port value) _ _ id
    ports both _ _ ⟨rfl, h⟩
  exact ⟨values, kept⟩

namespace Engine

theorem operate_eq (read : InputAddr → Engine → Value × Engine) (locals : Locals) (id : NodeId)
    (kind : PureKind) (e : Engine) : operate read locals id kind e =
      (kind.value locals (readAll read id kind.operands e).1,
        (readAll read id kind.operands e).2) := by
  cases kind with
  | binary op => rfl
  | getLocal => rfl

/-- What decides how a pull goes on at a node. -/
def glance (e : Engine) (id : NodeId) : Option (NodeKind × String × Activity × Bool) :=
  (e.graph.node? id).map fun node =>
    (node.kind, node.title, node.activity, e.epoch.isCurrent node.computedAt)

/-- What decides how a pull goes on at an input. -/
def peek (e : Engine) (addr : InputAddr) : Option (Option OutputAddr × Bool) :=
  (e.graph.input? addr).map fun input => (input.source, e.epoch.isCurrent input.stamp)

/-- The node is not pure, or it was computed in this epoch. -/
def Settled (e : Engine) (id : NodeId) : Prop :=
  ∀ node kind, e.graph.node? id = some node → node.kind = .pure kind →
    e.epoch.isCurrent node.computedAt = true

theorem settled_of_impure {e : Engine} {id : NodeId} (impure : e.graph.pureKind? id = none) :
    e.Settled id := by
  intro node kind found pure
  rw [Graph.pureKind?_eq_some found pure] at impure
  cases impure

theorem settled_of_current {e : Engine} {id : NodeId} {node : Node}
    (found : e.graph.node? id = some node) (current : e.epoch.isCurrent node.computedAt = true) :
    e.Settled id := by
  intro other kind place _
  obtain rfl := Option.some.inj (found.symm.trans place)
  exact current

/-- No node of a rank below the bound is being computed, so pulls from there meet no cycle. -/
structure Clear (rank : NodeId → Nat) (bound : Nat) (e : Engine) : Prop where
  ranks : e.graph.Ranks rank
  idle : ∀ id, rank id < bound → e.graph.activity? id ≠ some .computing
  nonneg : 0 ≤ e.epoch.number

namespace Clear

variable {rank : NodeId → Nat} {bound : Nat} {e e' : Engine}

theorem pulled (clear : Clear rank bound e) (pulled : Pulled e e') : Clear rank bound e' where
  ranks := clear.ranks.of_frame_eq pulled.frame.symm
  idle id below := by
    rw [pulled.activity]
    exact clear.idle id below
  nonneg := by
    rw [pulled.epoch]
    exact clear.nonneg

theorem mono (clear : Clear rank bound e) {lower : Nat} (le : lower ≤ bound) :
    Clear rank lower e :=
  ⟨clear.ranks, fun id below => clear.idle id (Nat.lt_of_lt_of_le below le), clear.nonneg⟩

theorem count (clear : Clear rank bound e) (update : Statistics → Statistics) :
    Clear rank bound (e.count update) :=
  clear.pulled (.of_graph_eq (still_count e update) (graph_count e update))

/-- A mark on a node does not show below its rank. -/
theorem begin (clear : Clear rank bound e) {id : NodeId} (above : bound ≤ rank id) :
    Clear rank bound (e.beginComputing id) where
  ranks := by
    have same : (e.beginComputing id).graph.frame = e.graph.frame :=
      erase_beginComputing _ e id
    exact clear.ranks.of_frame_eq same.symm
  idle other below := by
    have different : id ≠ other := by
      rintro rfl
      omega
    have unmarked := clear.idle other below
    rw [Graph.activity?] at unmarked ⊢
    rwa [beginComputing, graph_modifyNode, Graph.node?_modifyNode_of_ne different]
  nonneg := clear.nonneg

end Clear

/-- In an engine at rest nothing stands in the way of a pull. -/
theorem clear_of_quiet {e : Engine} {rank : NodeId → Nat} (quiet : e.graph.Quiet)
    (nonneg : 0 ≤ e.epoch.number) (ranks : e.graph.Ranks rank) (bound : Nat) :
    Clear rank bound e := ⟨ranks, fun id _ => quiet id, nonneg⟩

/-- What is computed last is current. -/
theorem settled_finishComputing {e : Engine} (nonneg : 0 ≤ e.epoch.number) (id : NodeId)
    (value : Value) : (e.finishComputing id value).Settled id := by
  intro node kind found _
  rw [graph_finishComputing, Graph.node?_modifyNode, if_pos rfl] at found
  obtain ⟨old, _, rfl⟩ := Option.map_eq_some_iff.mp found
  rw [epoch_finishComputing]
  exact Epoch.isCurrent_number nonneg

/-- Two pulls that go on alike. The relation is kept by every act of a pull, with `Reads` for what
is read at an input and `Computes` for what a pure node computes. -/
structure PullPair (strict : Prop) (locals locals' : Locals) (R : Engine → Engine → Prop)
    (Reads : InputAddr → Value → Value → Prop) (Computes : NodeId → Value → Value → Prop) :
    Prop where
  glance : ∀ {e e'}, R e e' → ∀ id, e'.glance id = e.glance id
  peek : ∀ {e e'}, R e e' → ∀ addr, e'.peek addr = e.peek addr
  absent : ∀ {e e' addr}, R e e' → e.graph.input? addr = none → Reads addr .empty .empty
  unlinked : ∀ {e e' addr input input'}, R e e' → e.graph.input? addr = some input →
    e'.graph.input? addr = some input' → input.source = none →
    Reads addr input.literal input'.literal
  cached : ∀ {e e' addr input input' source}, R e e' → e.graph.input? addr = some input →
    e'.graph.input? addr = some input' → input.source = some source →
    e.epoch.isCurrent input.stamp = true → Reads addr input.cached input'.cached
  pulled : ∀ {e e' addr source}, R e e' → e.graph.source? addr = some source →
    (strict → e.Settled source.node) →
    Reads addr (e.graph.outputValue source) (e'.graph.outputValue source)
  hit : ∀ {e e'}, R e e' → R (e.count Statistics.hit) (e'.count Statistics.hit)
  miss : ∀ {e e'}, R e e' → R (e.count Statistics.miss) (e'.count Statistics.miss)
  cycle : ∀ {e e'} id title, R e e' → R ((e.log (.pullCycle id title)).count Statistics.cycle)
    ((e'.log (.pullCycle id title)).count Statistics.cycle)
  store : ∀ {e e' addr v v'}, R e e' → Reads addr v v' → R (e.store addr v) (e'.store addr v')
  beginComputing : ∀ {e e'} id, R e e' → R (e.beginComputing id) (e'.beginComputing id)
  operate : ∀ {e e' id kind operand operand'}, R e e' → e.graph.pureKind? id = some kind →
    (∀ port ∈ kind.operands, Reads ⟨id, port⟩ (operand port) (operand' port)) →
    Computes id (kind.value locals operand) (kind.value locals' operand')
  finishComputing : ∀ {e e' id kind v v'}, R e e' → e.graph.pureKind? id = some kind →
    Computes id v v' → R (e.finishComputing id v) (e'.finishComputing id v')

/-- Computations that nest at most `depth` deep go on alike, and settle the node; of a strict pair,
where the node and those below its rank are not being computed. -/
def AlikeWithin (strict : Prop) (locals locals' : Locals) (R : Engine → Engine → Prop)
    (rank : NodeId → Nat) (depth : Nat) : Prop :=
  ∀ {id kind e e'}, R e e' → e.graph.pureKind? id = some kind →
    e.graph.activity? id ≠ some .computing →
    (strict → Clear rank (rank id) e ∧ rank id < depth) →
    R (e.compute locals depth id kind) (e'.compute locals' depth id kind) ∧
      (strict → (e.compute locals depth id kind).Settled id)

/-- A pair of engines while the operands of a node are read: they are related, the node is on the
plan of the graph `g`, and of a strict pair nothing below the rank is being computed. -/
structure Reading (strict : Prop) (R : Engine → Engine → Prop) (rank : NodeId → Nat) (g : Graph)
    (bound : Nat) (e e' : Engine) : Prop where
  related : R e e'
  frame : e.graph.frame = g.frame
  clear : strict → Clear rank bound e

namespace PullPair

variable {strict : Prop} {locals locals' : Locals} {R : Engine → Engine → Prop}
  {Reads : InputAddr → Value → Value → Prop} {Computes : NodeId → Value → Value → Prop}
  (pair : PullPair strict locals locals' R Reads Computes) (rank : NodeId → Nat) (bound : Nat)
  {e e' : Engine}

include pair

/-- Two reads of an input go on alike if bringing its source up to date does. -/
theorem readUsing {refresh refresh' : NodeId → Engine → Engine} {addr : InputAddr}
    (related : R e e')
    (refreshed : ∀ source, e.graph.source? addr = some source →
      R (refresh source.node (e.count Statistics.miss))
          (refresh' source.node (e'.count Statistics.miss)) ∧
        Pulled (e.count Statistics.miss) (refresh source.node (e.count Statistics.miss)) ∧
        (strict → (refresh source.node (e.count Statistics.miss)).Settled source.node)) :
    Reads addr (e.readUsing refresh addr).1 (e'.readUsing refresh' addr).1 ∧
      R (e.readUsing refresh addr).2 (e'.readUsing refresh' addr).2 := by
  have same := pair.peek related addr
  unfold Engine.readUsing
  unfold Engine.peek at same
  cases found : e.graph.input? addr with
  | none =>
    rw [found, Option.map_none, Option.map_eq_none_iff] at same
    rw [same]
    exact ⟨pair.absent related found, related⟩
  | some input =>
    rw [found, Option.map_some] at same
    obtain ⟨input', found', equal⟩ := Option.map_eq_some_iff.mp same
    obtain ⟨source', current'⟩ := Prod.mk.inj equal
    rw [found']
    dsimp only
    rw [source', current']
    cases linked : input.source with
    | none => exact ⟨pair.unlinked related found found' linked, related⟩
    | some source =>
      dsimp only
      cases current : e.epoch.isCurrent input.stamp with
      | true => exact ⟨pair.cached related found found' linked current, pair.hit related⟩
      | false =>
        have link : e.graph.source? addr = some source :=
          Graph.source?_eq_some_iff.mpr ⟨input, found, linked⟩
        obtain ⟨after, pulled, settled⟩ := refreshed source link
        have link' : (refresh source.node (e.count Statistics.miss)).graph.source? addr =
            some source := by
          rw [Graph.source?_eq_of_frame_eq pulled.frame, graph_count, link]
        have value := pair.pulled after link' settled
        exact ⟨value, pair.store after value⟩

/-- Two nodes are brought up to date alike if they are computed alike. -/
theorem refreshUsing {compute compute' : NodeId → PureKind → Engine → Engine} {id : NodeId}
    (related : R e e')
    (clear : strict → Clear rank bound e ∧
      ∀ kind, e.graph.pureKind? id = some kind → rank id < bound)
    (computed : ∀ kind, e.graph.pureKind? id = some kind →
      e.graph.activity? id ≠ some .computing →
      R (compute id kind e) (compute' id kind e') ∧ (strict → (compute id kind e).Settled id)) :
    R (e.refreshUsing compute id) (e'.refreshUsing compute' id) ∧
      (strict → (e.refreshUsing compute id).Settled id) := by
  have same := pair.glance related id
  unfold Engine.refreshUsing
  unfold Engine.glance at same
  cases found : e.graph.node? id with
  | none =>
    rw [found, Option.map_none, Option.map_eq_none_iff] at same
    rw [same]
    exact ⟨related, fun _ => settled_of_impure (by simp [Graph.pureKind?, found])⟩
  | some node =>
    rw [found, Option.map_some] at same
    obtain ⟨node', found', equal⟩ := Option.map_eq_some_iff.mp same
    simp only [Prod.mk.injEq] at equal
    obtain ⟨kind', title', activity', current'⟩ := equal
    rw [found']
    dsimp only
    rw [kind', title', activity', current']
    cases pure : node.kind with
    | action kind =>
      have impure : e.graph.pureKind? id = none := by
        simp [Graph.pureKind?, NodeKind.pure?, found, pure]
      exact ⟨related, fun _ => settled_of_impure impure⟩
    | control kind =>
      have impure : e.graph.pureKind? id = none := by
        simp [Graph.pureKind?, NodeKind.pure?, found, pure]
      exact ⟨related, fun _ => settled_of_impure impure⟩
    | pure kind =>
      dsimp only
      cases current : e.epoch.isCurrent node.computedAt with
      | true => exact ⟨related, fun _ => settled_of_current found current⟩
      | false =>
        have activity : e.graph.activity? id = some node.activity := by
          rw [Graph.activity?, found, Option.map_some]
        cases busy : node.activity with
        | computing =>
          refine ⟨pair.cycle id _ related, ?_⟩
          intro isStrict
          rcases clear isStrict with ⟨clear, below⟩
          rw [busy] at activity
          exact absurd activity (clear.idle id (below kind (Graph.pureKind?_eq_some found pure)))
        | idle =>
          refine computed kind (Graph.pureKind?_eq_some found pure) ?_
          rw [activity, busy]
          intro equal
          cases equal

/-- The same with computations that nest at most `depth` deep. -/
theorem refreshWithin {depth : Nat} (computed : AlikeWithin strict locals locals' R rank depth)
    {id : NodeId} (related : R e e')
    (clear : strict → Clear rank bound e ∧ bound ≤ depth ∧
      ∀ kind, e.graph.pureKind? id = some kind → rank id < bound) :
    R (e.refreshUsing (Engine.compute locals depth) id)
        (e'.refreshUsing (Engine.compute locals' depth) id) ∧
      (strict → (e.refreshUsing (Engine.compute locals depth) id).Settled id) := by
  refine pair.refreshUsing rank bound related (fun isStrict => ?_) fun kind pure idle => ?_
  · rcases clear isStrict with ⟨clear, _, below⟩
    exact ⟨clear, below⟩
  · refine computed related pure idle ?_
    intro isStrict
    rcases clear isStrict with ⟨clear, enough, below⟩
    exact ⟨clear.mono (Nat.le_of_lt (below kind pure)), Nat.lt_of_lt_of_le (below kind pure) enough⟩

/-- So two reads go on alike, if the source of the input has a rank below the bound. -/
theorem readWithin {depth : Nat} (computed : AlikeWithin strict locals locals' R rank depth)
    {addr : InputAddr} (related : R e e')
    (clear : strict → Clear rank bound e ∧ bound ≤ depth ∧ ∀ source kind,
      e.graph.source? addr = some source → e.graph.pureKind? source.node = some kind →
      rank source.node < bound) :
    Reads addr (e.readWithin locals depth addr).1 (e'.readWithin locals' depth addr).1 ∧
      R (e.readWithin locals depth addr).2 (e'.readWithin locals' depth addr).2 := by
  refine pair.readUsing related ?_
  intro source link
  have refreshed := pair.refreshWithin rank bound computed (pair.miss related)
    fun isStrict => by
      rcases clear isStrict with ⟨clear, enough, below⟩
      refine ⟨clear.count _, enough, fun kind pure => below source kind link ?_⟩
      rwa [graph_count] at pure
  exact ⟨refreshed.1, pulled_refreshWithin locals depth _ _, refreshed.2⟩

/-- Operands of a node are read alike. What they need has a lower rank than the node. -/
theorem readOperand {depth : Nat} (computed : AlikeWithin strict locals locals' R rank depth)
    {g : Graph} {id : NodeId} {kind : PureKind} (pure : g.pureKind? id = some kind)
    (enough : strict → rank id ≤ depth) (port : PortId)
    (h : Reading strict R rank g (rank id) e e') :
    Reads ⟨id, port⟩ (e.readWithin locals depth ⟨id, port⟩).1
        (e'.readWithin locals' depth ⟨id, port⟩).1 ∧
      Reading strict R rank g (rank id) (e.readWithin locals depth ⟨id, port⟩).2
        (e'.readWithin locals' depth ⟨id, port⟩).2 := by
  have pulled := pulled_readWithin locals depth ⟨id, port⟩ e
  have lower : strict → ∀ source kind, e.graph.source? ⟨id, port⟩ = some source →
      e.graph.pureKind? source.node = some kind → rank source.node < rank id := by
    intro isStrict source kind' link above
    have pure' := (Graph.pureKind?_eq_of_frame_eq h.frame id).trans pure
    exact (h.clear isStrict).ranks.lt (Graph.feeds_of_source link above pure')
  obtain ⟨value, related⟩ := pair.readWithin rank (rank id) computed h.related
    fun isStrict => ⟨h.clear isStrict, enough isStrict, lower isStrict⟩
  refine ⟨value, related, pulled.frame.trans h.frame, ?_⟩
  intro isStrict
  exact (h.clear isStrict).pulled pulled

/-- Two computations of a node go on alike, however deep they may nest. -/
theorem compute (depth : Nat) : AlikeWithin strict locals locals' R rank depth := by
  induction depth with
  | zero =>
    intro id kind e e' related _ _ clear
    exact ⟨related, fun isStrict => absurd (clear isStrict).2 (Nat.not_lt_zero _)⟩
  | succ depth ih =>
    intro id kind e e' related pure idle clear
    -- The operands are read while the node is marked.
    have begun : Reading strict R rank e.graph (rank id) (e.beginComputing id)
        (e'.beginComputing id) := by
      refine ⟨pair.beginComputing id related, erase_beginComputing _ e id, ?_⟩
      intro isStrict
      exact (clear isStrict).1.begin (Nat.le_refl _)
    obtain ⟨operands, read⟩ := readAll_pair kind.operands
      (fun port _ _ _ h => pair.readOperand rank ih pure
        (fun isStrict => Nat.le_of_lt_succ (clear isStrict).2) port h) begun
    rw [compute_succ, compute_succ, operate_eq, operate_eq]
    have pure' := (Graph.pureKind?_eq_of_frame_eq read.frame id).trans pure
    have computed := pair.operate read.related pure' operands
    refine ⟨pair.finishComputing read.related pure' computed, ?_⟩
    intro isStrict
    exact settled_finishComputing (read.clear isStrict).nonneg id _

/-- Two reads of an input go on alike. -/
theorem read (addr : InputAddr) (related : R e e') (sizes : e'.graph.size = e.graph.size)
    (clear : strict → Clear rank e.graph.size e) :
    Reads addr (e.read locals addr).1 (e'.read locals' addr).1 ∧
      R (e.read locals addr).2 (e'.read locals' addr).2 := by
  rw [read_eq_readWithin, read_eq_readWithin, sizes]
  refine pair.readWithin rank e.graph.size (pair.compute rank _) related ?_
  intro isStrict
  refine ⟨clear isStrict, Nat.le_refl _, ?_⟩
  intro source kind _ pure
  exact (clear isStrict).ranks.bound (Graph.lt_size_of_pureKind? pure)

/-- Two nodes are brought up to date alike. -/
theorem refresh (id : NodeId) (related : R e e') (sizes : e'.graph.size = e.graph.size)
    (clear : strict → Clear rank e.graph.size e) :
    R (e.refresh locals id) (e'.refresh locals' id) ∧
      (strict → (e.refresh locals id).Settled id) := by
  unfold Engine.refresh
  rw [sizes]
  refine pair.refreshWithin rank e.graph.size (pair.compute rank _) related ?_
  intro isStrict
  refine ⟨clear isStrict, Nat.le_refl _, ?_⟩
  intro kind pure
  exact (clear isStrict).ranks.bound (Graph.lt_size_of_pureKind? pure)

end PullPair

/-- Engines with the same graph in the same epoch pull alike under a relation that changes to nodes
and records keep. -/
theorem PullPair.of_same_graph {R : Engine → Engine → Prop} (locals : Locals)
    (graph : ∀ {e e'}, R e e' → e'.graph = e.graph)
    (epoch : ∀ {e e'}, R e e' → e'.epoch = e.epoch)
    (modifyNode : ∀ {e e'} id f, R e e' → R (e.modifyNode id f) (e'.modifyNode id f))
    (log : ∀ {e e'} event, R e e' → R (e.log event) (e'.log event))
    (count : ∀ {e e'} update, R e e' → R (e.count update) (e'.count update)) :
    PullPair False locals locals R (fun _ v v' => v' = v) (fun _ v v' => v' = v) where
  glance h id := by rw [Engine.glance, Engine.glance, graph h, epoch h]
  peek h addr := by rw [Engine.peek, Engine.peek, graph h, epoch h]
  absent _ _ := rfl
  unlinked h found found' _ := by
    rw [graph h, found] at found'
    exact congrArg Input.literal (Option.some.inj found').symm
  cached h found found' _ _ := by
    rw [graph h, found] at found'
    exact congrArg Input.cached (Option.some.inj found').symm
  pulled h _ _ := by rw [graph h]
  hit h := count Statistics.hit h
  miss h := count Statistics.miss h
  cycle id title h := count Statistics.cycle (log (.pullCycle id title) h)
  store h reads := by
    rw [Engine.store, Engine.store, reads, epoch h]
    exact modifyNode _ _ h
  beginComputing id h := modifyNode id _ h
  operate _ _ reads := PureKind.value_congr reads
  finishComputing h _ computes := by
    rw [Engine.finishComputing, Engine.finishComputing, computes, epoch h]
    exact count Statistics.evaluation (modifyNode _ _ h)

end Engine

end NodeGraph
