import Mathlib.Algebra.BigOperators.Group.List.Basic
import Mathlib.Algebra.GroupWithZero.Nat
import NodeGraph.Proofs.Engine.Epochs

/-!
# What becomes of the counters

Whatever is done to an engine is a course of a few moves (`Engine.Moves`). Every move keeps the two
counts of evaluations apart by the same difference, the one in the statistics and the one in the
nodes, but for what a node brings that is added (`Engine.Course.evaluations`); and the numbers start
again no more often than everything is made stale (`Engine.Course.wraps_le`).
-/

namespace NodeGraph

namespace Graph

/-- How often bodies of nodes ran, over all nodes. -/
def evaluationCount (g : Graph) : Nat := (g.nodes.toList.map (·.evaluations)).sum

theorem evaluationCount_eq_of_map {g h : Graph}
    (same : g.nodes.map (·.evaluations) = h.nodes.map (·.evaluations)) :
    g.evaluationCount = h.evaluationCount := by
  unfold evaluationCount
  rw [← Array.toList_map, same, Array.toList_map]

/-- A change to a node that is none to its count. -/
theorem evaluationCount_modifyNode (g : Graph) (id : NodeId) {f : Node → Node}
    (same : ∀ node, (f node).evaluations = node.evaluations) :
    (g.modifyNode id f).evaluationCount = g.evaluationCount :=
  evaluationCount_eq_of_map (Node.map_modify_of_eq same)

theorem sum_map_modify_succ {α : Type} {count : α → Nat} {f : α → α}
    (succ : ∀ a, count (f a) = count a + 1) {xs : List α} {i : Nat} (below : i < xs.length) :
    ((xs.modify i f).map count).sum = (xs.map count).sum + 1 := by
  induction xs generalizing i with
  | nil => exact absurd below (Nat.not_lt_zero i)
  | cons x rest ih =>
    cases i with
    | zero =>
      simp only [List.modify_zero_cons, List.map_cons, List.sum_cons, succ]
      omega
    | succ i =>
      have later := ih (Nat.lt_of_succ_lt_succ below)
      simp only [List.modify_succ_cons, List.map_cons, List.sum_cons, later]
      omega

/-- One run of a body more. -/
theorem evaluationCount_modifyNode_succ {g : Graph} {id : NodeId} (there : id < g.size)
    {f : Node → Node} (succ : ∀ node, (f node).evaluations = node.evaluations + 1) :
    (g.modifyNode id f).evaluationCount = g.evaluationCount + 1 := by
  unfold evaluationCount modifyNode
  rw [Array.toList_modify]
  exact sum_map_modify_succ succ there

theorem evaluationCount_add (g : Graph) (node : Node) :
    (g.add node).2.evaluationCount = g.evaluationCount + node.evaluations := by
  simp [evaluationCount, add, Node.detach]

@[simp]
theorem evaluationCount_invalidate (g : Graph) :
    g.invalidate.evaluationCount = g.evaluationCount := by
  apply evaluationCount_eq_of_map
  rw [invalidate, Array.map_map]
  rfl

@[simp]
theorem evaluationCount_modifyInput (g : Graph) (addr : InputAddr) (f : Input → Input) :
    (g.modifyInput addr f).evaluationCount = g.evaluationCount := by
  apply evaluationCount_modifyNode
  intro node
  rfl

@[simp]
theorem evaluationCount_modifyOutput (g : Graph) (addr : OutputAddr) (f : Output → Output) :
    (g.modifyOutput addr f).evaluationCount = g.evaluationCount := by
  apply evaluationCount_modifyNode
  intro node
  rfl

@[simp]
theorem evaluationCount_unlink (g : Graph) (target : InputAddr) :
    (g.unlink target).evaluationCount = g.evaluationCount := by
  unfold unlink
  split <;> simp

theorem evaluationCount_connect {g h : Graph} {link : Link} (connected : g.connect link = .ok h) :
    h.evaluationCount = g.evaluationCount := by
  obtain ⟨_, _, _, _, _, rfl⟩ := connect_eq_ok_iff.mp connected
  simp [record]

theorem evaluationCount_disconnect {g h : Graph} {target : InputAddr} {source : Option OutputAddr}
    (disconnected : g.disconnect target = .ok (source, h)) :
    h.evaluationCount = g.evaluationCount := by
  obtain ⟨_, _, _, rfl⟩ := disconnect_eq_ok_iff.mp disconnected
  exact evaluationCount_unlink g target

theorem evaluationCount_setLiteral {g h : Graph} {addr : InputAddr} {value : Value}
    (set : g.setLiteral addr value = .ok h) : h.evaluationCount = g.evaluationCount := by
  obtain ⟨_, rfl⟩ := setLiteral_eq_ok_iff.mp set
  exact evaluationCount_modifyInput g _ _

end Graph

namespace Engine

/-- The counts of evaluations keep their difference while statistics are collected, and no wrap goes
without an invalidation. -/
structure Balanced (e e' : Engine) : Prop where
  collects : e.config.collectStatistics = true → e'.config.collectStatistics = true
  evaluations : e.config.collectStatistics = true →
    e'.statistics.evaluations + e.graph.evaluationCount =
      e.statistics.evaluations + e'.graph.evaluationCount
  wraps : e'.statistics.wraps + e.statistics.invalidations ≤
    e.statistics.wraps + e'.statistics.invalidations

namespace Balanced

variable {e e' e'' : Engine}

theorem of_eq (config : e'.config = e.config) (statistics : e'.statistics = e.statistics)
    (count : e'.graph.evaluationCount = e.graph.evaluationCount) : Balanced e e' where
  collects := by rw [config]; exact id
  evaluations _ := by rw [statistics, count]
  wraps := Nat.le_of_eq (by rw [statistics])

theorem trans (h : Balanced e e') (h' : Balanced e' e'') : Balanced e e'' where
  collects collects := h'.collects (h.collects collects)
  evaluations collects := by
    have first := h.evaluations collects
    have second := h'.evaluations (h.collects collects)
    omega
  wraps := by
    have first := h.wraps
    have second := h'.wraps
    omega

end Balanced

/-- A count of something else. -/
theorem balanced_count {update : Statistics → Statistics} (e : Engine)
    (evaluations : ∀ s, (update s).evaluations = s.evaluations)
    (wraps : ∀ s, (update s).wraps = s.wraps)
    (invalidations : ∀ s, s.invalidations ≤ (update s).invalidations) :
    Balanced e (e.count update) := by
  unfold count
  split
  · exact ⟨id, fun _ => congrArg (· + _) (evaluations _),
      by have more := invalidations e.statistics; simp only [wraps]; omega⟩
  · exact .of_eq rfl rfl rfl

theorem balanced_modifyNode (e : Engine) (id : NodeId) {f : Node → Node}
    (same : ∀ node, (f node).evaluations = node.evaluations) : Balanced e (e.modifyNode id f) :=
  .of_eq rfl rfl (Graph.evaluationCount_modifyNode e.graph id same)

/-- A run of a body is counted in the node and in the statistics. -/
theorem balanced_ran {e : Engine} {id : NodeId} (there : id < e.graph.size) {f : Node → Node}
    (succ : ∀ node, (f node).evaluations = node.evaluations + 1) :
    Balanced e ((e.modifyNode id f).count Statistics.evaluation) := by
  have count := Graph.evaluationCount_modifyNode_succ there succ
  refine ⟨?_, fun collects => ?_, ?_⟩
  · unfold Engine.count
    split <;> exact fun collects => collects
  · have counted : ((e.modifyNode id f).count Statistics.evaluation).statistics.evaluations =
        e.statistics.evaluations + 1 := by
      rw [Engine.count, if_pos (show (e.modifyNode id f).config.collectStatistics = true from
        collects)]
      rfl
    rw [graph_count, graph_modifyNode, count, counted]
    omega
  · unfold Engine.count
    split <;> exact Nat.le_refl _

/-- Pulls count what they run, node by node. -/
theorem balanced_relation :
    PullRelation fun e e' => e'.graph.size = e.graph.size ∧ Balanced e e' where
  refl e := ⟨rfl, .of_eq rfl rfl rfl⟩
  trans h h' := ⟨h'.1.trans h.1, h.2.trans h'.2⟩
  hit e := ⟨by rw [graph_count],
    balanced_count e (fun _ => rfl) (fun _ => rfl) fun _ => Nat.le_refl _⟩
  miss e := ⟨by rw [graph_count],
    balanced_count e (fun _ => rfl) (fun _ => rfl) fun _ => Nat.le_refl _⟩
  cycle e id title := by
    refine ⟨by rw [graph_count]; rfl, ?_⟩
    have logged : Balanced e (e.log (.pullCycle id title)) := .of_eq rfl rfl rfl
    exact logged.trans
      (balanced_count _ (fun _ => rfl) (fun _ => rfl) fun _ => Nat.le_refl _)
  store e addr value := ⟨Graph.size_modifyNode _ _ _, balanced_modifyNode e _ fun _ => rfl⟩
  compute {e e' id node kind} value found _ _ during := by
    obtain ⟨size, balanced⟩ := during
    have begun : (e.beginComputing id).graph.size = e.graph.size := Graph.size_modifyNode _ _ _
    have there : id < e'.graph.size := by
      rw [size, begun]
      exact Graph.lt_size_of_node? found
    refine ⟨?_, ?_⟩
    · rw [graph_finishComputing, Graph.size_modifyNode, size, begun]
    · have marked : Balanced e (e.beginComputing id) := balanced_modifyNode e id fun _ => rfl
      exact (marked.trans balanced).trans (balanced_ran there fun _ => rfl)

/-- A sweep over the graph, or over one that was wired anew. -/
theorem balanced_invalidate {e : Engine} {graph : Graph}
    (count : graph.evaluationCount = e.graph.evaluationCount) :
    Balanced e { e with graph }.invalidate := by
  refine ⟨?_, fun _ => ?_, ?_⟩
  · have config : ({ e with graph }.invalidate).config = e.config :=
      congrArg (·.2.2.2) (settings_invalidate { e with graph })
    rw [config]
    exact fun collects => collects
  · rw [statistics_invalidate, graph_invalidate, Graph.evaluationCount_invalidate, count]
    split <;> rfl
  · rw [statistics_invalidate]
    split
    · simp only [Statistics.invalidation]
      omega
    · exact Nat.le_refl _

theorem balanced_openEpoch (e : Engine) : Balanced e e.openEpoch := by
  have sweeps := balance_openEpoch e
  have config : e.openEpoch.config = e.config := congrArg (·.2.2.2) (settings_openEpoch e)
  refine ⟨fun collects => config ▸ collects, fun _ => ?_, by omega⟩
  unfold openEpoch
  generalize e.epoch.advance e.lastEpoch = advanced
  obtain ⟨kind, epoch⟩ := advanced
  cases kind with
  | stepped => rfl
  | wrapped =>
    dsimp only
    rw [statistics_invalidate, graph_invalidate, Graph.evaluationCount_invalidate, graph_count]
    cases collects : e.config.collectStatistics with
    | true => simp [count, log, collects, Statistics.wrap, Statistics.invalidation]
    | false => simp [count, log, collects]

end Engine

/-- What a move is to the epoch and the counters. -/
inductive Move where
  /-- An epoch is opened. -/
  | opens
  /-- Everything is made stale. -/
  | invalidates
  /-- The epoch goes on. -/
  | stays
  | adds (node : Node)
  | resets
  | configures (config : Config)

namespace Move

/-- How many epochs the move opens. -/
def openings : Move → Nat
  | opens => 1
  | _ => 0

/-- The runs that a node brings which is added. -/
def brought : Move → Nat
  | adds node => node.evaluations
  | _ => 0

/-- The counters are not reset and go on counting. -/
def Counts : Move → Prop
  | resets => False
  | configures config => config.collectStatistics = true
  | _ => True

/-- No epoch is opened, nothing is made stale, and the counters go on counting. -/
def Lingers : Move → Prop
  | stays | adds _ => True
  | configures config => config.collectStatistics = true
  | _ => False

theorem Lingers.ne_opens {move : Move} (lingers : move.Lingers) : move ≠ .opens := by
  rintro rfl
  exact lingers

theorem Lingers.counts {move : Move} (lingers : move.Lingers) : move.Counts := by
  cases move with
  | resets => exact lingers
  | configures config => exact lingers
  | _ => trivial

end Move

namespace Engine

variable {e e' e'' : Engine}

/-- The moves of which everything consists that is done to an engine. -/
inductive Moves (e : Engine) : Move → Engine → Prop where
  | opens : Moves e .opens e.openEpoch
  | invalidates : Moves e .invalidates e.invalidate
  | connects {link : Link} {e' : Engine} : e.connect link = .ok e' → Moves e .invalidates e'
  | disconnects {target : InputAddr} {source : Option OutputAddr} {e' : Engine} :
    e.disconnect target = .ok (source, e') → Moves e .invalidates e'
  | sets {addr : InputAddr} {value : Value} {e' : Engine} : e.setLiteral addr value = .ok e' →
    Moves e .invalidates e'
  | reads (locals : Locals) (addr : InputAddr) : Moves e .stays (e.read locals addr).2
  | refreshes (locals : Locals) (id : NodeId) : Moves e .stays (e.refresh locals id)
  | computes (locals : Locals) {id : NodeId} {node : Node} {kind : PureKind} :
    e.graph.node? id = some node → node.kind = .pure kind → node.activity = .idle →
    Moves e .stays (e.compute locals e.graph.size id kind)
  | writes (addr : OutputAddr) (value : Value) : Moves e .stays (e.write addr value)
  /-- The body of a node that is not pure ran. -/
  | steps {id : NodeId} : id < e.graph.size →
    Moves e .stays ((e.modifyNode id Node.countEvaluation).count Statistics.evaluation)
  | serves (context : Nat) : e.serves = none → Moves e .stays { e with serves := some context }
  | beside (context : Context) (marker : Option Nat) (journal : Array Event) :
    Moves e .stays { e with context, marker, journal }
  | adds (node : Node) : Moves e (.adds node) (e.addNode node).2
  | resets : Moves e .resets e.resetStatistics
  | configures (config : Config) : Moves e (.configures config) { e with config }

/-- One move after the other. -/
inductive Course : Engine → List Move → Engine → Prop where
  | nil (e : Engine) : Course e [] e
  | cons {e e' e'' : Engine} {move : Move} {rest : List Move} : e.Moves move e' →
    Course e' rest e'' → Course e (move :: rest) e''

theorem Moves.course {move : Move} (moves : e.Moves move e') : e.Course [move] e' :=
  .cons moves (.nil e')

theorem Course.trans {first others : List Move} (h : e.Course first e')
    (h' : e'.Course others e'') : e.Course (first ++ others) e'' := by
  induction h with
  | nil => exact h'
  | cons moves _ ih => exact .cons moves (ih h')

section Laws

variable {move : Move} {moves : List Move}

/-- A move that neither adds a node nor resets what is counted. -/
theorem Moves.balanced (h : e.Moves move e') (counts : move.Counts)
    (added : ∀ node, move ≠ .adds node) : e.Balanced e' := by
  cases h with
  | opens => exact balanced_openEpoch e
  | invalidates => exact balanced_invalidate rfl
  | connects connected =>
    obtain ⟨graph, changed, rfl⟩ := connect_eq_ok_iff.mp connected
    exact balanced_invalidate (Graph.evaluationCount_connect changed)
  | disconnects disconnected =>
    obtain ⟨graph, changed, rfl⟩ := disconnect_eq_ok_iff.mp disconnected
    exact balanced_invalidate (Graph.evaluationCount_disconnect changed)
  | sets set =>
    obtain ⟨graph, changed, rfl⟩ := setLiteral_eq_ok_iff.mp set
    exact balanced_invalidate (Graph.evaluationCount_setLiteral changed)
  | reads locals addr => exact (balanced_relation.read locals addr e).2
  | refreshes locals id => exact (balanced_relation.refresh locals id e).2
  | computes locals found pure idle =>
    exact (balanced_relation.computeWithin locals _ found pure idle).2
  | writes addr value => exact balanced_modifyNode e _ fun _ => rfl
  | steps there => exact balanced_ran there fun _ => rfl
  | serves _ _ | beside _ _ _ => exact .of_eq rfl rfl rfl
  | adds node => exact absurd rfl (added node)
  | resets => cases counts
  | configures config => exact ⟨fun _ => counts, fun _ => rfl, Nat.le_refl _⟩

/-- What a move that does not reset does to the counts of evaluations; only an added node brings
some along. -/
theorem Moves.counted (h : e.Moves move e') (counts : move.Counts)
    (collects : e.config.collectStatistics = true) : e'.config.collectStatistics = true ∧
      e'.statistics.evaluations + e.graph.evaluationCount + move.brought =
        e.statistics.evaluations + e'.graph.evaluationCount := by
  by_cases added : ∃ node, move = .adds node
  · obtain ⟨node, rfl⟩ := added
    cases h with
    | adds =>
      have count := Graph.evaluationCount_add e.graph node
      exact ⟨collects, (Nat.add_assoc _ _ _).trans (congrArg (_ + ·) count.symm)⟩
  · have balanced := h.balanced counts (not_exists.mp added)
    have none : move.brought = 0 := by
      cases move with
      | adds node => exact absurd ⟨node, rfl⟩ added
      | _ => rfl
    rw [none]
    exact ⟨balanced.collects collects, balanced.evaluations collects⟩

/-- Along a course in which nothing is reset, the counts of evaluations differ by what they did at
first and by what added nodes have brought. -/
theorem Course.evaluations (h : e.Course moves e') (counts : ∀ move ∈ moves, move.Counts)
    (collects : e.config.collectStatistics = true) :
    e'.statistics.evaluations + e.graph.evaluationCount + (moves.map Move.brought).sum =
      e.statistics.evaluations + e'.graph.evaluationCount := by
  induction h with
  | nil => rfl
  | cons one _ ih =>
    obtain ⟨collecting, first⟩ := one.counted (counts _ List.mem_cons_self) collects
    have later := ih (fun other member => counts other (List.mem_cons_of_mem _ member)) collecting
    rw [List.map_cons, List.sum_cons]
    omega

/-- So they keep their difference where no runs are brought along. -/
theorem Course.evaluations_eq (h : e.Course moves e')
    (counts : ∀ move ∈ moves, move.Counts ∧ move.brought = 0)
    (collects : e.config.collectStatistics = true) :
    e'.statistics.evaluations + e.graph.evaluationCount =
      e.statistics.evaluations + e'.graph.evaluationCount := by
  have brought : (moves.map Move.brought).sum = 0 := by
    refine List.sum_eq_zero fun runs among => ?_
    obtain ⟨move, member, rfl⟩ := List.mem_map.mp among
    exact (counts move member).2
  have law := h.evaluations (fun move member => (counts move member).1) collects
  rwa [brought, Nat.add_zero] at law

theorem Course.collects (h : e.Course moves e') (counts : ∀ move ∈ moves, move.Counts)
    (collects : e.config.collectStatistics = true) : e'.config.collectStatistics = true := by
  induction h with
  | nil => exact collects
  | cons one _ ih =>
    have collecting := (one.counted (counts _ List.mem_cons_self) collects).1
    exact ih (fun other member => counts other (List.mem_cons_of_mem _ member)) collecting

/-- The numbers start again no more often than everything is made stale. -/
theorem Moves.wraps_le (h : e.Moves move e')
    (before : e.statistics.wraps ≤ e.statistics.invalidations) :
    e'.statistics.wraps ≤ e'.statistics.invalidations := by
  cases move with
  | resets =>
    cases h
    exact Nat.le_refl 0
  | configures config =>
    cases h
    exact before
  | adds node =>
    cases h
    exact before
  | opens | invalidates | stays =>
    have wraps := (h.balanced trivial fun _ => nofun).wraps
    omega

theorem Course.wraps_le (h : e.Course moves e')
    (before : e.statistics.wraps ≤ e.statistics.invalidations) :
    e'.statistics.wraps ≤ e'.statistics.invalidations := by
  induction h with
  | nil => exact before
  | cons one _ ih => exact ih (one.wraps_le before)

/-- Only the opening of an epoch moves the counter of epochs. -/
theorem Moves.epoch_eq (h : e.Moves move e') (other : move ≠ .opens) :
    e'.lastEpoch = e.lastEpoch ∧ e'.epoch = e.epoch := by
  have still (same : e'.still = e.still) : e'.lastEpoch = e.lastEpoch ∧ e'.epoch = e.epoch := by
    have last := congrArg Engine.lastEpoch same
    have epoch := congrArg Engine.epoch same
    exact ⟨last, epoch⟩
  have swept (graph : Graph) (equal : { e with graph }.invalidate = e') :
      e'.lastEpoch = e.lastEpoch ∧ e'.epoch = e.epoch := by
    subst equal
    exact ⟨congrArg (·.2.1) (settings_invalidate { e with graph }), epoch_invalidate _⟩
  cases h with
  | opens => exact absurd rfl other
  | invalidates => exact swept e.graph rfl
  | connects connected =>
    obtain ⟨graph, _, equal⟩ := connect_eq_ok_iff.mp connected
    exact swept graph equal
  | disconnects disconnected =>
    obtain ⟨graph, _, equal⟩ := disconnect_eq_ok_iff.mp disconnected
    exact swept graph equal
  | sets set =>
    obtain ⟨graph, _, equal⟩ := setLiteral_eq_ok_iff.mp set
    exact swept graph equal
  | reads locals addr => exact still (pulled_read locals addr e).still
  | refreshes locals id => exact still (pulled_refresh locals id e).still
  | computes locals found pure idle =>
    exact still (pulled_relation.computeWithin locals e.graph.size found pure idle).still
  | steps _ => exact still (still_count _ _)
  | writes _ _ | serves _ _ | beside _ _ _ | adds _ | resets | configures _ => exact ⟨rfl, rfl⟩

/-- The epoch counter is one of 64 bits, and its number is not negative. -/
structure Numbered (e : Engine) : Prop where
  last : e.lastEpoch = some Epoch.lastNumber
  nonneg : 0 ≤ e.epoch.number
  le : e.epoch.number ≤ Epoch.lastNumber

/-- The counter of epochs counts on by one for an epoch that is opened, modulo 2 ^ 63. -/
theorem Moves.numbered (h : e.Moves move e') (numbered : e.Numbered) :
    e'.Numbered ∧ e'.epoch.number = (e.epoch.number + move.openings) % 2 ^ 63 := by
  have range : Epoch.lastNumber = 2 ^ 63 - 1 := by decide
  obtain ⟨last, nonneg, le⟩ := numbered
  by_cases opens : move = .opens
  · subst opens
    cases h with
    | opens =>
      have kept : e.openEpoch.lastEpoch = e.lastEpoch := congrArg (·.2.1) (settings_openEpoch e)
      have epoch := epoch_openEpoch e
      rw [last] at epoch
      refine ⟨⟨kept.trans last, ?_, ?_⟩, ?_⟩
      · rw [epoch]
        exact Epoch.advance_nonneg _ _
      · rw [epoch]
        exact Epoch.advance_le (by decide)
      · rw [epoch]
        simp only [Epoch.advance, Option.any_some, decide_eq_true_eq, Move.openings]
        split
        · simp only
          omega
        · simp only
          omega
  · obtain ⟨kept, epoch⟩ := h.epoch_eq opens
    have none : move.openings = 0 := by
      cases move with
      | opens => exact absurd rfl opens
      | _ => rfl
    refine ⟨⟨kept.trans last, epoch ▸ nonneg, epoch ▸ le⟩, ?_⟩
    rw [epoch, none]
    omega

/-- The counter counts on by the number of epochs that are opened along a course. -/
theorem Course.numbered (h : e.Course moves e') (numbered : e.Numbered) : e'.Numbered ∧
    e'.epoch.number = (e.epoch.number + (moves.map Move.openings).sum) % 2 ^ 63 := by
  induction h with
  | nil e =>
    have range : Epoch.lastNumber = 2 ^ 63 - 1 := by decide
    obtain ⟨last, nonneg, le⟩ := numbered
    refine ⟨⟨last, nonneg, le⟩, ?_⟩
    simp only [List.map_nil, List.sum_nil]
    omega
  | cons one rest ih =>
    obtain ⟨numbered, first⟩ := one.numbered numbered
    obtain ⟨numbered, others⟩ := ih numbered
    refine ⟨numbered, ?_⟩
    rw [others, first, List.map_cons, List.sum_cons]
    push_cast
    omega

end Laws

/-- From one engine to the other on a course of moves that are permitted, which opens so many
epochs. -/
def Goes (permits : Move → Prop) (openings : Nat) (e e' : Engine) : Prop :=
  ∃ moves, e.Course moves e' ∧ (∀ move ∈ moves, permits move) ∧
    (moves.map Move.openings).sum = openings

namespace Goes

variable {permits : Move → Prop} {openings others : Nat}

theorem refl (e : Engine) : e.Goes permits 0 e := ⟨[], .nil e, nofun, rfl⟩

theorem of_moves {move : Move} (moves : e.Moves move e') (permitted : permits move) :
    e.Goes permits move.openings e' :=
  ⟨[move], moves.course, fun _ member => List.mem_singleton.mp member ▸ permitted,
    List.sum_singleton⟩

theorem trans (h : e.Goes permits openings e') (h' : e'.Goes permits others e'') :
    e.Goes permits (openings + others) e'' := by
  obtain ⟨moves, course, permitted, count⟩ := h
  obtain ⟨moves', course', permitted', count'⟩ := h'
  refine ⟨moves ++ moves', course.trans course', fun move member => ?_, ?_⟩
  · rcases List.mem_append.mp member with member | member
    · exact permitted move member
    · exact permitted' move member
  · rw [List.map_append, List.sum_append, count, count']

theorem mono {allows : Move → Prop} (h : e.Goes permits openings e')
    (sub : ∀ move, permits move → allows move) : e.Goes allows openings e' := by
  obtain ⟨moves, course, permitted, count⟩ := h
  exact ⟨moves, course, fun move member => sub move (permitted move member), count⟩

end Goes

end Engine

end NodeGraph
