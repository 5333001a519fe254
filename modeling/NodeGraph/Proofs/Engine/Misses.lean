import NodeGraph.Proofs.Engine.Consistency
import NodeGraph.Proofs.Engine.Course
import NodeGraph.Proofs.Engine.Nesting
import NodeGraph.Proofs.Graph.Upstream

/-!
# Misses

A connected input is missed when it is read and not current, and the read makes it current. Where
the pure nodes form no cycle, nothing that the pull needs reads the input meanwhile. So within an
epoch the inputs that are missed are those that become current, and none is missed twice
(`Engine.Course.misses`).
-/

namespace NodeGraph

namespace Engine

variable {e e' e'' : Engine}

/-- The input is connected, and what was read through its link is current. -/
def Cached (e : Engine) (addr : InputAddr) : Prop :=
  ∃ input, e.graph.input? addr = some input ∧ input.source.isSome ∧
    e.epoch.isCurrent input.stamp = true

/-- These inputs were missed: they are those that have become current, and each counts once. -/
structure Misses (missed : List InputAddr) (e e' : Engine) : Prop where
  nodup : missed.Nodup
  count : e'.statistics.misses = e.statistics.misses + missed.length
  stale : ∀ addr ∈ missed, ¬ e.Cached addr
  cached : ∀ addr, e'.Cached addr ↔ e.Cached addr ∨ addr ∈ missed

theorem cached_congr {addr : InputAddr} (epoch : e'.epoch = e.epoch)
    (input : e'.graph.input? addr = e.graph.input? addr) : e'.Cached addr ↔ e.Cached addr := by
  rw [Cached, epoch, input, Cached]

namespace Misses

variable {missed later : List InputAddr}

theorem of_cached (count : e'.statistics.misses = e.statistics.misses)
    (cached : ∀ addr, e'.Cached addr ↔ e.Cached addr) : Misses [] e e' where
  nodup := .nil
  count := count
  stale _ member := absurd member List.not_mem_nil
  cached addr := by simp [cached]

theorem of_eq (count : e'.statistics.misses = e.statistics.misses) (epoch : e'.epoch = e.epoch)
    (input : ∀ addr, e'.graph.input? addr = e.graph.input? addr) : Misses [] e e' :=
  of_cached count fun addr => cached_congr epoch (input addr)

/-- What was missed is current, so it is not missed again. -/
theorem trans (h : Misses missed e e') (h' : Misses later e' e'') :
    Misses (missed ++ later) e e'' where
  nodup := by
    refine List.nodup_append'.mpr ⟨h.nodup, h'.nodup, fun addr first second => ?_⟩
    exact h'.stale addr second ((h.cached addr).mpr (.inr first))
  count := by
    have first := h.count
    have second := h'.count
    rw [List.length_append]
    omega
  stale addr member before := by
    rcases List.mem_append.mp member with first | second
    · exact h.stale addr first before
    · exact h'.stale addr second ((h.cached addr).mpr (.inl before))
  cached addr := by rw [h'.cached, h.cached, List.mem_append, or_assoc]

end Misses

/-- A count of anything but misses. -/
theorem misses_count {update : Statistics → Statistics} (e : Engine)
    (same : ∀ s, (update s).misses = s.misses) : Misses [] e (e.count update) := by
  refine .of_eq ?_ (epoch_count e update) fun addr => by rw [graph_count]
  unfold count
  split
  · exact same _
  · rfl

/-- A change to a node that is none to its inputs. -/
theorem misses_modifyNode (e : Engine) (id : NodeId) {f : Node → Node}
    (same : ∀ node, (f node).inputs = node.inputs) : Misses [] e (e.modifyNode id f) :=
  .of_eq rfl rfl fun addr => Graph.input?_modifyNode same addr

/-- A run of a body. -/
theorem misses_ran (e : Engine) (id : NodeId) {f : Node → Node}
    (same : ∀ node, (f node).inputs = node.inputs) :
    Misses [] e ((e.modifyNode id f).count Statistics.evaluation) :=
  (misses_modifyNode e id same).trans (misses_count (e.modifyNode id f) fun _ => rfl)

/-- The pure wiring has no cycle, and misses are counted in an epoch that stamps are told by. -/
structure Orderly (e : Engine) : Prop where
  acyclic : e.graph.Acyclic
  nonneg : 0 ≤ e.epoch.number
  collects : e.config.collectStatistics = true

theorem Orderly.of_still (h : e.Orderly) (frame : e'.graph.frame = e.graph.frame)
    (still : e'.still = e.still) : e'.Orderly where
  acyclic := Graph.acyclic_of_frame_eq frame.symm h.acyclic
  nonneg := by
    have epoch := congrArg Engine.epoch still
    rw [show e'.epoch = e.epoch from epoch]
    exact h.nonneg
  collects := by
    have config := congrArg Engine.config still
    rw [show e'.config = e.config from config]
    exact h.collects

/-- The input that was missed is current once it was read. -/
theorem cached_store {addr : InputAddr} {input : Input} (e : Engine)
    (found : e.graph.input? addr = some input) (linked : input.source.isSome)
    (nonneg : 0 ≤ e.epoch.number) (value : Value) (other : InputAddr) :
    (e.store addr value).Cached other ↔ e.Cached other ∨ other = addr := by
  unfold Cached
  rw [input?_store, show (e.store addr value).epoch = e.epoch from rfl]
  by_cases same : addr = other
  · subst same
    simp [found, Input.store, linked, Epoch.isCurrent_number nonneg]
  · simp [same, Ne.symm same]

/-- Reading an input that is not current misses it, after what its source needs. -/
theorem Misses.read {missed : List InputAddr} {addr : InputAddr} {input : Input}
    (refreshed : Misses missed (e.count Statistics.miss) e') (apart : addr ∉ missed)
    (collects : e.config.collectStatistics = true) (stale : ¬ e.Cached addr)
    (found : e'.graph.input? addr = some input) (linked : input.source.isSome)
    (nonneg : 0 ≤ e'.epoch.number) (value : Value) :
    Misses (addr :: missed) e (e'.store addr value) := by
  have before (other : InputAddr) : (e.count Statistics.miss).Cached other ↔ e.Cached other :=
    cached_congr (epoch_count e _) (by rw [graph_count])
  refine ⟨List.nodup_cons.mpr ⟨apart, refreshed.nodup⟩, ?_, ?_, fun other => ?_⟩
  · have counted : (e.count Statistics.miss).statistics.misses = e.statistics.misses + 1 := by
      rw [Engine.count, if_pos collects]
      rfl
    have count := refreshed.count
    show e'.statistics.misses = _
    rw [List.length_cons]
    omega
  · intro other member
    rcases List.mem_cons.mp member with rfl | member
    · exact stale
    · rw [← before other]
      exact refreshed.stale other member
  · rw [cached_store e' found linked nonneg, refreshed.cached, before, List.mem_cons, or_assoc,
      or_comm (a := other ∈ missed)]

section Pulls

variable {locals : Locals}

mutual

/-- A read misses no input twice: its own at most once, and others only above its source. -/
theorem Reads.misses {depth : Nat} {addr : InputAddr} {e e' : Engine} {value : Value}
    (h : Reads locals depth addr e value e') (orderly : e.Orderly) :
    ∃ missed, Misses missed e e' ∧ ∀ other ∈ missed, other = addr ∨
      ∃ source, e.graph.source? addr = some source ∧ e.graph.Upstream other.node source.node := by
  match h with
  | .absent _ | .unlinked _ _ => exact ⟨[], .of_eq rfl rfl fun _ => rfl, nofun⟩
  | .cached _ _ _ => exact ⟨[], misses_count e fun _ => rfl, nofun⟩
  | @Reads.pulled _ _ _ _ e₁ input source found linked stale refreshes =>
    have link := Graph.source?_eq_some_iff.mpr ⟨_, found, linked⟩
    have pulled := refreshes.respects pulled_relation
    have frame : e₁.graph.frame = e.graph.frame := pulled.frame.trans (by rw [graph_count])
    have still : e₁.still = e.still := pulled.still.trans (still_count e _)
    obtain ⟨missed, refreshed, above⟩ :=
      refreshes.misses (orderly.of_still (by rw [graph_count]) (still_count e _))
    rw [graph_count] at above
    -- Where the input itself was read on the way, its node would lie above its own source.
    have apart : addr ∉ missed := by
      intro member
      have up := above addr member
      obtain ⟨kind, pure⟩ := Option.isSome_iff_exists.mp up.1
      obtain ⟨kind', pure'⟩ := Option.isSome_iff_exists.mp up.isSome_pureKind?
      have back := Graph.feeds_of_source link pure' pure
      exact orderly.acyclic addr.node (Relation.TransGen.tail' up.2 back)
    have kept := Graph.map_input?_eq_of_frame_eq frame addr
    rw [found] at kept
    obtain ⟨input', found', same⟩ := Option.map_eq_some_iff.mp kept
    have source : input'.source = input.source := by
      have kept := congrArg Input.source same
      exact kept
    have unread : ¬ e.Cached addr := by
      rintro ⟨other, place, _, now⟩
      obtain rfl := Option.some.inj (found.symm.trans place)
      simp [stale] at now
    refine ⟨addr :: missed, refreshed.read apart orderly.collects unread found'
      (by rw [source, linked]; rfl) (orderly.of_still frame still).nonneg _, fun other member => ?_⟩
    rcases List.mem_cons.mp member with rfl | member
    · exact .inl rfl
    · exact .inr ⟨_, link, above other member⟩

theorem ReadsEach.misses {depth : Nat} {id : NodeId} {ports : List PortId} {e e' : Engine}
    {values : PortId → Value} (h : ReadsEach locals depth id ports e values e')
    (orderly : e.Orderly) :
    ∃ missed, Misses missed e e' ∧ ∀ other ∈ missed, other.node = id ∨ ∃ port source,
      e.graph.source? ⟨id, port⟩ = some source ∧ e.graph.Upstream other.node source.node := by
  match h with
  | .nil => exact ⟨[], .of_eq rfl rfl fun _ => rfl, nofun⟩
  | @ReadsEach.cons _ _ _ port _ _ e₁ _ _ _ first others =>
    have pulled := first.respects pulled_relation
    obtain ⟨missed, read, above⟩ := first.misses orderly
    obtain ⟨later, reads, above'⟩ := others.misses (orderly.of_still pulled.frame pulled.still)
    refine ⟨missed ++ later, read.trans reads, fun other member => ?_⟩
    rcases List.mem_append.mp member with member | member
    · rcases above other member with rfl | ⟨source, link, up⟩
      · exact .inl rfl
      · exact .inr ⟨port, source, link, up⟩
    · rcases above' other member with same | ⟨port, source, link, up⟩
      · exact .inl same
      · rw [Graph.source?_eq_of_frame_eq pulled.frame] at link
        exact .inr ⟨port, source, link, (Graph.upstream_congr pulled.frame).mp up⟩

/-- Bringing a node up to date misses inputs of nodes upstream only. -/
theorem Refreshes.misses {depth : Nat} {id : NodeId} {e e' : Engine}
    (h : Refreshes locals depth id e e') (orderly : e.Orderly) :
    ∃ missed, Misses missed e e' ∧ ∀ other ∈ missed, e.graph.Upstream other.node id := by
  match h with
  | .impure _ | .current _ _ _ => exact ⟨[], .of_eq rfl rfl fun _ => rfl, nofun⟩
  | .cycle _ _ _ _ =>
    have logged (event : Event) : Misses [] e (e.log event) := .of_eq rfl rfl fun _ => rfl
    exact ⟨[], (logged _).trans (misses_count (e.log _) fun _ => rfl), nofun⟩
  | .computed found pure _ _ computes =>
    exact computes.misses (Graph.pureKind?_eq_some found pure) orderly

theorem Computes.misses {depth : Nat} {id : NodeId} {kind : PureKind} {e e' : Engine}
    (h : Computes locals depth id kind e e') (pure : e.graph.pureKind? id = some kind)
    (orderly : e.Orderly) :
    ∃ missed, Misses missed e e' ∧ ∀ other ∈ missed, e.graph.Upstream other.node id := by
  match h with
  | @Computes.operate _ _ _ _ _ e₁ _ reads =>
    have marked : (e.beginComputing id).graph.frame = e.graph.frame := erase_beginComputing _ e id
    obtain ⟨missed, read, above⟩ := reads.misses (orderly.of_still marked rfl)
    have begun : Misses [] e (e.beginComputing id) := misses_modifyNode e id fun _ => rfl
    have done (value : Value) : Misses [] e₁ (e₁.finishComputing id value) :=
      misses_ran e₁ id fun _ => rfl
    have all (value : Value) : Misses missed e (e₁.finishComputing id value) := by
      simpa using (begun.trans read).trans (done value)
    have isPure : (e.graph.pureKind? id).isSome := by rw [pure]; rfl
    refine ⟨missed, all _, fun other member => ?_⟩
    rcases above other member with same | ⟨port, source, link, up⟩
    · rw [same]
      exact Graph.upstream_self isPure
    · rw [Graph.source?_eq_of_frame_eq marked] at link
      exact ((Graph.upstream_congr marked).mp up).of_source link isPure

end

end Pulls

/-- While the pure wiring has no cycle, a move that neither opens an epoch nor makes anything stale
misses no input twice. -/
theorem Moves.misses {move : Move} (h : e.Moves move e') (lingers : move.Lingers)
    (orderly : e.Orderly) : ∃ missed, Misses missed e e' := by
  cases h with
  | opens | invalidates | connects _ | disconnects _ | sets _ | resets => cases lingers
  | reads locals addr =>
    obtain ⟨missed, misses, _⟩ := (reads_read locals e addr).misses orderly
    exact ⟨missed, misses⟩
  | refreshes locals id =>
    obtain ⟨missed, misses, _⟩ := (refreshes_refresh locals e id).misses orderly
    exact ⟨missed, misses⟩
  | computes locals found pure idle =>
    have isPure := Graph.pureKind?_eq_some found pure
    obtain ⟨missed, misses, _⟩ := (computes_compute locals e isPure
      (by simp [Graph.activity?, found, idle])).misses isPure orderly
    exact ⟨missed, misses⟩
  | writes addr value => exact ⟨[], misses_modifyNode e _ fun _ => rfl⟩
  | steps there => exact ⟨[], misses_ran e _ fun _ => rfl⟩
  | serves _ _ | beside _ _ _ | configures _ => exact ⟨[], .of_eq rfl rfl fun _ => rfl⟩
  | adds node =>
    refine ⟨[], .of_cached rfl fun addr => ?_⟩
    by_cases new : addr.node = e.graph.size
    · obtain ⟨id, port⟩ := addr
      subst new
      have absent : e.graph.input? ⟨e.graph.size, port⟩ = none := by
        cases found : e.graph.input? ⟨e.graph.size, port⟩ with
        | none => rfl
        | some input =>
          obtain ⟨node, place, _⟩ := Graph.input?_eq_some_iff.mp found
          exact absurd (Graph.lt_size_of_node? place) (Nat.lt_irrefl _)
      have added : (e.addNode node).2.graph.input? ⟨e.graph.size, port⟩ =
          node.inputs[port]?.map Input.unlink := Graph.input?_add_self e.graph node port
      simp only [Cached, absent, added, Option.map_eq_some_iff]
      constructor
      · rintro ⟨_, ⟨input, _, rfl⟩, linked, _⟩
        cases linked
      · rintro ⟨_, ⟨⟩, _⟩
    · exact cached_congr rfl (Graph.input?_add_of_ne new node)

/-- Only links close or open cycles. -/
theorem Moves.acyclic {move : Move} (h : e.Moves move e') (lingers : move.Lingers)
    (acyclic : e'.graph.Acyclic) : e.graph.Acyclic := by
  cases h with
  | opens | invalidates | connects _ | disconnects _ | sets _ | resets => cases lingers
  | reads locals addr =>
    exact Graph.acyclic_of_frame_eq (pulled_read locals addr e).frame acyclic
  | refreshes locals id =>
    exact Graph.acyclic_of_frame_eq (pulled_refresh locals id e).frame acyclic
  | computes locals found pure idle =>
    have pulled := pulled_relation.computeWithin locals e.graph.size found pure idle
    exact Graph.acyclic_of_frame_eq pulled.frame acyclic
  | writes addr value =>
    refine Graph.acyclic_of_frame_eq ?_ acyclic
    exact Graph.erase_modifyNode fun _ _ => Node.erase_write rfl _ _
  | steps there =>
    refine Graph.acyclic_of_frame_eq ?_ acyclic
    rw [graph_count]
    exact Graph.erase_modifyNode fun _ _ => rfl
  | serves _ _ | beside _ _ _ | configures _ => exact acyclic
  | adds node => exact Graph.acyclic_of_add acyclic

section Courses

variable {moves : List Move}

theorem Course.acyclic (h : e.Course moves e') (lingers : ∀ move ∈ moves, move.Lingers)
    (acyclic : e'.graph.Acyclic) : e.graph.Acyclic := by
  induction h with
  | nil => exact acyclic
  | cons one _ ih =>
    have rest := ih (fun other member => lingers other (List.mem_cons_of_mem _ member)) acyclic
    exact one.acyclic (lingers _ List.mem_cons_self) rest

/-- While the pure wiring has no cycle, a course within one epoch misses every connected input at
most once: the misses are as many as the inputs that become current. -/
theorem Course.misses (h : e.Course moves e') (lingers : ∀ move ∈ moves, move.Lingers)
    (acyclic : e'.graph.Acyclic) (nonneg : 0 ≤ e.epoch.number)
    (collects : e.config.collectStatistics = true) : ∃ missed, Misses missed e e' := by
  induction h with
  | nil e => exact ⟨[], .of_eq rfl rfl fun _ => rfl⟩
  | cons one rest ih =>
    have first := lingers _ List.mem_cons_self
    have others := fun other member => lingers other (List.mem_cons_of_mem _ member)
    have opened := one.acyclic first (rest.acyclic others acyclic)
    obtain ⟨missed, misses⟩ := one.misses first ⟨opened, nonneg, collects⟩
    have epoch := (one.epoch_eq first.ne_opens).2
    obtain ⟨later, misses'⟩ := ih others acyclic (by rwa [epoch])
      (one.counted first.counts collects).1
    exact ⟨missed ++ later, misses.trans misses'⟩

end Courses

end Engine

end NodeGraph
