import NodeGraph.Proofs.Engine.Evaluations
import NodeGraph.Proofs.Graph.Apart
import NodeGraph.Proofs.Run.Ending

/-!
# What a run may have changed

All that is still to be done in a run is at nodes that control can reach from its start
(`Run.Reaches.leads`). So a run changes those nodes and the pure nodes that are computed for them,
adds lines to what was printed, and sets only variables that a step at such a node has named
(`Run.Reaches.footprint`).
-/

namespace NodeGraph

namespace Node

@[simp]
theorem invalidate_invalidate (n : Node) : n.invalidate.invalidate = n.invalidate := by
  simp only [invalidate, Array.map_map]
  rfl

end Node

namespace Graph

variable {g : Graph} {a b : NodeId}

/-- A run from the first node may change the second: control can reach it, or it may be computed for
a node that control can reach. -/
def InReach (g : Graph) (start id : NodeId) : Prop :=
  ∃ reached, g.Leads start reached ∧ (id = reached ∨ g.PulledFor reached id)

theorem Upstream.eq_or_pulledFor (up : g.Upstream a b) : a = b ∨ g.PulledFor b a := by
  obtain ⟨pure, path⟩ := up
  cases path with
  | refl => exact .inl rfl
  | tail path fed =>
    obtain ⟨_, _, port, input, source, found, linked, rfl⟩ := feeds_iff.mp fed
    exact .inr ⟨port, source, source?_eq_some_iff.mpr ⟨input, found, linked⟩, pure, path⟩

theorem node?_invalidate (g : Graph) (id : NodeId) :
    g.invalidate.node? id = (g.node? id).map Node.invalidate := by
  rw [invalidate_eq_mapNodes, node?_mapNodes]

end Graph

/-- An epoch that is opened shows in no node but for its stamps. -/
theorem Engine.map_invalidate_openEpoch (e : Engine) (id : NodeId) :
    (e.openEpoch.graph.node? id).map Node.invalidate = (e.graph.node? id).map Node.invalidate := by
  unfold openEpoch
  generalize e.epoch.advance e.lastEpoch = advanced
  obtain ⟨kind, epoch⟩ := advanced
  cases kind with
  | stepped => rfl
  | wrapped =>
    dsimp only
    rw [graph_invalidate, Graph.node?_invalidate, graph_count, Option.map_map]
    exact congrArg (Option.map · _) (funext Node.invalidate_invalidate)

namespace Effect

theorem printed_onContext (effect : Effect) (c : Context) :
    ∃ lines, (effect.onContext c).printed = c.printed ++ lines := by
  unfold onContext
  cases effect.line with
  | none => cases effect.assign <;> exact ⟨#[], (Array.append_empty).symm⟩
  | some line => cases effect.assign <;> exact ⟨#[line], Array.push_eq_append⟩

/-- A step sets no variable but the one that it names. -/
theorem assign_of_get?_onContext {effect : Effect} {c : Context} {name : String}
    (changed : (effect.onContext c).locals.get? name ≠ c.locals.get? name) :
    ∃ value, effect.assign = some (name, value) := by
  have locals : (effect.onContext c).locals =
      effect.assign.elim c.locals fun assign => c.locals.set assign.1 assign.2 := by
    unfold onContext
    cases effect.line <;> cases effect.assign <;> rfl
  rw [locals] at changed
  cases assigned : effect.assign with
  | none =>
    rw [assigned] at changed
    exact absurd rfl changed
  | some assign =>
    obtain ⟨other, value⟩ := assign
    rw [assigned, Option.elim_some, Locals.get?_set] at changed
    split at changed
    next same => exact ⟨value, by rw [same]⟩
    next => exact absurd rfl changed

end Effect

/-- Only a node that is entered to set a variable names one, and it is the key that it has read. -/
theorem Task.Acts.setLocal_of_assign {kind? : Option NodeKind} {task : Task}
    {operand : PortId → Value} {effect : Effect} (acts : task.Acts kind? operand effect)
    {name : String} {value : Value} (assign : effect.assign = some (name, value)) :
    kind? = some (.action .setLocal) ∧ task = .enter task.node ∧
      (operand Layout.SetLocal.key).display = name := by
  have counting (frame : CountingFrame) : frame.effect.assign = none := by
    rcases frame.effect_cases with ⟨_, _, _, equal⟩ | equal <;> rw [equal]
  have condition : (conditionEffect operand).assign = none := by
    rcases conditionEffect_cases operand with equal | equal <;> rw [equal]
  cases acts with
  | @action _ kind found =>
    cases kind with
    | start => cases assign
    | print => cases assign
    | setLocal =>
      obtain ⟨named, _⟩ := Prod.mk.inj (Option.some.inj assign)
      exact ⟨found, rfl, named⟩
  | first _ _ =>
    rw [counting] at assign
    cases assign
  | skipped _ => cases assign
  | tested _ =>
    rw [condition] at assign
    cases assign
  | untested _ => cases assign
  | chosen _ => cases assign
  | counted =>
    rw [counting] at assign
    cases assign
  | retested =>
    rw [condition] at assign
    cases assign

namespace Machine

variable {m m' : Machine} {task : Task}

/-- A step changes its own node and the nodes that are computed for it. -/
theorem Performs.spares {depth : Nat} {step : Step} (h : Performs depth m task step m')
    {other : NodeId} (apart : task.node ≠ other)
    (beyond : ¬ m.engine.graph.PulledFor task.node other) :
    m'.engine.graph.node? other = m.engine.graph.node? other := by
  cases h with
  | nothing _ => rfl
  | compute work computes =>
    obtain ⟨node, found, isPure⟩ := Option.map_eq_some_iff.mp (pure_of_work work).1
    refine computes.spares (Graph.pureKind?_eq_some found isPure) fun up => ?_
    exact up.eq_or_pulledFor.elim (fun same => apart same.symm) beyond
  | @act _ effect operand e' _ reads =>
    rw [node?_acted_of_ne { m with engine := e' } apart (effect operand)]
    exact reads.spares apart.symm fun port _ source link up => beyond ⟨port, source, link, up⟩

theorem spares_perform (valid : m.engine.Valid) (task : Task) {other : NodeId}
    (apart : task.node ≠ other) (beyond : ¬ m.engine.graph.PulledFor task.node other) :
    ((m.perform task).2.engine.graph.node? other).map Node.invalidate =
      (m.engine.graph.node? other).map Node.invalidate := by
  have opened : (m.openStep task.node).engine.graph.frame = m.engine.graph.frame :=
    erase_openStep _ m task.node
  rw [← Graph.pulledFor_congr opened] at beyond
  rw [(performs_perform valid task).spares apart beyond]
  obtain ⟨journal, equal⟩ := engine_openStep m task.node
  rw [equal]
  exact Engine.map_invalidate_openEpoch m.engine other

/-- What a step does to the context, once it has read its inputs. -/
theorem context_perform (m : Machine) (task : Task) : (m.perform task).2.context = m.context ∨
    ∃ operands effect, task.work ((m.openStep task.node).kind? task.node) = .act operands effect ∧
      (m.perform task).2.context =
        (effect ((m.openStep task.node).readAll task.node operands).1).onContext m.context := by
  rw [perform_eq]
  cases work : task.work ((m.openStep task.node).kind? task.node) with
  | nothing => exact .inl rfl
  | compute kind => exact .inl rfl
  | act operands effect =>
    refine .inr ⟨operands, effect, rfl, ?_⟩
    have read := (readsEach_readAll (m.openStep task.node) task.node operands).1
    have unread : ((m.openStep task.node).readAll task.node operands).2.context = m.context := by
      rw [read]
      rfl
    exact (context_apply _ _ _).trans (congrArg (Effect.onContext _) unread)

/-- A step that changes a variable is made by a node which sets it, at its entry, and the name of the
variable is what the node has read as its key. -/
theorem setLocal_of_perform {name : String}
    (changed : (m.perform task).2.context.locals.get? name ≠ m.context.locals.get? name) :
    m.kind? task.node = some (.action .setLocal) ∧ task = .enter task.node ∧
      ((m.openStep task.node).read ⟨task.node, Layout.SetLocal.key⟩).1.display = name := by
  rcases context_perform m task with same | ⟨operands, effect, work, context⟩
  · exact absurd (by rw [same]) changed
  · rw [context] at changed
    obtain ⟨value, assign⟩ := Effect.assign_of_get?_onContext changed
    obtain ⟨kind, entered, named⟩ := (Task.acts_of_work work _).setLocal_of_assign assign
    rw [kind, entered] at work
    obtain ⟨rfl, _⟩ := Work.act.inj work
    rw [kind?_openStep] at kind
    exact ⟨kind, entered, named⟩

/-- A run from the node sets the variable: it comes to enter a node that control can reach, which
reads the name of the variable as its key. -/
def Sets (m : Machine) (start : NodeId) (name : String) : Prop :=
  ∃ m' id rest last, (Run.start m start).Reaches ⟨m', .enter id :: rest, last⟩ ∧
    m.engine.graph.Leads start id ∧ m.kind? id = some (.action .setLocal) ∧
    ((m'.openStep id).read ⟨id, Layout.SetLocal.key⟩).1.display = name

/-- What a run from a node leaves alone: every node out of its reach, but for the stamps, the lines
that were printed before, and every variable that it does not set. -/
structure Footprint (start : NodeId) (m m' : Machine) : Prop where
  node : ∀ id, ¬ m.engine.graph.InReach start id →
    (m'.engine.graph.node? id).map Node.invalidate = (m.engine.graph.node? id).map Node.invalidate
  printed : ∃ lines, m'.context.printed = m.context.printed ++ lines
  locals : ∀ name, m'.context.locals.get? name ≠ m.context.locals.get? name → m.Sets start name

end Machine

namespace Run

variable {m : Machine} {links : List Link} {start : NodeId} {r : Run}

/-- All that is still to be done in a run is at nodes that control can reach from its start. -/
theorem Reaches.leads (valid : m.engine.Valid) (records : m.engine.graph.Records links)
    (reaches : (Run.start m start).Reaches r) :
    m.Reaches r.machine ∧ ∀ task ∈ r.pending, m.engine.graph.Leads start task.node := by
  have stays := reaches.forall_pending
    (P := fun task => m.engine.graph.Leads start task.node ∧ task.Fits (m.kind? task.node))
    ⟨.refl, trivial⟩ (by
      rintro m₁ m₂ task step reached ⟨leads, fits⟩ made
      obtain ⟨valid₁, works⟩ := reached.works valid
      have on : Machine.On m.engine.graph m₁ := ⟨valid₁, works.frame⟩
      have flows := (on.following records valid.wellFormed fits made).1
      refine ⟨fun id goes => ⟨leads.tail (flows id goes), trivial⟩, ?_⟩
      rintro body frame rfl
      exact ⟨leads, reached.fits_again valid fits made⟩)
  exact ⟨stays.1, fun task member => (stays.2 task member).1⟩

/-- No stage of a run has changed anything that is out of its reach. -/
theorem Reaches.footprint (valid : m.engine.Valid) (records : m.engine.graph.Records links)
    (reaches : (Run.start m start).Reaches r) : m.Footprint start r.machine := by
  induction reaches with
  | refl =>
    exact ⟨fun _ _ => rfl, ⟨#[], Array.append_empty.symm⟩, fun _ changed => absurd rfl changed⟩
  | @advance m₁ task rest last before ih =>
    obtain ⟨reached, pending⟩ := before.leads valid records
    have leads := pending task List.mem_cons_self
    obtain ⟨valid₁, works⟩ := reached.works valid
    rw [machine_advance]
    refine ⟨fun id out => ?_, ?_, fun name changed => ?_⟩
    · refine (Machine.spares_perform valid₁ task ?_ fun pulled => ?_).trans (ih.node id out)
      · rintro rfl
        exact out ⟨_, leads, .inl rfl⟩
      · rw [Graph.pulledFor_congr works.frame] at pulled
        exact out ⟨_, leads, .inr pulled⟩
    · obtain ⟨lines, printed⟩ := ih.printed
      rcases Machine.context_perform m₁ task with same | ⟨_, _, _, context⟩
      · exact ⟨lines, by rw [same, printed]⟩
      · obtain ⟨more, printed'⟩ := Effect.printed_onContext _ m₁.context
        exact ⟨lines ++ more, by rw [context, printed', printed, Array.append_assoc]⟩
    · by_cases same : (m₁.perform task).2.context.locals.get? name = m₁.context.locals.get? name
      · rw [same] at changed
        exact ih.locals name changed
      · obtain ⟨kind, entered, named⟩ := Machine.setLocal_of_perform same
        rw [Machine.kind?_eq_of_frame_eq works.frame] at kind
        rw [entered] at before
        exact ⟨m₁, task.node, rest, last, before, leads, kind, named⟩

end Run

end NodeGraph
