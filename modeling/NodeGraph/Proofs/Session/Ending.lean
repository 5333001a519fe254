import NodeGraph.Proofs.Run.Ending
import NodeGraph.Proofs.Session.Invariant

/-!
# Runs from entry nodes

Every engine records its links at both of their ends (`Engine.Reachable.records`), so what control
reaches from a node that nothing leads to is a tree. A run from there ends, unless control reaches a
loop that tests a condition; and where it reaches no loop at all, the run steps through no node
twice (`Engine.Reachable.execute_ends`).
-/

namespace NodeGraph

/-- The links of the graph are recorded at both of their ends. -/
def Engine.Recorded (e : Engine) : Prop := ∃ links, e.graph.Records links

theorem Engine.Recorded.of_frame_eq {e e' : Engine} (recorded : e.Recorded)
    (same : e'.graph.frame = e.graph.frame) : e'.Recorded := by
  obtain ⟨links, records⟩ := recorded
  exact ⟨links, records.of_frame_eq same⟩

/-- Invalidation is no matter of the links. -/
theorem Engine.recorded_invalidate {e : Engine} {links : List Link}
    (records : e.graph.Records links) : e.invalidate.Recorded := by
  refine Engine.Recorded.of_frame_eq ⟨links, records⟩ ?_
  rw [Engine.graph_invalidate]
  exact Graph.erase_invalidate _ _

/-- Every operation keeps both ends of the links in step. -/
theorem recorded_invariant : EngineInvariant fun e => e.Valid ∧ e.Recorded where
  wellFormed h := h.1.wellFormed
  new context config := ⟨.new context config, [], Graph.records_empty⟩
  beside _ _ _ _ _ h := ⟨h.1.of_eq rfl rfl rfl, h.2⟩
  addNode h laid := by
    obtain ⟨valid, links, records⟩ := h
    exact ⟨valid.addNode laid, links, records.add _⟩
  connect h connected := by
    obtain ⟨valid, links, records⟩ := h
    refine ⟨valid.connect connected, ?_⟩
    obtain ⟨graph, changed, rfl⟩ := Engine.connect_eq_ok_iff.mp connected
    exact Engine.recorded_invalidate (records.connect changed)
  disconnect h disconnected := by
    obtain ⟨valid, links, records⟩ := h
    refine ⟨valid.disconnect disconnected, ?_⟩
    obtain ⟨graph, changed, rfl⟩ := Engine.disconnect_eq_ok_iff.mp disconnected
    obtain ⟨_, _, _, rfl⟩ := Graph.disconnect_eq_ok_iff.mp changed
    exact Engine.recorded_invalidate (records.unlink _)
  setLiteral h set := by
    obtain ⟨valid, links, records⟩ := h
    refine ⟨valid.setLiteral set, ?_⟩
    obtain ⟨graph, changed, rfl⟩ := Engine.setLiteral_eq_ok_iff.mp set
    exact Engine.recorded_invalidate (records.setLiteral changed)
  openEpoch h := ⟨h.1.openEpoch.1, h.2.of_frame_eq (Engine.erase_openEpoch _ _)⟩
  invalidate h := by
    obtain ⟨valid, links, records⟩ := h
    exact ⟨valid.invalidate, Engine.recorded_invalidate records⟩
  getValue h := ⟨h.1.getValue _ _, h.2.of_frame_eq (Engine.frame_getValue _ _ _)⟩
  pullOutput h := ⟨h.1.pullOutput _ _, h.2.of_frame_eq (Engine.frame_pullOutput _ _ _)⟩
  execute h executed := by
    obtain ⟨valid, works⟩ := Machine.works_execute h.1 executed
    exact ⟨valid, h.2.of_frame_eq works.frame⟩

theorem Engine.Reachable.records {e : Engine} (reachable : e.Reachable) :
    ∃ links, e.graph.Records links := (reachable.holds recorded_invariant).2

/-- What control reaches from an entry node is a tree. -/
theorem Graph.WellFormed.tree {g : Graph} (wf : g.WellFormed) {root : NodeId}
    (entry : g.Entry root) : g.Tree root := ⟨entry, wf.flows_unique⟩

theorem Graph.lt_size_of_leads {g : Graph} {root id : NodeId} (there : root < g.size)
    (leads : g.Leads root id) : id < g.size := by
  cases leads with
  | refl => exact there
  | tail _ flows => exact flows.lt_size

/-- A run from an entry node ends, whatever the loops that it comes to count and however the data is
wired, unless control can come to a loop that tests a condition. If it can come to no loop, no node
makes two steps; so there are at most as many steps as nodes. -/
theorem Engine.Reachable.execute_ends {e : Engine} (reachable : e.Reachable) {start : NodeId}
    (there : (e.graph.node? start).isSome) (entry : e.graph.Entry start)
    (counts : ∀ id, e.graph.Leads start id → e.graph.kind? id ≠ some (.control .whileLoop) ∧
      e.graph.kind? id ≠ some (.control .doWhile)) (context : Context) :
    (∃ limit last m', Machine.execute limit ⟨e, context⟩ start = some (.ok last, m')) ∧
    ((∀ id, e.graph.Leads start id → e.graph.kind? id ≠ some (.control .forLoop)) →
      (∃ last m', Machine.execute e.graph.size ⟨e, context⟩ start = some (.ok last, m')) ∧
      ∀ limit, ((Run.visits limit (Run.start ⟨e, context⟩ start)).map Visit.node).Nodup ∧
        (Run.visits limit (Run.start ⟨e, context⟩ start)).length ≤ e.graph.size) := by
  obtain ⟨links, records⟩ := reachable.records
  have wf := reachable.valid.wellFormed
  have tree := wf.tree entry
  have found := Option.isSome_iff_exists.mp there
  have on : Machine.On e.graph ⟨e, context⟩ := ⟨reachable.valid, rfl⟩
  obtain ⟨steps, last, m', completes, _⟩ :=
    Machine.ends_enter records wf tree .refl counts ⟨e, context⟩ on
  obtain ⟨whole, visited⟩ := Machine.execute_of_le found completes (Nat.le_refl _)
  refine ⟨⟨steps.length, last, m', whole⟩, fun straight => ?_⟩
  obtain ⟨_, once, led⟩ :=
    Machine.visits_once records wf tree counts straight completes on .refl rfl
  have within : steps.map Visit.node ⊆ List.range e.graph.size := by
    intro id member
    obtain ⟨node, place⟩ := found
    exact List.mem_range.mpr
      (Graph.lt_size_of_leads (Graph.lt_size_of_node? place) (led id member))
  have fewer : steps.length ≤ e.graph.size := by
    simpa using (once.subperm within).length_le
  refine ⟨⟨last, m', (Machine.execute_of_le found completes fewer).1⟩, fun limit => ?_⟩
  have made := Run.visits_prefix (Nat.le_max_left limit steps.length) (Run.start ⟨e, context⟩ start)
  rw [(Machine.execute_of_le found completes (Nat.le_max_right _ _)).2] at made
  exact ⟨once.sublist (made.sublist.map _), made.length_le.trans fewer⟩

/-- Prints three indices from its start node, and two lines from another print node. -/
def countdown : List Command :=
  [.openSheet .engine {}, .add (Node.ofKind (.action .start)),
    .add ((Node.ofKind (.control .forLoop)).withLiteral Layout.ForLoop.finish (.int 3)),
    .add (Node.ofKind (.action .print)), .add (Node.ofKind (.action .print)),
    .add (Node.ofKind (.action .print)), .connect ⟨⟨0, 0⟩, ⟨1, 0⟩⟩,
    .connect ⟨⟨1, Layout.ForLoop.body⟩, ⟨2, 0⟩⟩, .connect ⟨⟨1, Layout.ForLoop.index⟩, ⟨2, 1⟩⟩,
    .connect ⟨⟨3, 0⟩, ⟨4, 0⟩⟩]

/-- The run from the start node ends, and the other one does not pass through the loop. -/
theorem Engine.execute_ends_countdown : (built countdown).Reachable ∧
    (built countdown).graph.Entry 0 ∧ (built countdown).graph.Entry 3 ∧ ∀ context,
      (∃ limit last m', Machine.execute limit ⟨built countdown, context⟩ 0 =
        some (.ok last, m')) ∧
      ∃ last m', Machine.execute 5 ⟨built countdown, context⟩ 3 = some (.ok last, m') := by
  have reachable := @reachable_built countdown (by decide +kernel) (by decide +kernel)
  have wf := reachable.valid.wellFormed
  have size : (built countdown).graph.size = 5 := by decide +kernel
  have entry : (built countdown).graph.Entry 0 := by decide +kernel
  have entry' : (built countdown).graph.Entry 3 := by decide +kernel
  have there : ((built countdown).graph.node? 0).isSome := by decide +kernel
  have there' : ((built countdown).graph.node? 3).isSome := by decide +kernel
  have kinds {id} {kind : NodeKind} (found : (built countdown).graph.kind? id = some kind) :
      id < 5 := by
    obtain ⟨node, place, _⟩ := Option.map_eq_some_iff.mp found
    exact size ▸ Graph.lt_size_of_node? place
  have unconditional : ∀ id < 5,
      (built countdown).graph.kind? id ≠ some (.control .whileLoop) ∧
        (built countdown).graph.kind? id ≠ some (.control .doWhile) := by
    decide +kernel
  have ascending : ∀ a < 5, ∀ b < 5, (built countdown).graph.Flows a b → a < b := by
    decide +kernel
  have straight : ∀ id < 5, 3 ≤ id →
      (built countdown).graph.kind? id ≠ some (.control .forLoop) := by
    decide +kernel
  have counts (id : NodeId) : (built countdown).graph.kind? id ≠ some (.control .whileLoop) ∧
      (built countdown).graph.kind? id ≠ some (.control .doWhile) :=
    ⟨fun found => (unconditional id (kinds found)).1 found,
      fun found => (unconditional id (kinds found)).2 found⟩
  have later {id} (leads : (built countdown).graph.Leads 3 id) : 3 ≤ id := by
    induction leads with
    | refl => exact Nat.le_refl 3
    | tail _ flows ih =>
      have before := ascending _ (size ▸ wf.lt_size_of_flows flows) _ (size ▸ flows.lt_size) flows
      exact ih.trans (Nat.le_of_lt before)
  refine ⟨reachable, entry, entry', fun context => ⟨?_, ?_⟩⟩
  · exact (Engine.Reachable.execute_ends reachable there entry (fun id _ => counts id) context).1
  · obtain ⟨ended, _⟩ :=
      (Engine.Reachable.execute_ends reachable there' entry' (fun id _ => counts id) context).2
        fun id leads found => straight id (kinds found) (later leads) found
    rwa [size] at ended

end NodeGraph
