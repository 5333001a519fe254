import NodeGraph.Proofs.Graph.Ports
import NodeGraph.Proofs.Run.OwnContext
import NodeGraph.Proofs.Session.Batches
import NodeGraph.Proofs.Session.Ending

/-!
# Entry points

A batch of runs from what flow outputs are linked to is a batch of runs from these nodes, and since
they all exist, it is never refused. What an action node leads to can be run like that too: the run
from the node does what its step does and then the runs from all that its flow output is linked to
(`Engine.Reachable.execute_through_outputs`). A run hands its context from branch to branch, whereas
each run of a batch takes the engine's own context and puts it back.
-/

namespace NodeGraph

/-- The engine with its context back, as the machine has left it. -/
def Machine.handBack (m : Machine) : Engine := m.engine.withContext m.context

namespace Engine

variable {e e' : Engine} {limit : Nat}

/-- The engine after the step of a node, with its own context. -/
def stepped (e : Engine) (id : NodeId) : Engine :=
  (Machine.perform ⟨e, e.context⟩ (.enter id)).2.handBack

/-- The nodes at which the runs of a batch end, one for each run. -/
def endings (limit : Nat) : List NodeId → Engine → List NodeId
  | [], _ => []
  | id :: rest, e =>
    match e.execute limit id with
    | some (.ok last, e) => last :: endings limit rest e
    | _ => []

theorem executeNodes_append (ids ids' : List NodeId) (e : Engine) :
    e.executeNodes limit (ids ++ ids') =
      match e.executeNodes limit ids with
      | some (.ok _, e) => e.executeNodes limit ids'
      | other => other := by
  induction ids generalizing e with
  | nil => rfl
  | cons id rest ih =>
    rw [List.cons_append, executeNodes, executeNodes]
    cases e.execute limit id with
    | none => rfl
    | some ended =>
      obtain ⟨result, e₁⟩ := ended
      cases result with
      | error fault => rfl
      | ok last => exact ih e₁

/-- Runs change no link, so what outputs are linked to can be looked up beforehand. -/
theorem executeOutputs_eq_executeNodes (addrs : List OutputAddr) (valid : e.Valid) :
    e.executeOutputs limit addrs = e.executeNodes limit (addrs.flatMap e.graph.successors) := by
  induction addrs generalizing e with
  | nil => rfl
  | cons addr rest ih =>
    rw [executeOutputs, List.flatMap_cons, executeNodes_append]
    cases executed : e.executeNodes limit (e.graph.successors addr) with
    | none => rfl
    | some ended =>
      obtain ⟨result, e₁⟩ := ended
      cases result with
      | error fault => rfl
      | ok _ =>
        obtain ⟨valid₁, frame⟩ := executeNodes_keeps
          (P := fun e₁ => e₁.Valid ∧ e₁.graph.frame = e.graph.frame) ⟨valid, rfl⟩
          (by
            rintro e₁ e₂ start result ⟨valid, frame⟩ executed
            obtain ⟨valid', frame', _⟩ := works_executeOwn valid executed
            exact ⟨valid', frame'.trans frame⟩) executed
        have linked := funext (Graph.successors_eq_of_frame_eq frame)
        dsimp only
        rw [ih valid₁, linked]

/-- A batch of runs from nodes that exist is not refused. -/
theorem executeNodes_ne_error {ids : List NodeId} (valid : e.Valid)
    (there : ∀ id ∈ ids, (e.graph.node? id).isSome) (fault : Fault) :
    e.executeNodes limit ids ≠ some (.error fault, e') := by
  intro executed
  have passed : e.graph.firstFault? (ids.map .node) = none := by
    refine List.findSome?_eq_none_iff.mpr ?_
    intro check member
    obtain ⟨id, listed, rfl⟩ := List.mem_map.mp member
    have found := there id listed
    rwa [← Graph.isNone_firstFault?_node, Graph.firstFault?_singleton,
      Option.isNone_iff_eq_none] at found
  obtain ⟨_, refused⟩ := (executeNodes_stops valid).mp executed
  rw [passed] at refused
  cases refused

theorem execute_eq_ok_iff {id last : NodeId} : e.execute limit id = some (.ok last, e') ↔
    ∃ m', Machine.execute limit ⟨e, e.context⟩ id = some (.ok last, m') ∧ m'.handBack = e' := by
  rw [execute, Option.map_eq_some_iff]
  constructor
  · rintro ⟨⟨result, m'⟩, executed, equal⟩
    obtain ⟨rfl, rfl⟩ := Prod.mk.inj equal
    exact ⟨m', executed, rfl⟩
  · rintro ⟨m', executed, rfl⟩
    exact ⟨_, executed, rfl⟩

end Engine

namespace Machine

variable {m m' : Machine} {limit : Nat} {id last before : NodeId} {ids : List NodeId}
  {visits : List (Visit Machine)} {e' : Engine}

/-- What the machine does from here on, its engine can do once it has the context back. -/
theorem execute_handBack (valid : m.engine.Valid) (there : (m.engine.graph.node? id).isSome)
    (completes : Machine.walker.Completes m (.enter id) visits last m')
    (le : visits.length ≤ limit) :
    m.handBack.execute limit id = some (.ok last, m'.handBack) := by
  obtain ⟨visits', length, completes'⟩ := completes_withOwn valid completes m.context
  rw [← length] at le
  have executed := execute_of_le (m := ⟨m.handBack, m.context⟩) (Option.isSome_iff_exists.mp there)
    completes' le
  exact Engine.execute_eq_ok_iff.mpr ⟨_, executed.1, rfl⟩

theorem completes_of_execute_handBack (valid : m.engine.Valid)
    (executed : m.handBack.execute limit id = some (.ok last, e')) :
    ∃ visits m', Machine.walker.Completes m (.enter id) visits last m' ∧ m'.handBack = e' := by
  obtain ⟨m', ended, rfl⟩ := Engine.execute_eq_ok_iff.mp executed
  obtain ⟨_, completes⟩ := completes_of_execute ended
  have valid' : m.handBack.Valid := valid.of_eq rfl rfl rfl
  obtain ⟨visits, _, completes'⟩ :=
    completes_withOwn (m := ⟨m.handBack, m.context⟩) valid' completes m.engine.context
  exact ⟨visits, _, completes', rfl⟩

/-- Branches that are done one after the other are a batch of runs. -/
theorem executeNodes_handBack (valid : m.engine.Valid)
    (there : ∀ id ∈ ids, (m.engine.graph.node? id).isSome)
    (each : Machine.walker.CompletesEach m ids before visits last m')
    (le : visits.length ≤ limit) :
    m.handBack.executeNodes limit ids = some (.ok (), m'.handBack) ∧
      (m.handBack.endings limit ids).getLastD before = last := by
  induction ids generalizing m before visits with
  | nil =>
    cases each
    exact ⟨rfl, rfl⟩
  | cons id rest ih =>
    cases each with
    | @cons _ m₁ _ _ _ _ ended _ first others one each =>
      rw [List.length_append] at le
      obtain ⟨valid₁, works⟩ := works_completes valid one
      have executed : m.handBack.execute limit id = some (.ok ended, m₁.handBack) :=
        execute_handBack valid (there id List.mem_cons_self) one (by omega)
      have later : ∀ id ∈ rest, (m₁.engine.graph.node? id).isSome := by
        intro other member
        rw [Graph.isSome_node?_eq_of_frame_eq works.frame]
        exact there other (List.mem_cons_of_mem id member)
      obtain ⟨batch, ending⟩ := ih valid₁ later each (by omega)
      rw [Engine.executeNodes, Engine.endings, executed]
      refine ⟨batch, ?_⟩
      rw [List.getLastD_cons]
      exact ending

theorem completesEach_of_executeNodes (valid : m.engine.Valid)
    (executed : m.handBack.executeNodes limit ids = some (.ok (), e')) (before : NodeId) :
    ∃ visits m', Machine.walker.CompletesEach m ids before visits
      ((m.handBack.endings limit ids).getLastD before) m' ∧ m'.handBack = e' := by
  induction ids generalizing m before with
  | nil =>
    obtain ⟨-, rfl⟩ := Prod.mk.inj (Option.some.inj executed)
    exact ⟨[], m, .nil, rfl⟩
  | cons id rest ih =>
    unfold Engine.executeNodes at executed
    split at executed
    · cases executed
    · cases executed
    next last e₁ ended =>
      obtain ⟨first, m₁, one, rfl⟩ := completes_of_execute_handBack valid ended
      obtain ⟨valid₁, _⟩ := works_completes valid one
      obtain ⟨others, m', each, rfl⟩ := ih valid₁ executed last
      rw [Engine.endings, ended]
      dsimp only
      rw [List.getLastD_cons]
      exact ⟨first ++ others, m', .cons one each, rfl⟩

end Machine

namespace Engine

variable {e : Engine}

/-- A run from a node that exists ends as the recursion says. -/
theorem exists_execute_iff {id last : NodeId} {e' : Engine} (there : (e.graph.node? id).isSome) :
    (∃ limit, e.execute limit id = some (.ok last, e')) ↔
      ∃ visits m', Machine.walker.Completes ⟨e, e.context⟩ (.enter id) visits last m' ∧
        m'.handBack = e' := by
  constructor
  · rintro ⟨limit, executed⟩
    obtain ⟨m', ended, handed⟩ := execute_eq_ok_iff.mp executed
    exact ⟨_, m', (Machine.completes_of_execute ended).2, handed⟩
  · rintro ⟨visits, m', completes, handed⟩
    obtain ⟨limit, executed, _⟩ := Machine.execute_of_completes
      (m := ⟨e, e.context⟩) (Option.isSome_iff_exists.mp there) completes
    exact ⟨limit, execute_eq_ok_iff.mpr ⟨m', executed, handed⟩⟩

/-- An action node leads on from its flow output. -/
theorem step_action {id : NodeId} {kind : ActionKind}
    (found : e.graph.kind? id = some (.action kind)) :
    (Machine.perform ⟨e, e.context⟩ (.enter id)).1 = .follow [Layout.flowOut] := by
  have opened : (Machine.openStep ⟨e, e.context⟩ id).kind? id = some (.action kind) :=
    (Machine.kind?_openStep ⟨e, e.context⟩ id id).trans found
  have leads (operand) : (kind.effect operand).step = .follow [Layout.flowOut] := by
    cases kind <;> rfl
  rw [Machine.perform_eq]
  dsimp only [Task.node]
  rw [opened]
  exact leads _

/-- The step of a node changes no link. -/
theorem works_stepped (valid : e.Valid) (id : NodeId) :
    (e.stepped id).Valid ∧ (e.stepped id).graph.frame = e.graph.frame := by
  obtain ⟨ready, works⟩ := Machine.works_perform (m := ⟨e, e.context⟩) valid (.enter id)
  unfold stepped
  generalize Machine.perform ⟨e, e.context⟩ (.enter id) = performed at ready works ⊢
  exact ⟨ready.valid.of_eq rfl rfl rfl, works.frame⟩

/-- A run from an action node does the step of the node and then what all that follows does. -/
theorem execute_action {id last : NodeId} {kind : ActionKind} {links : List Link} {e' : Engine}
    (valid : e.Valid) (records : e.graph.Records links)
    (found : e.graph.kind? id = some (.action kind)) :
    (∃ limit, e.execute limit id = some (.ok last, e')) ↔
      ∃ limit, (e.stepped id).executeNodes limit (e.graph.successors ⟨id, Layout.flowOut⟩) =
          some (.ok (), e') ∧
        ((e.stepped id).endings limit (e.graph.successors ⟨id, Layout.flowOut⟩)).getLastD id =
          last := by
  obtain ⟨node, place, _⟩ := Option.map_eq_some_iff.mp found
  have there : (e.graph.node? id).isSome := by
    rw [place, Option.isSome_some]
  have step := step_action found
  obtain ⟨ready, works⟩ := Machine.works_perform (m := ⟨e, e.context⟩) valid (.enter id)
  unfold stepped
  generalize stepped : Machine.perform ⟨e, e.context⟩ (.enter id) = performed at step ready works ⊢
  obtain ⟨_, m₁⟩ := performed
  obtain rfl := step
  have made : Machine.walker.perform ⟨e, e.context⟩ (.enter id) =
    (.follow [Layout.flowOut], m₁) := stepped
  have linked : Machine.walker.following m₁ id [Layout.flowOut] =
      e.graph.successors ⟨id, Layout.flowOut⟩ := by
    rw [Machine.walker_following, Machine.following, List.flatMap_singleton]
    exact Graph.successors_eq_of_frame_eq works.frame _
  constructor
  · intro ends
    obtain ⟨visits, m', completes, rfl⟩ := (exists_execute_iff there).mp ends
    obtain ⟨others, rfl, each⟩ := (Walker.completes_iff_of_follows made).mp completes
    dsimp only [Task.node] at each
    rw [linked] at each
    have exist : ∀ other ∈ e.graph.successors ⟨id, Layout.flowOut⟩,
        (m₁.engine.graph.node? other).isSome := by
      intro other follows
      rw [Graph.isSome_node?_eq_of_frame_eq works.frame]
      exact records.isSome_successor follows
    exact ⟨others.length,
      Machine.executeNodes_handBack ready.valid exist each (Nat.le_refl _)⟩
  · rintro ⟨limit, executed, rfl⟩
    obtain ⟨others, m', each, rfl⟩ :=
      Machine.completesEach_of_executeNodes ready.valid executed id
    refine (exists_execute_iff there).mpr
      ⟨_, m', (Walker.completes_iff_of_follows made).mpr ⟨others, rfl, ?_⟩, rfl⟩
    dsimp only [Task.node]
    rw [linked]
    exact each

/-- Runs from what flow outputs are linked to are never refused, whether or not these outputs exist,
and are the runs from all the linked nodes in turn. A run from an action node comes to the same as
its step and then the runs from what its flow output is linked to; it ends where the last of these
ends, and at the node itself when there is none. -/
theorem Reachable.execute_through_outputs (reachable : e.Reachable) :
    (∀ limit addrs,
      e.executeOutputs limit addrs = e.executeNodes limit (addrs.flatMap e.graph.successors) ∧
        ∀ fault e', e.executeOutputs limit addrs ≠ some (.error fault, e')) ∧
    ∀ id kind, e.graph.kind? id = some (.action kind) →
      (Machine.perform ⟨e, e.context⟩ (.enter id)).1 = .follow [Layout.flowOut] ∧
      ∀ last e', (∃ limit, e.execute limit id = some (.ok last, e')) ↔
        ∃ limit, (e.stepped id).executeOutputs limit [⟨id, Layout.flowOut⟩] = some (.ok (), e') ∧
          ((e.stepped id).endings limit (e.graph.successors ⟨id, Layout.flowOut⟩)).getLastD id =
            last := by
  have valid := reachable.valid
  obtain ⟨links, records⟩ := reachable.records
  refine ⟨fun limit addrs => ⟨executeOutputs_eq_executeNodes addrs valid, ?_⟩,
    fun id kind found => ⟨step_action found, fun last e' => ?_⟩⟩
  · intro fault e'
    rw [executeOutputs_eq_executeNodes addrs valid]
    refine executeNodes_ne_error valid ?_ fault
    intro id member
    obtain ⟨addr, _, follows⟩ := List.mem_flatMap.mp member
    exact records.isSome_successor follows
  · obtain ⟨valid₁, frame⟩ := works_stepped valid id
    rw [execute_action valid records found]
    refine exists_congr fun limit => ?_
    rw [executeOutputs_eq_executeNodes _ valid₁, List.flatMap_singleton,
      Graph.successors_eq_of_frame_eq frame]

/-- Of two outputs, one of which does not exist, a node is run from. The run from the node before
ends there too. -/
theorem execute_through_outputs_countdown :
    let e := built countdown
    e.Reachable ∧ e.executeOutputs 1 [⟨3, 0⟩, ⟨9, 0⟩] = e.executeNodes 1 [4] ∧
      e.graph.kind? 3 = some (.action .print) ∧
      ∃ limit e', (e.stepped 3).executeOutputs limit [⟨3, 0⟩] = some (.ok (), e') ∧
        ((e.stepped 3).endings limit [4]).getLastD 3 = 4 := by
  intro e
  have reachable : e.Reachable := reachable_built (by decide +kernel) (by decide +kernel)
  have found : e.graph.kind? 3 = some (.action .print) := by decide +kernel
  have linked : e.graph.successors ⟨3, 0⟩ = [4] := by decide +kernel
  have missing : e.graph.successors ⟨9, 0⟩ = [] := by decide +kernel
  have ended : (e.execute 2 3).map (fun ended => ended.1.toOption) = some (some 4) := by
    decide +kernel
  obtain ⟨⟨result, e'⟩, executed, ok⟩ := Option.map_eq_some_iff.mp ended
  obtain rfl : result = .ok 4 := by
    cases result with
    | error fault => cases ok
    | ok last => exact congrArg Except.ok (Option.some.inj ok)
  obtain ⟨batches, actions⟩ := Reachable.execute_through_outputs reachable
  refine ⟨reachable, ?_, found, ?_⟩
  · have batch := (batches 1 [⟨3, 0⟩, ⟨9, 0⟩]).1
    rw [List.flatMap_cons, List.flatMap_singleton, linked, missing] at batch
    exact batch
  · obtain ⟨limit, outputs, last⟩ := ((actions 3 .print found).2 4 e').mp ⟨2, executed⟩
    have linked : e.graph.successors ⟨3, Layout.flowOut⟩ = [4] := linked
    rw [linked] at last
    exact ⟨limit, e', outputs, last⟩

end Engine

end NodeGraph
