import NodeGraph.Proofs.Engine.Alike

/-!
# Settings and records

What an engine counts and journals, and whether it does so, is its record. No operation looks at it
(`Engine.Blind`): without their records, the engine after an operation and the one after the same
operation on an engine without a record are the same. So engines that differ in their records only
(`Engine.Reconfigured`) give equal answers and keep differing in their records only.
-/

namespace NodeGraph

namespace Engine

/-- The engine without its settings, counts and journal. -/
def unrecorded (e : Engine) : Engine := { e with config := {}, statistics := {}, journal := #[] }

/-- An operation that takes no notice of settings, counts and journal. -/
def Blind (act : Engine → Engine) : Prop := ∀ e, (act e).unrecorded = (act e.unrecorded).unrecorded

section Blind

theorem Blind.comp {act act' : Engine → Engine} (blind' : Blind act') (blind : Blind act) :
    Blind fun e => act' (act e) := by
  intro e
  calc (act' (act e)).unrecorded
      = (act' (act e).unrecorded).unrecorded := blind' (act e)
    _ = (act' (act e.unrecorded).unrecorded).unrecorded := by rw [blind e]
    _ = (act' (act e.unrecorded)).unrecorded := (blind' (act e.unrecorded)).symm

@[simp]
theorem unrecorded_count (e : Engine) (update : Statistics → Statistics) :
    (e.count update).unrecorded = e.unrecorded := by
  unfold count
  split <;> rfl

theorem blind_count (update : Statistics → Statistics) : Blind fun e => e.count update := by
  intro e
  rw [unrecorded_count, unrecorded_count]
  rfl

theorem blind_log (event : Event) : Blind fun e => e.log event := fun _ => rfl

theorem blind_modifyNode (id : NodeId) (f : Node → Node) : Blind fun e => e.modifyNode id f :=
  fun _ => rfl

/-- What is journaled about an invalidation is a record too. -/
theorem blind_invalidate : Blind invalidate := by
  have cleared : Blind fun e => { e with graph := e.graph.invalidate, serves := none } :=
    fun _ => rfl
  intro e
  exact (blind_count Statistics.invalidation).comp cleared e

theorem blind_openEpoch : Blind openEpoch := by
  intro e
  have begins : e.unrecorded.epoch.advance e.unrecorded.lastEpoch = e.epoch.advance e.lastEpoch :=
    rfl
  unfold openEpoch
  rw [begins]
  generalize e.epoch.advance e.lastEpoch = advanced
  obtain ⟨kind, epoch⟩ := advanced
  cases kind with
  | stepped => rfl
  | wrapped =>
    have moved : Blind fun e => { e with epoch } := fun _ => rfl
    exact blind_invalidate.comp ((blind_count Statistics.wrap).comp
      ((blind_log .epochWrapped).comp moved)) e

theorem blind_serve (context : Nat) : Blind fun e => e.serve context := by
  intro e
  have serves : e.unrecorded.serves = e.serves := rfl
  dsimp only [serve]
  rw [serves]
  cases e.serves with
  | none => rfl
  | some other =>
    dsimp only
    split
    · rfl
    · have named : Blind fun e => { e with serves := some context } := fun _ => rfl
      exact (named.comp (blind_openEpoch.comp (blind_log (.contextChanged e.epoch.number)))) e

end Blind

/-- The second engine differs from the first one in its settings, counts and journal at most. -/
def Reconfigured (e e' : Engine) : Prop := e'.unrecorded = e.unrecorded

namespace Reconfigured

variable {e e' : Engine}

theorem act (h : Reconfigured e e') {act : Engine → Engine} (blind : Blind act) :
    Reconfigured (act e) (act e') := by
  unfold Reconfigured
  rw [blind e, blind e', h]

variable (h : Reconfigured e e')

include h

theorem graph : e'.graph = e.graph := by
  have same := congrArg Engine.graph h
  exact same

theorem epoch : e'.epoch = e.epoch := by
  have same := congrArg Engine.epoch h
  exact same

theorem marker : e'.marker = e.marker := by
  have same := congrArg Engine.marker h
  exact same

theorem context : e'.context = e.context := by
  have same := congrArg Engine.context h
  exact same

theorem withGraph (g : Graph) : Reconfigured { e with graph := g } { e' with graph := g } := by
  have same := congrArg (fun f : Engine => { f with graph := g }) h
  exact same

end Reconfigured

/-- A pull takes no notice of the record. -/
theorem reconfigured_pair (locals : Locals) :
    PullPair False locals locals Reconfigured (fun _ v v' => v' = v) (fun _ v v' => v' = v) :=
  .of_same_graph locals (fun h => h.graph) (fun h => h.epoch)
    (fun id f h => h.act (blind_modifyNode id f)) (fun event h => h.act (blind_log event))
    fun update h => h.act (blind_count update)

namespace Reconfigured

variable {e e' : Engine}

theorem read (h : Reconfigured e e') (locals : Locals) (addr : InputAddr) :
    (e'.read locals addr).1 = (e.read locals addr).1 ∧
      Reconfigured (e.read locals addr).2 (e'.read locals addr).2 :=
  (reconfigured_pair locals).read (fun _ => 0) addr h (congrArg Graph.size h.graph) False.elim

theorem refresh (h : Reconfigured e e') (locals : Locals) (id : NodeId) :
    Reconfigured (e.refresh locals id) (e'.refresh locals id) :=
  ((reconfigured_pair locals).refresh (fun _ => 0) id h (congrArg Graph.size h.graph)
    False.elim).1

theorem compute (h : Reconfigured e e') (locals : Locals) {id : NodeId} {kind : PureKind}
    (pure : e.graph.pureKind? id = some kind) (quiet : e.graph.Quiet) :
    Reconfigured (e.compute locals e.graph.size id kind)
      (e'.compute locals e'.graph.size id kind) := by
  rw [h.graph]
  exact ((reconfigured_pair locals).compute (fun _ => 0) e.graph.size h pure (quiet id)
    False.elim).1

theorem outputValue_eq (h : Reconfigured e e') (addr : OutputAddr) :
    e'.outputValue addr = e.outputValue addr := by
  unfold Engine.outputValue
  rw [h.graph]

variable (h : Reconfigured e e')

include h

theorem getValue (addr : InputAddr) (context : Context) :
    (e'.getValue addr context).1 = (e.getValue addr context).1 ∧
      Reconfigured (e.getValue addr context).2 (e'.getValue addr context).2 := by
  unfold Engine.getValue
  rw [h.graph]
  cases e.graph.input addr with
  | error fault => exact ⟨rfl, h⟩
  | ok _ =>
    obtain ⟨value, after⟩ := (h.act (blind_serve context.id)).read context.locals addr
    exact ⟨congrArg Except.ok value, after⟩

theorem pullOutput (addr : OutputAddr) (context : Context) :
    (e'.pullOutput addr context).1 = (e.pullOutput addr context).1 ∧
      Reconfigured (e.pullOutput addr context).2 (e'.pullOutput addr context).2 := by
  unfold Engine.pullOutput
  rw [h.outputValue_eq]
  cases e.outputValue addr with
  | error fault => exact ⟨rfl, h⟩
  | ok _ =>
    have after := (h.act (blind_serve context.id)).refresh context.locals addr.node
    exact ⟨after.outputValue_eq addr, after⟩

theorem getValues (addrs : List InputAddr) :
    (e'.getValues addrs).1 = (e.getValues addrs).1 ∧
      Reconfigured (e.getValues addrs).2 (e'.getValues addrs).2 := by
  refine collect_pair ?_ addrs (h.act blind_openEpoch)
  intro addr f f' same
  rw [same.context]
  exact same.getValue addr f.context

theorem pullOutputs (addrs : List OutputAddr) :
    (e'.pullOutputs addrs).1 = (e.pullOutputs addrs).1 ∧
      Reconfigured (e.pullOutputs addrs).2 (e'.pullOutputs addrs).2 := by
  refine collect_pair ?_ addrs (h.act blind_openEpoch)
  intro addr f f' same
  rw [same.context]
  exact same.pullOutput addr f.context

theorem invalidateOnce (marker : Nat) :
    (e'.invalidateOnce marker).1 = (e.invalidateOnce marker).1 ∧
      Reconfigured (e.invalidateOnce marker).2 (e'.invalidateOnce marker).2 := by
  have marked : Blind fun e => { e with marker := some marker } := fun _ => rfl
  unfold Engine.invalidateOnce
  rw [h.marker]
  split
  · exact ⟨rfl, h⟩
  · exact ⟨rfl, h.act (marked.comp blind_invalidate)⟩

theorem addNode (node : Node) : (e'.addNode node).1 = (e.addNode node).1 ∧
    Reconfigured (e.addNode node).2 (e'.addNode node).2 := by
  unfold Engine.addNode
  rw [h.graph]
  exact ⟨rfl, h.withGraph _⟩

theorem connect (link : Link) :
    ResultsAgree Reconfigured (e.connect link) (e'.connect link) := by
  unfold Engine.connect
  rw [h.graph]
  cases e.graph.connect link with
  | error fault => exact .refused fault
  | ok g => exact .done ((h.withGraph g).act blind_invalidate)

theorem disconnect (target : InputAddr) :
    ResultsAgree (AnswersAgree True Reconfigured) (e.disconnect target) (e'.disconnect target) := by
  unfold Engine.disconnect
  rw [h.graph]
  cases e.graph.disconnect target with
  | error fault => exact .refused fault
  | ok result => exact .done ⟨fun _ => rfl, (h.withGraph result.2).act blind_invalidate⟩

theorem setLiteral (addr : InputAddr) (value : Value) :
    ResultsAgree Reconfigured (e.setLiteral addr value) (e'.setLiteral addr value) := by
  unfold Engine.setLiteral
  rw [h.graph]
  cases e.graph.setLiteral addr value with
  | error fault => exact .refused fault
  | ok g => exact .done ((h.withGraph g).act blind_invalidate)

end Reconfigured

end Engine

end NodeGraph
