import NodeGraph.Proofs.Engine.Epochs
import NodeGraph.Proofs.Engine.Stamps
import NodeGraph.Proofs.Graph.WellFormed

/-!
# Valid engines

What is true of an engine between two operations: its graph is well formed, nothing is being
computed, every stamp was given out by now, and where the epoch serves no context yet, nothing is
current. Every operation keeps this. A context that the epoch does not serve finds nothing current
once it is served (`Engine.fresh_serve`).
-/

namespace NodeGraph

namespace Engine

/-- The invariant of engines. -/
structure Valid (e : Engine) : Prop where
  wellFormed : e.graph.WellFormed
  quiet : e.graph.Quiet
  nonneg : 0 ≤ e.epoch.number
  issued : e.graph.Stamps e.epoch.Issued
  /-- Only reads for a context make anything current. -/
  unserved : e.serves = none → e.Fresh

/-- Whatever context the graph belongs to, and whatever is counted, journaled or asked to be
counted, the invariant holds. -/
theorem Valid.of_eq {e e' : Engine} (valid : e.Valid) (graph : e'.graph = e.graph)
    (epoch : e'.epoch = e.epoch) (serves : e'.serves = e.serves) : e'.Valid where
  wellFormed := graph ▸ valid.wellFormed
  quiet := graph ▸ valid.quiet
  nonneg := epoch ▸ valid.nonneg
  issued := by
    rw [graph, epoch]
    exact valid.issued
  unserved none := by
    unfold Fresh
    rw [graph, epoch]
    exact valid.unserved (serves ▸ none)

/-- Whatever the stamps were, after invalidation nothing is current. -/
theorem fresh_invalidate (e : Engine) : e.invalidate.Fresh := by
  unfold Fresh
  rw [graph_invalidate]
  exact Graph.stamps_invalidate (Epoch.isCurrent_stale _) _

/-- Invalidation makes an engine valid whatever the stamps in its graph are. -/
theorem valid_invalidate {e : Engine} (wf : e.graph.WellFormed) (quiet : e.graph.Quiet)
    (nonneg : 0 ≤ e.epoch.number) : e.invalidate.Valid where
  wellFormed := by
    rw [graph_invalidate]
    exact Graph.wellFormed_of_frame_eq (Graph.erase_invalidate _ _).symm wf
  quiet := by
    rw [graph_invalidate]
    exact quiet.invalidate
  nonneg := by
    rw [epoch_invalidate]
    exact nonneg
  issued := by
    rw [graph_invalidate]
    exact Graph.stamps_invalidate (Epoch.issued_stale _) _
  unserved _ := fresh_invalidate e

namespace Valid

variable {e e' : Engine}

theorem new (context : Context) (config : Config) : Valid { context, config } where
  wellFormed := Graph.wellFormed_empty
  quiet := Graph.quiet_empty
  nonneg := Int.le_refl 0
  issued := Graph.stamps_empty _
  unserved _ := Graph.stamps_empty _

theorem count (valid : e.Valid) (update : Statistics → Statistics) : (e.count update).Valid :=
  valid.of_eq (graph_count e update) (epoch_count e update) (serves_count e update)

theorem log (valid : e.Valid) (event : Event) : (e.log event).Valid := valid.of_eq rfl rfl rfl

theorem invalidate (valid : e.Valid) : e.invalidate.Valid :=
  valid_invalidate valid.wellFormed valid.quiet valid.nonneg

/-- Once a new epoch is open, nothing is current. -/
theorem openEpoch (valid : e.Valid) : e.openEpoch.Valid ∧ e.openEpoch.Fresh ∧
    e.openEpoch.serves = none := by
  have nonneg := Epoch.advance_nonneg e.epoch e.lastEpoch
  unfold Engine.openEpoch
  generalize advanced : e.epoch.advance e.lastEpoch = opened at nonneg ⊢
  obtain ⟨kind, epoch⟩ := opened
  cases kind with
  | stepped =>
    obtain rfl : ⟨e.epoch.number + 1⟩ = epoch := by
      simp only [Epoch.advance] at advanced
      split at advanced <;> simp_all
    -- A stamp that was given out by now is below the next number.
    have fresh : e.graph.Stamps fun stamp =>
        Epoch.isCurrent ⟨e.epoch.number + 1⟩ stamp = false := by
      refine valid.issued.mono ?_
      intro stamp given
      rcases given with rfl | ⟨_, past⟩
      · exact Epoch.isCurrent_stale _
      · have different : stamp ≠ e.epoch.number + 1 := by omega
        simp [Epoch.isCurrent, different]
    refine ⟨⟨valid.wellFormed, valid.quiet, nonneg, ?_, fun _ => fresh⟩, fresh, rfl⟩
    refine valid.issued.mono ?_
    intro stamp given
    rcases given with rfl | ⟨start, past⟩
    · exact Epoch.issued_stale _
    · exact .inr ⟨start, by change stamp ≤ e.epoch.number + 1; omega⟩
  | wrapped =>
    dsimp only
    generalize wrapped : (Engine.log { e with epoch } .epochWrapped).count Statistics.wrap = e'
    have graph : e'.graph = e.graph := wrapped ▸ graph_count _ _
    have valid' : e'.invalidate.Valid := by
      refine valid_invalidate (graph ▸ valid.wellFormed) (graph ▸ valid.quiet) ?_
      rw [← wrapped, epoch_count]
      exact nonneg
    exact ⟨valid', valid'.unserved (serves_invalidate e'), serves_invalidate e'⟩

theorem serve (valid : e.Valid) (context : Nat) : (e.serve context).Valid := by
  unfold Engine.serve
  split
  · refine ⟨valid.wellFormed, valid.quiet, valid.nonneg, valid.issued, ?_⟩
    intro none
    cases none
  · split
    · exact valid
    · rcases (valid.log (.contextChanged e.epoch.number)).openEpoch with ⟨opened, fresh, _⟩
      exact ⟨opened.wellFormed, opened.quiet, opened.nonneg, opened.issued, fun _ => fresh⟩

/-- A context that the epoch does not serve finds nothing current once it is served. -/
theorem fresh_serve (valid : e.Valid) {context : Nat} (other : e.serves ≠ some context) :
    (e.serve context).Fresh := by
  unfold Engine.serve
  split
  case h_1 none => exact valid.unserved none
  case h_2 served serves =>
    split
    case isTrue equal => exact absurd (equal ▸ serves) other
    case isFalse => exact (valid.log (.contextChanged e.epoch.number)).openEpoch.2.1

theorem addNode (valid : e.Valid) {node : Node} (laid : node.LaidOut) :
    (e.addNode node).2.Valid where
  wellFormed := valid.wellFormed.add laid
  quiet := valid.quiet.add node
  nonneg := valid.nonneg
  issued := valid.issued.add (Epoch.issued_stale _) node
  unserved none := (valid.unserved none).add (Epoch.isCurrent_stale _) node

theorem connect (valid : e.Valid) {link : Link} (connected : e.connect link = .ok e') :
    e'.Valid := by
  obtain ⟨graph, changed, rfl⟩ := connect_eq_ok_iff.mp connected
  exact valid_invalidate (valid.wellFormed.connect changed) (valid.quiet.connect changed)
    valid.nonneg

theorem disconnect (valid : e.Valid) {target : InputAddr} {source : Option OutputAddr}
    (disconnected : e.disconnect target = .ok (source, e')) : e'.Valid := by
  obtain ⟨graph, changed, rfl⟩ := disconnect_eq_ok_iff.mp disconnected
  exact valid_invalidate (valid.wellFormed.disconnect changed) (valid.quiet.disconnect changed)
    valid.nonneg

theorem setLiteral (valid : e.Valid) {addr : InputAddr} {value : Value}
    (set : e.setLiteral addr value = .ok e') : e'.Valid := by
  obtain ⟨graph, changed, rfl⟩ := setLiteral_eq_ok_iff.mp set
  exact valid_invalidate (valid.wellFormed.setLiteral changed) (valid.quiet.setLiteral changed)
    valid.nonneg

theorem write (valid : e.Valid) (addr : OutputAddr) (value : Value) :
    (e.write addr value).Valid where
  wellFormed := valid.wellFormed.modifyOutput fun _ => rfl
  quiet := valid.quiet.modifyOutput _ _
  nonneg := valid.nonneg
  issued := valid.issued.modifyNode fun _ stamps => stamps.modifyOutput _ _
  unserved none := (valid.unserved none).modifyNode fun _ stamps => stamps.modifyOutput _ _

theorem countEvaluation (valid : e.Valid) (id : NodeId) :
    (e.modifyNode id Node.countEvaluation).Valid where
  wellFormed := valid.wellFormed.modifyNode (fun _ laid => ⟨laid.inputs, laid.outputs⟩)
    (fun _ => rfl) fun _ _ input _ found linked => .inl ⟨input, found, linked⟩
  quiet := by
    apply valid.quiet.modifyNode
    intro node
    rfl
  nonneg := valid.nonneg
  issued := valid.issued.modifyNode fun _ stamps => ⟨stamps.node, stamps.input⟩
  unserved none := (valid.unserved none).modifyNode fun _ stamps => ⟨stamps.node, stamps.input⟩

/-- A pull for the context that is served keeps an engine valid. -/
theorem pulled (valid : e.Valid) {context : Nat} (served : e.serves = some context)
    (pulled : Pulled e e') : e'.Valid where
  wellFormed := Graph.wellFormed_of_frame_eq pulled.frame.symm valid.wellFormed
  quiet := valid.quiet.of_activity? pulled.activity
  nonneg := by
    rw [pulled.epoch]
    exact valid.nonneg
  issued := by
    rw [pulled.epoch]
    exact pulled.stamps (.inr ⟨valid.nonneg, Int.le_refl _⟩) valid.issued
  unserved none := by
    rw [pulled.serves, served] at none
    cases none

theorem getValue (valid : e.Valid) (addr : InputAddr) (context : Context) :
    (e.getValue addr context).2.Valid := by
  unfold Engine.getValue
  split
  · exact valid
  · exact (valid.serve context.id).pulled (serves_serve e context.id) (pulled_read _ _ _)

theorem pullOutput (valid : e.Valid) (addr : OutputAddr) (context : Context) :
    (e.pullOutput addr context).2.Valid := by
  unfold Engine.pullOutput
  split
  · exact valid
  · exact (valid.serve context.id).pulled (serves_serve e context.id) (pulled_refresh _ _ _)

end Valid

end Engine

end NodeGraph
