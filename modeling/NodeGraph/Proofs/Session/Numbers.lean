import NodeGraph.Proofs.Session.Invariant

/-!
# Epoch numbers and stamps

The epoch counter of an empty graph may be placed at any number it can hold, and counting on from
there never leaves that range. Every stamp in the graph is stale or one of the numbers given out so
far, and a new epoch, whether or not its number is zero again, finds no stamp current
(`Engine.Attainable.stamps_within`).
-/

namespace NodeGraph

/-- The epoch numbers of the engine are those of a counter with 64 bits. -/
structure Engine.InRange (e : Engine) : Prop where
  last : e.lastEpoch = some Epoch.lastNumber
  le : e.epoch.number ≤ Epoch.lastNumber

namespace Engine.InRange

variable {e e' : Engine}

theorem of_settings (range : e.InRange) (settings : e'.settings = e.settings)
    (le : e'.epoch.number ≤ Epoch.lastNumber) : e'.InRange := by
  have last := congrArg (·.2.1) settings
  exact ⟨last.trans range.last, le⟩

theorem of_epoch (range : e.InRange) (settings : e'.settings = e.settings)
    (epoch : e'.epoch = e.epoch) : e'.InRange := range.of_settings settings (epoch ▸ range.le)

theorem invalidate (range : e.InRange) : e.invalidate.InRange :=
  range.of_epoch (settings_invalidate e) (epoch_invalidate e)

/-- After the last number the count starts again. -/
theorem openEpoch (range : e.InRange) : e.openEpoch.InRange := by
  refine range.of_settings (settings_openEpoch e) ?_
  rw [epoch_openEpoch, range.last]
  exact Epoch.advance_le (by decide)

theorem serve (range : e.InRange) (context : Nat) : (e.serve context).InRange := by
  refine range.of_settings (settings_serve e context) ?_
  unfold Engine.serve
  split
  · exact range.le
  · split
    · exact range.le
    · have logged : (e.log (.contextChanged e.epoch.number)).InRange := ⟨range.last, range.le⟩
      exact logged.openEpoch.le

/-- A pull stays in its epoch. -/
theorem pulled (range : e.InRange) (pulled : Pulled e e') : e'.InRange :=
  range.of_epoch (settings_eq_of_still pulled.still) pulled.epoch

theorem getValue (range : e.InRange) (addr : InputAddr) (context : Context) :
    (e.getValue addr context).2.InRange := by
  unfold Engine.getValue
  split
  · exact range
  · exact (range.serve context.id).pulled (pulled_read _ _ _)

theorem pullOutput (range : e.InRange) (addr : OutputAddr) (context : Context) :
    (e.pullOutput addr context).2.InRange := by
  unfold Engine.pullOutput
  split
  · exact range
  · exact (range.serve context.id).pulled (pulled_refresh _ _ _)

end Engine.InRange

namespace Machine

variable {m : Machine}

/-- A step stays in the epoch that was opened for it. -/
theorem epoch_perform (valid : m.engine.Valid) (task : Task) :
    (m.perform task).2.engine.epoch = m.engine.openEpoch.epoch := by
  obtain ⟨journal, opened⟩ := engine_openStep m task.node
  have epoch : (m.openStep task.node).engine.epoch = m.engine.openEpoch.epoch := by rw [opened]
  rw [perform_eq, ← epoch]
  have ready := (ready_openStep valid task.node).1
  generalize m.openStep task.node = m at ready
  cases work : task.work (m.kind? task.node) with
  | nothing => rfl
  | compute kind =>
    obtain ⟨node, found, isPure⟩ := Option.map_eq_some_iff.mp (pure_of_work work).1
    exact (Engine.pulled_relation.computeWithin _ _ found isPure
      (ready.valid.quiet.idle found)).epoch
  | act operands effect =>
    have read : (m.readAll task.node operands).2.engine.epoch = m.engine.epoch := by
      refine (readAll_keeps (I := fun m' : Machine => m'.engine.epoch = m.engine.epoch)
        (fun _ _ => True) operands ?_ rfl).2
      intro port _ m' same
      exact ⟨trivial, (Engine.pulled_read _ _ _).epoch.trans same⟩
    show ((Machine.apply _ _ _).engine.modifyNode _ _ |>.count _).epoch = _
    rw [Engine.epoch_count]
    exact (epoch_apply _ _ _).trans read

theorem inRange_perform (valid : m.engine.Valid) (range : m.engine.InRange) (task : Task) :
    (m.perform task).2.engine.InRange := by
  refine range.of_settings (works_perform valid task).2.settings ?_
  rw [epoch_perform valid]
  exact range.openEpoch.le

theorem Reaches.inRange {m' : Machine} (reaches : m.Reaches m') (valid : m.engine.Valid)
    (range : m.engine.InRange) : m'.engine.InRange := by
  induction reaches with
  | refl => exact range
  | perform task reaches ih => exact inRange_perform (reaches.works valid).1 ih task

end Machine

/-- Every operation keeps the epoch numbers in range. -/
theorem inRange_invariant : EngineInvariant fun e => e.Valid ∧ e.InRange where
  wellFormed h := h.1.wellFormed
  new context config := ⟨.new context config, rfl, Int.le_of_lt (by decide : 0 < Epoch.lastNumber)⟩
  beside _ _ _ _ _ h := ⟨h.1.of_eq rfl rfl rfl, h.2.last, h.2.le⟩
  addNode h laid := ⟨h.1.addNode laid, h.2.last, h.2.le⟩
  connect h connected := by
    refine ⟨h.1.connect connected, ?_⟩
    obtain ⟨graph, _, rfl⟩ := Engine.connect_eq_ok_iff.mp connected
    exact Engine.InRange.invalidate ⟨h.2.last, h.2.le⟩
  disconnect h disconnected := by
    refine ⟨h.1.disconnect disconnected, ?_⟩
    obtain ⟨graph, _, rfl⟩ := Engine.disconnect_eq_ok_iff.mp disconnected
    exact Engine.InRange.invalidate ⟨h.2.last, h.2.le⟩
  setLiteral h set := by
    refine ⟨h.1.setLiteral set, ?_⟩
    obtain ⟨graph, _, rfl⟩ := Engine.setLiteral_eq_ok_iff.mp set
    exact Engine.InRange.invalidate ⟨h.2.last, h.2.le⟩
  openEpoch h := ⟨h.1.openEpoch.1, h.2.openEpoch⟩
  invalidate h := ⟨h.1.invalidate, h.2.invalidate⟩
  getValue h := ⟨h.1.getValue _ _, h.2.getValue _ _⟩
  pullOutput h := ⟨h.1.pullOutput _ _, h.2.pullOutput _ _⟩
  execute h executed := by
    refine Machine.execute_keeps (P := fun m => m.engine.Valid ∧ m.engine.InRange) ?_ h executed
    rintro m task ⟨valid, range⟩
    exact ⟨(Machine.works_perform valid task).1.valid, Machine.inRange_perform valid range task⟩

namespace Session

/-- The sessions that commands lead to when the epoch counters of empty graphs may be placed at any
number. -/
inductive Attainable : Session → Prop where
  | empty : Attainable {}
  | perform {s s' : Session} {limit index : Nat} {command : Command} {reply : Except Fault Reply} :
    s.Attainable → command.LaidOut → s.perform limit index command = .ok (reply, s') →
    s'.Attainable
  | takeJournal {s : Session} (index : Nat) : s.Attainable → (s.takeJournal index).2.Attainable
  | placeEpoch {s : Session} {index : Nat} {number : Int} : s.Attainable →
    (∀ e ∈ s.engine? index, e.graph.size = 0) → 0 ≤ number → number ≤ Epoch.lastNumber →
    (s.placeEpoch index number).Attainable

theorem Attainable.script {s : Session} (attainable : s.Attainable) (limit : Nat)
    {commands : List Command} (laid : ∀ command ∈ commands, command.LaidOut) :
    (s.script limit commands).Attainable :=
  script_keeps (fun attainable laid performed => attainable.perform laid performed) laid attainable

/-- A counter of a graph without nodes is placed. -/
theorem Holds.placeEpoch {s : Session} (h : s.Holds fun e => e.Valid ∧ e.InRange) {index : Nat}
    {number : Int} (empty : ∀ e ∈ s.engine? index, e.graph.size = 0) (nonneg : 0 ≤ number)
    (le : number ≤ Epoch.lastNumber) :
    (s.placeEpoch index number).Holds fun e => e.Valid ∧ e.InRange := by
  unfold Session.placeEpoch
  split
  · exact h
  next sheet found =>
    split
    · exact h
    next e has =>
      have hs := h index sheet found
      obtain ⟨valid, range⟩ := hs.of_engine? has
      have size : e.graph.size = 0 := empty e (by simp [Session.engine?, found, has])
      have stamps (P : Int → Prop) : e.graph.Stamps P := by
        intro id node place
        exact absurd (size ▸ Graph.lt_size_of_node? place) (Nat.not_lt_zero id)
      refine h.setSheet index (hs.withEngine ⟨?_, range.last, le⟩)
      exact ⟨valid.wellFormed, valid.quiet, nonneg, stamps _, fun _ => stamps _⟩

theorem Attainable.holds {s : Session} (attainable : s.Attainable) :
    s.Holds fun e => e.Valid ∧ e.InRange := by
  induction attainable with
  | empty =>
    intro index sheet found
    simp at found
  | perform _ laid performed h => exact h.perform inRange_invariant laid performed
  | takeJournal index _ h => exact h.takeJournal inRange_invariant index
  | placeEpoch _ empty nonneg le h => exact h.placeEpoch empty nonneg le

end Session

namespace Engine

/-- The engines of such sessions. -/
def Attainable (e : Engine) : Prop :=
  ∃ (s : Session) (index : Nat), s.Attainable ∧ s.engine? index = some e

/-- The epoch counter stays in range, every stamp is stale or was given out by now, and while the
epoch serves no context no stamp is its number. So a new epoch finds no stamp current. -/
theorem Attainable.stamps_within {e : Engine} (attainable : e.Attainable) :
    0 ≤ e.epoch.number ∧ e.epoch.number ≤ Epoch.lastNumber ∧
      e.graph.Stamps (fun stamp => stamp = -1 ∨ 0 ≤ stamp ∧ stamp ≤ e.epoch.number) ∧
      (e.serves = none → e.graph.Stamps (· ≠ e.epoch.number)) ∧
      e.openEpoch.graph.Stamps (fun stamp => e.openEpoch.epoch.isCurrent stamp = false) := by
  obtain ⟨s, index, attainable, has⟩ := attainable
  obtain ⟨sheet, found, has⟩ := Option.bind_eq_some_iff.mp has
  obtain ⟨valid, range⟩ := (attainable.holds index sheet found).of_engine? has
  refine ⟨valid.nonneg, range.le, valid.issued, fun unserved => ?_, valid.openEpoch.2.1⟩
  refine (valid.unserved unserved).mono ?_
  rintro _ stale rfl
  rw [Epoch.isCurrent_number valid.nonneg] at stale
  cases stale

/-- A graph whose counter was placed at its last number, after a read in that epoch. -/
def exhausted : Session :=
  ((Session.script 0 [.openSheet .engine {}] {}).placeEpoch 0 Epoch.lastNumber).script 0
    [.add (Node.getLocal "x"), .add (Node.ofKind (.action .print)), .connect ⟨⟨0, 0⟩, ⟨1, 1⟩⟩,
      .getValue ⟨1, 1⟩ none]

theorem stamps_exhausted : ∃ e, exhausted.engine? 0 = some e ∧ e.Attainable ∧
    (e.graph.input? ⟨1, 1⟩).map (·.stamp) = some Epoch.lastNumber ∧
    e.openEpoch.epoch.number = 0 ∧
    e.openEpoch.graph.Stamps (fun stamp => e.openEpoch.epoch.isCurrent stamp = false) := by
  have opened : (Session.script 0 [.openSheet .engine {}] {}).Attainable :=
    Session.Attainable.empty.script 0 (by decide +kernel)
  have placed := @Session.Attainable.placeEpoch _ 0 _ opened (by decide +kernel) (by decide +kernel)
    (Int.le_refl Epoch.lastNumber)
  have there : (exhausted.engine? 0).isSome = true := by decide +kernel
  obtain ⟨e, has⟩ := Option.isSome_iff_exists.mp there
  have attainable : e.Attainable := ⟨exhausted, 0, placed.script 0 (by decide +kernel), has⟩
  have read : ∀ e ∈ exhausted.engine? 0,
      (e.graph.input? ⟨1, 1⟩).map (·.stamp) = some Epoch.lastNumber ∧
        e.openEpoch.epoch.number = 0 := by
    decide +kernel
  obtain ⟨stamp, number⟩ := read e has
  exact ⟨e, has, attainable, stamp, number, (Engine.Attainable.stamps_within attainable).2.2.2.2⟩

end Engine

end NodeGraph
