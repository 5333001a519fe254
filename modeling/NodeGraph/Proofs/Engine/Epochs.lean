import NodeGraph.Proofs.Engine.Pull

/-!
# Invalidation, epochs and reads

What invalidation, the opening of an epoch and a read leave alone in an engine: the wiring shows the
same, and the settings are kept. After a context was served, the epoch serves it.
-/

namespace NodeGraph.Engine

section Parts

variable (e : Engine) (update : Statistics → Statistics)

@[simp]
theorem serves_count : (e.count update).serves = e.serves := by
  show (e.count update).still.serves = e.still.serves
  rw [still_count]

@[simp]
theorem graph_invalidate : e.invalidate.graph = e.graph.invalidate :=
  graph_count { e with graph := e.graph.invalidate, serves := none } Statistics.invalidation

@[simp]
theorem still_invalidate : e.invalidate.still = { e.still with serves := none } :=
  still_count { e with graph := e.graph.invalidate, serves := none } Statistics.invalidation

@[simp]
theorem epoch_invalidate : e.invalidate.epoch = e.epoch := by
  have same := congrArg Engine.epoch (still_invalidate e)
  exact same

@[simp]
theorem serves_invalidate : e.invalidate.serves = none := by
  have same := congrArg Engine.serves (still_invalidate e)
  exact same

end Parts

/-- What no run has to do with. -/
def settings (e : Engine) : Context × Option Int × Option Nat × Config :=
  (e.context, e.lastEpoch, e.marker, e.config)

theorem settings_eq_of_still {e e' : Engine} (still : e'.still = e.still) :
    e'.settings = e.settings := by
  have same := congrArg settings still
  exact same

@[simp]
theorem settings_invalidate (e : Engine) : e.invalidate.settings = e.settings := by
  have same := congrArg settings (still_invalidate e)
  exact same

@[simp]
theorem settings_openEpoch (e : Engine) : e.openEpoch.settings = e.settings := by
  unfold openEpoch
  generalize e.epoch.advance e.lastEpoch = advanced
  obtain ⟨kind, epoch⟩ := advanced
  cases kind with
  | stepped => rfl
  | wrapped =>
    exact (settings_invalidate _).trans ((settings_eq_of_still (still_count _ _)).trans rfl)

@[simp]
theorem settings_serve (e : Engine) (context : Nat) : (e.serve context).settings = e.settings := by
  unfold serve
  split
  · rfl
  · split
    · rfl
    · exact settings_openEpoch _

@[simp]
theorem serves_openEpoch (e : Engine) : e.openEpoch.serves = none := by
  unfold openEpoch
  generalize e.epoch.advance e.lastEpoch = advanced
  obtain ⟨kind, epoch⟩ := advanced
  cases kind with
  | stepped => rfl
  | wrapped => exact serves_invalidate _

@[simp]
theorem epoch_openEpoch (e : Engine) :
    e.openEpoch.epoch = (e.epoch.advance e.lastEpoch).2 := by
  unfold openEpoch
  generalize e.epoch.advance e.lastEpoch = advanced
  obtain ⟨kind, epoch⟩ := advanced
  cases kind with
  | stepped => rfl
  | wrapped => exact (epoch_invalidate _).trans (epoch_count _ _)

theorem statistics_invalidate (e : Engine) : e.invalidate.statistics =
    if e.config.collectStatistics then e.statistics.invalidation else e.statistics := by
  unfold invalidate count
  dsimp only
  split <;> rfl

/-- A new epoch takes a sweep only where the numbers start again. -/
theorem balance_openEpoch (e : Engine) :
    e.openEpoch.statistics.invalidations + e.statistics.wraps =
      e.statistics.invalidations + e.openEpoch.statistics.wraps := by
  unfold openEpoch
  generalize e.epoch.advance e.lastEpoch = advanced
  obtain ⟨kind, epoch⟩ := advanced
  cases kind with
  | stepped => rfl
  | wrapped =>
    dsimp only
    rw [statistics_invalidate]
    cases collects : e.config.collectStatistics with
    | true =>
      simp only [count, log, collects, if_true, Statistics.wrap, Statistics.invalidation]
      omega
    | false => simp [count, log, collects]

/-- No epoch shows in a view of the graph that does not show the stamps. -/
@[simp]
theorem erase_openEpoch (keeps : NodeKind → Bool) (e : Engine) :
    e.openEpoch.graph.erase keeps = e.graph.erase keeps := by
  unfold openEpoch
  generalize e.epoch.advance e.lastEpoch = advanced
  obtain ⟨kind, epoch⟩ := advanced
  cases kind with
  | stepped => rfl
  | wrapped =>
    dsimp only
    rw [graph_invalidate, Graph.erase_invalidate, graph_count]
    rfl

@[simp]
theorem erase_serve (keeps : NodeKind → Bool) (e : Engine) (context : Nat) :
    (e.serve context).graph.erase keeps = e.graph.erase keeps := by
  unfold serve
  split
  · rfl
  · split
    · rfl
    · exact erase_openEpoch keeps _

@[simp]
theorem serves_serve (e : Engine) (context : Nat) : (e.serve context).serves = some context := by
  unfold serve
  split
  · rfl
  case h_2 other serves =>
    split
    case isTrue equal => rw [serves, equal]
    case isFalse => rfl

theorem serve_of_serves {e : Engine} {context : Nat} (serves : e.serves = some context) :
    e.serve context = e := by
  rw [serve, serves]
  exact if_pos rfl

theorem settings_getValue (e : Engine) (addr : InputAddr) (context : Context) :
    (e.getValue addr context).2.settings = e.settings := by
  unfold getValue
  split
  · rfl
  · exact (settings_eq_of_still (pulled_read _ _ _).still).trans (settings_serve e context.id)

theorem settings_pullOutput (e : Engine) (addr : OutputAddr) (context : Context) :
    (e.pullOutput addr context).2.settings = e.settings := by
  unfold pullOutput
  split
  · rfl
  · exact (settings_eq_of_still (pulled_refresh _ _ _).still).trans (settings_serve e context.id)

theorem context_eq_of_settings {e e' : Engine} (same : e'.settings = e.settings) :
    e'.context = e.context := by
  have context := congrArg Prod.fst same
  exact context

@[simp]
theorem context_invalidate (e : Engine) : e.invalidate.context = e.context :=
  context_eq_of_settings (settings_invalidate e)

@[simp]
theorem context_openEpoch (e : Engine) : e.openEpoch.context = e.context :=
  context_eq_of_settings (settings_openEpoch e)

@[simp]
theorem context_getValue (e : Engine) (addr : InputAddr) (context : Context) :
    (e.getValue addr context).2.context = e.context :=
  context_eq_of_settings (settings_getValue e addr context)

@[simp]
theorem context_pullOutput (e : Engine) (addr : OutputAddr) (context : Context) :
    (e.pullOutput addr context).2.context = e.context :=
  context_eq_of_settings (settings_pullOutput e addr context)

/-- A change of the wiring that is made leaves the changed graph with everything stale. -/
theorem connect_eq_ok_iff {e e' : Engine} {link : Link} : e.connect link = .ok e' ↔
    ∃ graph, e.graph.connect link = .ok graph ∧ { e with graph }.invalidate = e' := by
  simp only [Engine.connect, bind_eq_ok_iff, Except.ok.injEq]

theorem disconnect_eq_ok_iff {e e' : Engine} {target : InputAddr} {source : Option OutputAddr} :
    e.disconnect target = .ok (source, e') ↔
      ∃ graph, e.graph.disconnect target = .ok (source, graph) ∧
        { e with graph }.invalidate = e' := by
  simp only [Engine.disconnect, bind_eq_ok_iff, Except.ok.injEq, Prod.mk.injEq]
  constructor
  · rintro ⟨⟨source', graph⟩, changed, rfl, rfl⟩
    exact ⟨graph, changed, rfl⟩
  · rintro ⟨graph, changed, rfl⟩
    exact ⟨(source, graph), changed, rfl, rfl⟩

theorem setLiteral_eq_ok_iff {e e' : Engine} {addr : InputAddr} {value : Value} :
    e.setLiteral addr value = .ok e' ↔
      ∃ graph, e.graph.setLiteral addr value = .ok graph ∧ { e with graph }.invalidate = e' := by
  simp only [Engine.setLiteral, bind_eq_ok_iff, Except.ok.injEq]

/-- A read changes neither the wiring nor the literals. -/
theorem frame_getValue (e : Engine) (addr : InputAddr) (context : Context) :
    (e.getValue addr context).2.graph.frame = e.graph.frame := by
  unfold getValue
  split
  · rfl
  · exact (pulled_read _ _ _).frame.trans (erase_serve _ e context.id)

theorem frame_pullOutput (e : Engine) (addr : OutputAddr) (context : Context) :
    (e.pullOutput addr context).2.graph.frame = e.graph.frame := by
  unfold pullOutput
  split
  · rfl
  · exact (pulled_refresh _ _ _).frame.trans (erase_serve _ e context.id)

end NodeGraph.Engine
