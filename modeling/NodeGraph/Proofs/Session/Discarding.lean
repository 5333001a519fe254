import NodeGraph.Proofs.Session.Separate

/-!
# Commands that discard what was read

A command that opens an epoch or makes everything stale leaves nothing current. Which context the
epoch served before has no influence on what it does (`Session.perform_withServes`).
-/

namespace NodeGraph

namespace Engine

variable (e : Engine) (serves : Option Nat)

theorem count_withServes (update : Statistics → Statistics) :
    { e with serves }.count update = { e.count update with serves } := by
  unfold Engine.count
  dsimp only
  split <;> rfl

/-- A new epoch does not depend on the context that the epoch before it served. -/
theorem openEpoch_withServes : { e with serves }.openEpoch = e.openEpoch := by
  unfold Engine.openEpoch
  dsimp only
  generalize e.epoch.advance e.lastEpoch = advanced
  obtain ⟨kind, epoch⟩ := advanced
  cases kind with
  | stepped => rfl
  | wrapped =>
    have counted := count_withServes ({ e with epoch }.log .epochWrapped) serves Statistics.wrap
    exact (congrArg Engine.invalidate counted).trans rfl

end Engine

namespace Machine

variable {e : Engine} {serves : Option Nat} {context : Context} {limit : Nat}

/-- Every step opens an epoch of its own. -/
theorem perform_withServes (task : Task) :
    Machine.perform ⟨{ e with serves }, context⟩ task = Machine.perform ⟨e, context⟩ task := by
  unfold Machine.perform Machine.openStep
  dsimp only
  rw [Engine.openEpoch_withServes]

/-- A run that is not refused begins with a step. -/
theorem execute_withServes {start last : NodeId} {m : Machine}
    (executed : Machine.execute limit ⟨e, context⟩ start = some (.ok last, m)) :
    Machine.execute limit ⟨{ e with serves }, context⟩ start = some (.ok last, m) := by
  unfold Machine.execute at executed ⊢
  dsimp only at executed ⊢
  cases there : e.graph.node start with
  | error fault =>
    rw [there] at executed
    cases executed
  | ok node =>
    rw [there] at executed
    rw [← executed]
    cases limit with
    | zero => rfl
    | succ limit =>
      unfold Run.start Run.finish Run.advance
      rw [perform_withServes]

end Machine

namespace Engine

variable {e e' : Engine} {serves : Option Nat} {limit : Nat}

theorem execute_withServes {start last : NodeId} (executed : e.execute limit start =
    some (.ok last, e')) : { e with serves }.execute limit start = some (.ok last, e') := by
  obtain ⟨⟨result, m⟩, ended, equal⟩ := Option.map_eq_some_iff.mp executed
  obtain ⟨rfl, rfl⟩ := Prod.mk.inj equal
  exact Option.map_eq_some_iff.mpr ⟨_, Machine.execute_withServes ended, rfl⟩

theorem executeNodes_withServes {id : NodeId} {rest : List NodeId} (executed :
    e.executeNodes limit (id :: rest) = some (.ok (), e')) :
    { e with serves }.executeNodes limit (id :: rest) = some (.ok (), e') := by
  unfold executeNodes at executed ⊢
  cases first : e.execute limit id with
  | none =>
    rw [first] at executed
    cases executed
  | some r =>
    obtain ⟨result, e₁⟩ := r
    cases result with
    | error fault =>
      rw [first] at executed
      cases executed
    | ok last =>
      rw [execute_withServes first]
      rw [first] at executed
      exact executed

/-- Something is run unless nothing follows any of the outputs. -/
theorem executeOutputs_withServes {addrs : List OutputAddr}
    (follows : ∃ addr ∈ addrs, e.graph.successors addr ≠ [])
    (executed : e.executeOutputs limit addrs = some (.ok (), e')) :
    { e with serves }.executeOutputs limit addrs = some (.ok (), e') := by
  induction addrs with
  | nil => simp at follows
  | cons addr rest ih =>
    unfold executeOutputs at executed ⊢
    cases following : e.graph.successors addr with
    -- Nothing is run for this output, so the first run is that of a later one.
    | nil =>
      simp only [following, executeNodes] at executed ⊢
      refine ih ?_ executed
      simpa [following] using follows
    | cons id ids =>
      simp only [following] at executed ⊢
      cases first : e.executeNodes limit (id :: ids) with
      | none =>
        rw [first] at executed
        cases executed
      | some r =>
        obtain ⟨result, e₁⟩ := r
        cases result with
        | error fault =>
          rw [first] at executed
          cases executed
        | ok done =>
          rw [executeNodes_withServes first]
          rw [first] at executed
          exact executed

theorem getValues_withServes (addrs : List InputAddr) :
    { e with serves }.getValues addrs = e.getValues addrs := by
  unfold getValues
  rw [openEpoch_withServes]

theorem pullOutputs_withServes (addrs : List OutputAddr) :
    { e with serves }.pullOutputs addrs = e.pullOutputs addrs := by
  unfold pullOutputs
  rw [openEpoch_withServes]

end Engine

/-- The answer shows that the command has made everything stale that was read before. -/
def Command.discards (g : Graph) : Command → Except Fault Reply → Bool
  | .connect _, .ok _ | .disconnect _, .ok _ | .setLiteral _ _, .ok _ => true
  | .execute _ _, .ok _ | .executeNodes (_ :: _), .ok _ | .run, .ok (.node? (some _)) => true
  | .executeOutputs addrs, .ok _ => addrs.any fun addr => !(g.successors addr).isEmpty
  | .getValues _, _ | .pullOutputs _, _ | .openEpoch, _ | .invalidate, _ => true
  | .invalidateOnce _, .ok (.flag true) => true
  | _, _ => false

theorem Command.discards_congr {N : Node → Node → Prop} {I : Nat → Nat → Prop} (g : Graph)
    (command : Command) {answer answer' : Except Fault Reply}
    (answers : AnswersCorrespond N I answer answer') :
    command.discards g answer' = command.discards g answer := by
  cases answers with
  | refused => rfl
  | done replies =>
    cases replies with
    | same => rfl
    | node | nodes | context =>
      cases command with
      | executeNodes ids => cases ids <;> rfl
      | _ => rfl

namespace Session

variable {s s' : Session} {index limit : Nat} {sheet : Sheet} {e : Engine}
  {answer : Except Fault Reply}

section Ways

variable (found : s.sheets[index]? = some sheet) (serves : Option Nat)

include found

theorem onEngineWithin_withServes (has : sheet.engine? = some e)
    {act : Engine → Option (Except Fault Reply × Engine)}
    (same : ∀ e', act e = some (answer, e') → act { e with serves } = some (answer, e'))
    (performed : s.onEngineWithin index act = .ok (answer, s')) :
    (s.setSheet index (sheet.withEngine { e with serves })).onEngineWithin index act =
      .ok (answer, s') := by
  obtain ⟨sheet', e₁, e', found', has', acted, rfl⟩ := onEngineWithin_eq_ok_iff.mp performed
  obtain rfl := Option.some.inj (found.symm.trans found')
  obtain rfl := Option.some.inj (has.symm.trans has')
  refine onEngineWithin_eq_ok_iff.mpr ⟨_, _, e', sheets_setSheet found _,
    Sheet.engine?_withEngine has _, same e' acted, ?_⟩
  rw [setSheet_setSheet, Sheet.withEngine_withEngine]

theorem change_withServes {act : Sheet → Except Fault (Reply × Sheet)} {reply : Reply}
    (same : act (sheet.withEngine { e with serves }) = act sheet)
    (performed : s.change index act = .ok (.ok reply, s')) :
    (s.setSheet index (sheet.withEngine { e with serves })).change index act =
      .ok (.ok reply, s') := by
  obtain ⟨sheet', found', ⟨_, _, equal, _⟩ | ⟨_, after, acted, equal, rfl⟩⟩ :=
    change_eq_ok_iff.mp performed
  · cases equal
  · obtain rfl := Option.some.inj (found.symm.trans found')
    obtain rfl := Except.ok.inj equal
    refine change_eq_ok_iff.mpr ⟨_, sheets_setSheet found _, .inr ⟨_, after, ?_, rfl, ?_⟩⟩
    · rw [same, acted]
    · rw [setSheet_setSheet]

end Ways

/-- The command does the same, whatever context the epoch served before. -/
theorem perform_withServes (found : s.sheets[index]? = some sheet) (has : sheet.engine? = some e)
    {command : Command} (own : command.own = true)
    (performed : s.perform limit index command = .ok (answer, s'))
    (discards : command.discards e.graph answer = true) (serves : Option Nat) :
    (s.setSheet index (sheet.withEngine { e with serves })).perform limit index command =
      .ok (answer, s') := by
  have within {act : Engine → Option (Except Fault Reply × Engine)}
      (same : ∀ e', act e = some (answer, e') → act { e with serves } = some (answer, e'))
      (performed : s.onEngineWithin index act = .ok (answer, s')) :=
    onEngineWithin_withServes found serves has same performed
  have engines {act : Engine → Except Fault Reply × Engine}
      (same : act { e with serves } = act e)
      (performed : s.onEngine index act = .ok (answer, s')) :
      (s.setSheet index (sheet.withEngine { e with serves })).onEngine index act =
        .ok (answer, s') := by
    rw [onEngine_eq_within] at performed ⊢
    exact within (fun _ acted => acted ▸ congrArg some same) performed
  cases command with dsimp only [perform] at performed ⊢
  | connect _ | disconnect _ =>
    cases answer with
    | error fault => cases discards
    | ok reply =>
      refine change_withServes found serves ?_ performed
      cases sheet with
      | wiring g => cases has
      | engine _ | program _ =>
        obtain rfl := Option.some.inj has
        rfl
  | setLiteral addr value =>
    cases answer with
    | error fault => cases discards
    | ok reply =>
      rw [onEngine_eq_within] at performed ⊢
      refine within (fun e' acted => ?_) performed
      have same : { e with serves }.setLiteral addr value = e.setLiteral addr value := rfl
      rw [same]
      cases set : e.setLiteral addr value with
      | error fault =>
        rw [set] at acted
        cases acted
      | ok after =>
        rw [set] at acted
        exact acted
  | execute start context =>
    obtain rfl := Option.isNone_iff_eq_none.mp own
    cases answer with
    | error fault => cases discards
    | ok reply =>
      refine within (fun e' acted => ?_) performed
      obtain ⟨⟨_, m⟩, ran, equal⟩ := Option.map_eq_some_iff.mp acted
      obtain ⟨⟨result, m'⟩, executed, equal'⟩ := Option.map_eq_some_iff.mp ran
      obtain ⟨answered, rfl⟩ := Prod.mk.inj equal
      obtain ⟨answered', rfl⟩ := Prod.mk.inj equal'
      cases result with
      | error fault => cases answered'.trans answered
      | ok last =>
        dsimp only at acted ⊢
        rw [Machine.execute_withServes executed, ← acted, executed]
  | executeNodes ids =>
    cases answer with
    | error fault => cases ids <;> cases discards
    | ok reply =>
      cases ids with
      | nil => cases discards
      | cons id rest =>
        refine within (fun e' acted => ?_) performed
        obtain ⟨⟨result, after⟩, executed, equal⟩ := Option.map_eq_some_iff.mp acted
        cases result with
        | error fault => cases equal
        | ok done =>
          rw [Engine.executeNodes_withServes executed, ← acted, executed]
  | executeOutputs addrs =>
    cases answer with
    | error fault => cases discards
    | ok reply =>
      refine within (fun e' acted => ?_) performed
      obtain ⟨⟨result, after⟩, executed, equal⟩ := Option.map_eq_some_iff.mp acted
      have follows : ∃ addr ∈ addrs, e.graph.successors addr ≠ [] := by
        simpa [Command.discards] using discards
      cases result with
      | error fault => cases equal
      | ok done =>
        rw [Engine.executeOutputs_withServes follows executed, ← acted, executed]
  | run =>
    obtain ⟨p, p', found', acted, rfl⟩ := onProgram_eq_ok_iff.mp performed
    obtain rfl := Option.some.inj (found.symm.trans found')
    obtain rfl := Option.some.inj has
    refine onProgram_eq_ok_iff.mpr ⟨_, p', sheets_setSheet found _, ?_, ?_⟩
    · obtain ⟨engine, entry⟩ := p
      unfold Program.run at acted ⊢
      dsimp only at acted ⊢
      cases entry with
      | none =>
        obtain ⟨rfl, -⟩ := Prod.mk.inj (Option.some.inj acted)
        cases discards
      | some id =>
        obtain ⟨⟨_, p⟩, ran, equal⟩ := Option.map_eq_some_iff.mp acted
        obtain ⟨⟨result, after⟩, executed, equal'⟩ := Option.map_eq_some_iff.mp ran
        obtain ⟨rfl, -⟩ := Prod.mk.inj equal
        obtain ⟨rfl, -⟩ := Prod.mk.inj equal'
        cases result with
        | error fault => cases discards
        | ok last =>
          dsimp only at acted ⊢
          rw [Engine.execute_withServes executed, ← acted, executed]
    · rw [setSheet_setSheet]
  | getValues addrs =>
    refine engines ?_ performed
    rw [Engine.getValues_withServes]
  | pullOutputs addrs =>
    refine engines ?_ performed
    rw [Engine.pullOutputs_withServes]
  | openEpoch =>
    refine engines ?_ performed
    rw [Engine.openEpoch_withServes]
  | invalidate => exact engines rfl performed
  | invalidateOnce marker =>
    rw [onEngine_eq_within] at performed ⊢
    refine within (fun e' acted => ?_) performed
    unfold Engine.invalidateOnce at acted ⊢
    split at acted
    · cases acted
      cases discards
    next different =>
      rw [if_neg different]
      exact acted
  | _ => cases discards

end Session

end NodeGraph
