import NodeGraph.Session.Command

/-!
# Commands that are carried out

A command is refused or carried out. For each way to carry commands out, this module says what the
answer and the session after it are, and that the command is refused otherwise.
-/

namespace NodeGraph

theorem Sheet.withEngine_self {sheet : Sheet} {e : Engine} (has : sheet.engine? = some e) :
    sheet.withEngine e = sheet := by
  cases sheet with
  | wiring g => cases has
  | engine e =>
    obtain rfl := Option.some.inj has
    rfl
  | program p =>
    obtain rfl := Option.some.inj has
    rfl

theorem Sheet.engine?_withEngine {sheet : Sheet} {e : Engine} (has : sheet.engine? = some e)
    (e' : Engine) : (sheet.withEngine e').engine? = some e' := by
  cases sheet with
  | wiring g => cases has
  | engine e => rfl
  | program p => rfl

theorem Sheet.withEngine_withEngine (sheet : Sheet) (e e' : Engine) :
    (sheet.withEngine e).withEngine e' = sheet.withEngine e' := by
  cases sheet <;> rfl

namespace Session

variable {s s' : Session} {index : Nat} {reply : Except Fault Reply}

theorem setIfInBounds_self {α : Type} {xs : Array α} {position : Nat} {a : α}
    (place : xs[position]? = some a) : xs.setIfInBounds position a = xs := by
  obtain ⟨below, rfl⟩ := Array.getElem?_eq_some_iff.mp place
  rw [Array.setIfInBounds, dif_pos below, Array.set_getElem_self]

/-- A graph that is put back as it was. -/
theorem setSheet_self {sheet : Sheet} (found : s.sheets[index]? = some sheet) :
    s.setSheet index sheet = s := by
  rw [setSheet, setIfInBounds_self found]

/-- A graph is put in no place where there was none. -/
theorem setSheet_of_missing (missing : s.sheets[index]? = none) (sheet : Sheet) :
    s.setSheet index sheet = s := by
  rw [setSheet, Array.setIfInBounds_eq_of_size_le (Array.getElem?_eq_none_iff.mp missing)]

theorem setSheet_setSheet (s : Session) (index : Nat) (sheet sheet' : Sheet) :
    (s.setSheet index sheet).setSheet index sheet' = s.setSheet index sheet' := by
  unfold setSheet
  rw [Array.setIfInBounds_setIfInBounds]

theorem sheets_setSheet {sheet : Sheet} (found : s.sheets[index]? = some sheet) (after : Sheet) :
    (s.setSheet index after).sheets[index]? = some after := by
  obtain ⟨below, _⟩ := Array.getElem?_eq_some_iff.mp found
  simp [setSheet, below]

theorem perform_copySheet {sheet : Sheet} (found : s.sheets[index]? = some sheet) (limit : Nat) :
    s.perform limit index .copySheet =
      .ok (.ok (.index s.sheets.size), (s.copySheet sheet).2) := by
  dsimp only [Session.perform]
  rw [found]
  rfl

/-- An operation of an engine is a run that always ends. -/
theorem onEngine_eq_within (s : Session) (index : Nat)
    (act : Engine → Except Fault Reply × Engine) :
    s.onEngine index act = s.onEngineWithin index fun e => some (act e) := by
  unfold Session.onEngine Session.onEngineWithin
  split
  · rfl
  · split <;> rfl

theorem onEngineWithin_eq_ok_iff {act : Engine → Option (Except Fault Reply × Engine)} :
    s.onEngineWithin index act = .ok (reply, s') ↔ ∃ sheet e e',
      s.sheets[index]? = some sheet ∧ sheet.engine? = some e ∧ act e = some (reply, e') ∧
        s' = s.setSheet index (sheet.withEngine e') := by
  constructor
  · intro performed
    unfold Session.onEngineWithin at performed
    split at performed
    · cases performed
    next sheet found =>
      split at performed
      · cases performed
      next e has =>
        split at performed
        · cases performed
        next answer e' acted =>
          cases performed
          exact ⟨sheet, e, e', found, has, acted, rfl⟩
  · rintro ⟨sheet, e, e', found, has, acted, rfl⟩
    simp [Session.onEngineWithin, found, has, acted]

theorem onEngine_eq_ok_iff {act : Engine → Except Fault Reply × Engine} :
    s.onEngine index act = .ok (reply, s') ↔ ∃ sheet e, s.sheets[index]? = some sheet ∧
      sheet.engine? = some e ∧ reply = (act e).1 ∧
        s' = s.setSheet index (sheet.withEngine (act e).2) := by
  rw [onEngine_eq_within, onEngineWithin_eq_ok_iff]
  constructor
  · rintro ⟨sheet, e, e', found, has, acted, rfl⟩
    obtain ⟨rfl, rfl⟩ := Prod.mk.inj (Option.some.inj acted)
    exact ⟨sheet, e, found, has, rfl, rfl⟩
  · rintro ⟨sheet, e, found, has, rfl, rfl⟩
    exact ⟨sheet, e, (act e).2, found, has, rfl, rfl⟩

/-- A run for the own context of a graph puts that context back with the engine. -/
theorem onMachine_own_eq_ok_iff {act : Machine → Option (Except Fault Reply × Machine)} :
    s.onMachine index none act = .ok (reply, s') ↔ ∃ sheet e m',
      s.sheets[index]? = some sheet ∧ sheet.engine? = some e ∧
        act ⟨e, e.context⟩ = some (reply, m') ∧
        s' = s.setSheet index (sheet.withEngine { m'.engine with context := m'.context }) := by
  unfold Session.onMachine
  dsimp only
  rw [onEngineWithin_eq_ok_iff]
  constructor
  · rintro ⟨sheet, e, e', found, has, acted, rfl⟩
    obtain ⟨⟨answer, m'⟩, ended, equal⟩ := Option.map_eq_some_iff.mp acted
    obtain ⟨rfl, rfl⟩ := Prod.mk.inj equal
    exact ⟨sheet, e, m', found, has, ended, rfl⟩
  · rintro ⟨sheet, e, m', found, has, acted, rfl⟩
    refine ⟨sheet, e, _, found, has, ?_, rfl⟩
    rw [acted]
    rfl

/-- A run for an extra context puts that context back where it was. -/
theorem onMachine_extra_eq_ok_iff {extra : Nat}
    {act : Machine → Option (Except Fault Reply × Machine)} :
    s.onMachine index (some extra) act = .ok (reply, s') ↔ ∃ sheet e c m',
      s.sheets[index]? = some sheet ∧ sheet.engine? = some e ∧ s.contexts[extra]? = some c ∧
        act ⟨e, c⟩ = some (reply, m') ∧
        s' = { s.setSheet index (sheet.withEngine m'.engine) with
          contexts := s.contexts.setIfInBounds extra m'.context } := by
  constructor
  · intro performed
    unfold Session.onMachine at performed
    dsimp only at performed
    split at performed
    next sheet c found place =>
      split at performed
      · cases performed
      next e has =>
        split at performed
        · cases performed
        next answer m' acted =>
          cases performed
          exact ⟨sheet, e, c, m', found, has, place, acted, rfl⟩
    · cases performed
  · rintro ⟨sheet, e, c, m', found, has, place, acted, rfl⟩
    simp [Session.onMachine, found, has, place, acted]

theorem onProgram_eq_ok_iff {act : Program → Option (Except Fault Reply × Program)} :
    s.onProgram index act = .ok (reply, s') ↔ ∃ p p',
      s.sheets[index]? = some (.program p) ∧ act p = some (reply, p') ∧
        s' = s.setSheet index (.program p') := by
  constructor
  · intro performed
    unfold Session.onProgram at performed
    split at performed
    next p found =>
      split at performed
      · cases performed
      next answer p' acted =>
        cases performed
        exact ⟨p, p', found, acted, rfl⟩
    · cases performed
  · rintro ⟨p, p', found, acted, rfl⟩
    simp [Session.onProgram, found, acted]

/-- A question changes nothing. -/
theorem ask_eq_ok_iff {answer : Sheet → Except Fault Reply} :
    s.ask index answer = .ok (reply, s') ↔
      (∃ sheet, s.sheets[index]? = some sheet ∧ reply = answer sheet) ∧ s' = s := by
  unfold Session.ask
  cases s.sheets[index]? with
  | none => simp
  | some sheet => simp [eq_comm]

/-- A change to a graph is made as a whole, or a fault leaves the session as it is. -/
theorem change_eq_ok_iff {act : Sheet → Except Fault (Reply × Sheet)} :
    s.change index act = .ok (reply, s') ↔ ∃ sheet, s.sheets[index]? = some sheet ∧
      ((∃ fault, act sheet = .error fault ∧ reply = .error fault ∧ s' = s) ∨
        ∃ answer sheet', act sheet = .ok (answer, sheet') ∧ reply = .ok answer ∧
          s' = s.setSheet index sheet') := by
  constructor
  · intro performed
    unfold Session.change at performed
    split at performed
    · cases performed
    next sheet found =>
      split at performed
      next fault failed =>
        cases performed
        exact ⟨sheet, found, .inl ⟨fault, failed, rfl, rfl⟩⟩
      next answer sheet' acted =>
        cases performed
        exact ⟨sheet, found, .inr ⟨answer, sheet', acted, rfl, rfl⟩⟩
  · rintro ⟨sheet, found, ⟨fault, failed, rfl, rfl⟩ | ⟨answer, sheet', acted, rfl, rfl⟩⟩
    · simp [Session.change, found, failed]
    · simp [Session.change, found, acted]

theorem copyNode_eq_ok_iff {id : NodeId} {target : Nat} :
    s.copyNode index id target = .ok (reply, s') ↔ ∃ sheet other,
      s.sheets[index]? = some sheet ∧ s.sheets[target]? = some other ∧
        ((∃ fault, sheet.graph.node id = .error fault ∧ reply = .error fault ∧ s' = s) ∨
          ∃ node, sheet.graph.node id = .ok node ∧ reply = .ok (.index (other.add node).1) ∧
            s' = s.setSheet target (other.add node).2) := by
  constructor
  · intro performed
    unfold Session.copyNode at performed
    split at performed
    next sheet other found there =>
      split at performed
      next fault missing =>
        cases performed
        exact ⟨sheet, other, found, there, .inl ⟨fault, missing, rfl, rfl⟩⟩
      next node place =>
        cases performed
        exact ⟨sheet, other, found, there, .inr ⟨node, place, rfl, rfl⟩⟩
    · cases performed
  · rintro ⟨sheet, other, found, there, ⟨fault, missing, rfl, rfl⟩ | ⟨node, place, rfl, rfl⟩⟩
    · simp [Session.copyNode, found, there, missing]
    · simp [Session.copyNode, found, there, place]

theorem swapContext_eq_ok_iff {extra : Nat} :
    s.swapContext index extra = .ok (reply, s') ↔ ∃ sheet e c,
      s.sheets[index]? = some sheet ∧ sheet.engine? = some e ∧ s.contexts[extra]? = some c ∧
        reply = .ok .done ∧
        s' = { s.setSheet index (sheet.withEngine { e with context := c }) with
          contexts := s.contexts.setIfInBounds extra e.context } := by
  constructor
  · intro performed
    unfold Session.swapContext at performed
    split at performed
    next sheet c found place =>
      split at performed
      · cases performed
      next e has =>
        cases performed
        exact ⟨sheet, e, c, found, has, place, rfl, rfl⟩
    · cases performed
  · rintro ⟨sheet, e, c, found, has, place, rfl, rfl⟩
    simp [Session.swapContext, found, has, place]

theorem relabel_eq_ok_iff {limit : Nat} {id : NodeId} {newId : Option NodeId}
    {title : Option String} :
    s.perform limit index (.relabel id newId title) = .ok (reply, s') ↔ ∃ g,
      s.sheets[index]? = some (.wiring g) ∧
        ((∃ fault, g.relabel id newId title = .error fault ∧ reply = .error fault ∧ s' = s) ∨
          ∃ g', g.relabel id newId title = .ok g' ∧ reply = .ok .done ∧
            s' = s.setSheet index (.wiring g')) := by
  constructor
  · intro performed
    dsimp only [Session.perform] at performed
    split at performed
    next g found =>
      split at performed
      next fault failed =>
        cases performed
        exact ⟨g, found, .inl ⟨fault, failed, rfl, rfl⟩⟩
      next g' changed =>
        cases performed
        exact ⟨g, found, .inr ⟨g', changed, rfl, rfl⟩⟩
    · cases performed
  · rintro ⟨g, found, ⟨fault, failed, rfl, rfl⟩ | ⟨g', changed, rfl, rfl⟩⟩
    · simp [Session.perform, found, failed]
    · simp [Session.perform, found, changed]

/-- The choice of an entry node touches nothing else of a program. -/
theorem setEntry_eq_ok_iff {limit : Nat} {id : NodeId} :
    s.perform limit index (.setEntry id) = .ok (reply, s') ↔ ∃ p,
      s.sheets[index]? = some (.program p) ∧
        ((∃ fault, p.engine.graph.node id = .error fault ∧ reply = .error fault ∧
            s' = s.setSheet index (.program p)) ∨
          ∃ node, p.engine.graph.node id = .ok node ∧ reply = .ok .done ∧
            s' = s.setSheet index (.program { p with entry := some id })) := by
  unfold Session.perform
  rw [onProgram_eq_ok_iff]
  constructor
  · rintro ⟨p, p', found, acted, rfl⟩
    refine ⟨p, found, ?_⟩
    cases place : p.engine.graph.node id with
    | error fault =>
      rw [Program.setEntry, place] at acted
      cases acted
      exact .inl ⟨fault, rfl, rfl, rfl⟩
    | ok node =>
      rw [Program.setEntry, place] at acted
      cases acted
      exact .inr ⟨node, rfl, rfl, rfl⟩
  · rintro ⟨p, found, ⟨fault, place, rfl, rfl⟩ | ⟨node, place, rfl, rfl⟩⟩
    · refine ⟨p, p, found, ?_, rfl⟩
      rw [Program.setEntry, place]
      rfl
    · refine ⟨p, _, found, ?_, rfl⟩
      rw [Program.setEntry, place]
      rfl

end Session

end NodeGraph
