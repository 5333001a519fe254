import NodeGraph.Proofs.Run.Alike
import NodeGraph.Proofs.Session.Pair

/-!
# Sessions that differ for one context

Two sessions are alike when they have the same graphs but for what was read for the hidden context,
and the same contexts but for that one (`Session.Alike`). Graphs and contexts that are put back
alike on both sides keep them alike.
-/

namespace NodeGraph

/-- Graphs that differ in nothing but what was read for the hidden context. -/
abbrev Sheet.Alike (hidden : Nat) : Sheet → Sheet → Prop :=
  Sheet.Related (fun g g' => g'.blank = g.blank) (Engine.Alike hidden)

theorem Sheet.Alike.refl (hidden : Nat) (sheet : Sheet) : Sheet.Alike hidden sheet sheet :=
  Sheet.Related.refl (G := fun g g' => g'.blank = g.blank) (fun _ => rfl) (Engine.Alike.refl hidden)
    sheet

/-- A context on both sides, the same one unless it is the hidden one. -/
structure Context.Alike (hidden : Nat) (visible : Prop) (c c' : Context) : Prop where
  same : visible → c' = c
  identity : ¬ visible → c.id = hidden ∧ c'.id = hidden

namespace Context

variable {hidden : Nat} {visible : Prop} {c c' : Context}

theorem alike_iff (seen : visible) : c.Alike hidden visible c' ↔ c' = c :=
  ⟨fun h => h.same seen, fun same => ⟨fun _ => same, fun unseen => absurd seen unseen⟩⟩

theorem Alike.id_eq (h : c.Alike hidden visible c') : c'.id = c.id := by
  by_cases seen : visible
  · rw [h.same seen]
  · obtain ⟨identity, identity'⟩ := h.identity seen
    rw [identity, identity']

theorem Alike.locals_eq (h : c.Alike hidden visible c') (different : c.id ≠ hidden) :
    c'.locals = c.locals := by
  by_cases seen : visible
  · rw [h.same seen]
  · exact absurd (h.identity seen).1 different

end Context

namespace Session

/-- Sessions that differ in nothing but what was read for the hidden context, at this position among
the extra ones, and in its variables. -/
structure Alike (position hidden : Nat) (s s' : Session) : Prop where
  sheets : ∀ index : Nat, Option.Rel (Sheet.Alike hidden) s.sheets[index]? s'.sheets[index]?
  contexts : ∀ other : Nat, other ≠ position → s'.contexts[other]? = s.contexts[other]?
  identity : s.contexts[position]?.map (·.id) = some hidden
  identity' : s'.contexts[position]?.map (·.id) = some hidden
  sheetCount : s'.sheets.size = s.sheets.size
  contextCount : s'.contexts.size = s.contexts.size
  next : s'.nextContext = s.nextContext

/-- Outcomes of one command in two runs. -/
abbrev OutcomesAgree (shown : Prop) (position hidden : Nat) : Outcome → Outcome → Prop :=
  ResultsAgree (AnswersAgree shown (Alike position hidden))

namespace Alike

variable {position hidden : Nat} {s s' : Session}

theorem setSheet (h : Alike position hidden s s') (index : Nat) {sheet sheet' : Sheet}
    (alike : sheet.Alike hidden sheet') :
    Alike position hidden (s.setSheet index sheet) (s'.setSheet index sheet') := by
  refine { h with sheets := ?_, sheetCount := ?_ }
  · exact rel_setIfInBounds h.sheets h.sheetCount alike
  · simp [Session.setSheet, h.sheetCount]

/-- A graph is added on both sides. -/
theorem push (h : Alike position hidden s s') {sheet sheet' : Sheet}
    (alike : sheet.Alike hidden sheet') (next : Nat) : Alike position hidden
      { s with sheets := s.sheets.push sheet, nextContext := next }
      { s' with sheets := s'.sheets.push sheet', nextContext := next } := by
  refine { h with sheets := ?_, sheetCount := ?_, next := rfl }
  · exact rel_push h.sheets h.sheetCount alike
  · simp [h.sheetCount]

/-- One context is put in a place that is not the hidden one's. -/
theorem setContext (h : Alike position hidden s s') {other : Nat} (different : other ≠ position)
    (context : Context) : Alike position hidden
      { s with contexts := s.contexts.setIfInBounds other context }
      { s' with contexts := s'.contexts.setIfInBounds other context } := by
  refine { h with
    contexts := fun place apart => ?_
    identity := ?_
    identity' := ?_
    contextCount := ?_ }
  · simp only [Array.getElem?_setIfInBounds, h.contextCount, h.contexts place apart]
  · simp only [Array.getElem?_setIfInBounds, if_neg different]
    exact h.identity
  · simp only [Array.getElem?_setIfInBounds, if_neg different]
    exact h.identity'
  · simp [h.contextCount]

/-- The hidden context is put back. -/
theorem setHidden (h : Alike position hidden s s') {context context' : Context}
    (identity : context.id = hidden) (identity' : context'.id = hidden) : Alike position hidden
      { s with contexts := s.contexts.setIfInBounds position context }
      { s' with contexts := s'.contexts.setIfInBounds position context' } := by
  have below : ∀ {s : Session}, s.contexts[position]?.map (·.id) = some hidden →
      position < s.contexts.size := by
    intro s found
    obtain ⟨c, place, _⟩ := Option.map_eq_some_iff.mp found
    obtain ⟨below, _⟩ := Array.getElem?_eq_some_iff.mp place
    exact below
  refine { h with
    contexts := fun place apart => ?_
    identity := ?_
    identity' := ?_
    contextCount := ?_ }
  · have different : position ≠ place := fun equal => apart equal.symm
    simp only [Array.getElem?_setIfInBounds, if_neg different]
    exact h.contexts place apart
  · simp [below h.identity, identity]
  · simp [below h.identity', identity']
  · simp [h.contextCount]

/-- A context is added on both sides. -/
theorem addContext (h : Alike position hidden s s') (locals : Locals) (printed : Array String) :
    (s'.addContext locals printed).1 = (s.addContext locals printed).1 ∧ Alike position hidden
      (s.addContext locals printed).2 (s'.addContext locals printed).2 := by
  have inside : ∀ {s : Session} {added : Context}, s.contexts[position]?.map (·.id) = some hidden →
      (s.contexts.push added)[position]?.map (·.id) = some hidden := by
    intro s added found
    obtain ⟨c, place, _⟩ := Option.map_eq_some_iff.mp found
    obtain ⟨below, _⟩ := Array.getElem?_eq_some_iff.mp place
    have different : position ≠ s.contexts.size := Nat.ne_of_lt below
    rw [Array.getElem?_push, if_neg different]
    exact found
  refine ⟨h.contextCount, { h with
    contexts := fun place apart => ?_
    identity := inside h.identity
    identity' := inside h.identity'
    contextCount := ?_
    next := ?_ }⟩
  · simp only [Session.addContext, Array.getElem?_push, h.contextCount, h.next,
      h.contexts place apart]
  · simp [Session.addContext, h.contextCount]
  · exact congrArg (· + 1) h.next

/-- An extra context is the same on both sides, unless it is the hidden one. -/
theorem extra? (h : Alike position hidden s s') (extra : Nat) :
    Option.Rel (Context.Alike hidden (some extra ≠ some position)) s.contexts[extra]?
      s'.contexts[extra]? := by
  by_cases hides : extra = position
  · subst hides
    obtain ⟨c, place, identity⟩ := Option.map_eq_some_iff.mp h.identity
    obtain ⟨c', place', identity'⟩ := Option.map_eq_some_iff.mp h.identity'
    rw [place, place']
    exact .some ⟨fun different => absurd rfl different, fun _ => ⟨identity, identity'⟩⟩
  · have seen : some extra ≠ some position := fun equal => hides (Option.some.inj equal)
    rw [h.contexts extra hides]
    cases s.contexts[extra]? with
    | none => exact .none
    | some c => exact .some ((Context.alike_iff seen).mpr rfl)

/-- A context is put back in its place on both sides. -/
theorem setExtra (h : Alike position hidden s s') {extra : Nat} {c c' : Context}
    (contexts : c.Alike hidden (some extra ≠ some position) c') : Alike position hidden
      { s with contexts := s.contexts.setIfInBounds extra c }
      { s' with contexts := s'.contexts.setIfInBounds extra c' } := by
  by_cases hides : extra = position
  · subst hides
    rcases contexts.identity fun different => different rfl with ⟨identity, identity'⟩
    exact h.setHidden identity identity'
  · rw [contexts.same fun equal => hides (Option.some.inj equal)]
    exact h.setContext hides c

end Alike

end Session

end NodeGraph
