/-!
# Results that agree

Two computations that may be refused agree if both are refused for the same reason, or both succeed
with related results. Each part of a computation may be compared on its own (`ResultsAgree.bind`),
and a view that does not tell two results apart relates them (`resultsAgree_of_map_eq`).
-/

namespace NodeGraph

/-- Both are refused for the same reason, or both succeed with related results. -/
inductive ResultsAgree {ε α β : Type} (R : α → β → Prop) : Except ε α → Except ε β → Prop where
  | refused (reason : ε) : ResultsAgree R (.error reason) (.error reason)
  | done {a : α} {b : β} : R a b → ResultsAgree R (.ok a) (.ok b)

theorem ResultsAgree.refl {ε α : Type} {R : α → α → Prop} (related : ∀ a, R a a)
    (x : Except ε α) : ResultsAgree R x x := by
  cases x with
  | error reason => exact .refused reason
  | ok a => exact .done (related a)

theorem ResultsAgree.mono {ε α β : Type} {R S : α → β → Prop} {x : Except ε α} {y : Except ε β}
    (h : ResultsAgree R x y) (related : ∀ {a b}, R a b → S a b) : ResultsAgree S x y := by
  cases h with
  | refused reason => exact .refused reason
  | done h => exact .done (related h)

theorem ResultsAgree.map {ε α β γ δ : Type} {R : α → β → Prop} {S : γ → δ → Prop} {x : Except ε α}
    {y : Except ε β} (h : ResultsAgree R x y) {f : α → γ} {f' : β → δ}
    (related : ∀ {a b}, R a b → S (f a) (f' b)) : ResultsAgree S (x.map f) (y.map f') := by
  cases h with
  | refused reason => exact .refused reason
  | done h => exact .done (related h)

theorem ResultsAgree.bind {ε α β γ δ : Type} {R : α → β → Prop} {S : γ → δ → Prop} {x : Except ε α}
    {y : Except ε β} (h : ResultsAgree R x y) {f : α → Except ε γ} {f' : β → Except ε δ}
    (related : ∀ {a b}, R a b → ResultsAgree S (f a) (f' b)) :
    ResultsAgree S (x >>= f) (y >>= f') := by
  cases h with
  | refused reason => exact .refused reason
  | done h => exact related h

/-- The answers are the same, if they are shown, and the states after them are related. -/
def AnswersAgree {α σ : Type} (shown : Prop) (R : σ → σ → Prop) (r r' : α × σ) : Prop :=
  (shown → r'.1 = r.1) ∧ R r.2 r'.2

/-- Results that views of the two sides do not tell apart. -/
theorem resultsAgree_of_map_eq {ε α β γ : Type} {x : Except ε α} {y : Except ε β} {view : α → γ}
    {view' : β → γ} (same : y.map view' = x.map view) :
    ResultsAgree (fun a b => view' b = view a) x y := by
  cases x with
  | error reason =>
    cases y with
    | error other =>
      obtain rfl := Except.error.inj same
      exact .refused _
    | ok b => cases same
  | ok a =>
    cases y with
    | error other => cases same
    | ok b => exact .done (Except.ok.inj same)

end NodeGraph
