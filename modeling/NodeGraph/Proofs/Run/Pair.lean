import NodeGraph.Proofs.Engine.Alike
import NodeGraph.Proofs.Run.Recursion

/-!
# Pairs of runs

Two runs go on alike if their steps do and lead to the same nodes. A relation of machines that every
step keeps then holds at the end, whatever the limit is: both runs end within it, or neither does
(`RunPair.execute`).
-/

namespace NodeGraph

theorem relMap {α β γ δ : Type} {R : α → β → Prop} {S : γ → δ → Prop} {x : Option α} {y : Option β}
    (h : Option.Rel R x y) {f : α → γ} {f' : β → δ} (related : ∀ {a b}, R a b → S (f a) (f' b)) :
    Option.Rel S (x.map f) (y.map f') := by
  cases h with
  | none => exact .none
  | some h => exact .some (related h)

/-- What runs that agree may have come to. -/
theorem answers_cases {α : Type} {R : Engine → Engine → Prop}
    {x x' : Option (Except Fault α × Engine)} (h : Option.Rel (AnswersAgree True R) x x') :
    (x = none ∧ x' = none) ∨
      (∃ fault e e', x = some (.error fault, e) ∧ x' = some (.error fault, e') ∧ R e e') ∨
      ∃ a e e', x = some (.ok a, e) ∧ x' = some (.ok a, e') ∧ R e e' := by
  cases h with
  | none => exact .inl ⟨rfl, rfl⟩
  | @some r r' ended =>
    obtain ⟨answer, e⟩ := r
    obtain ⟨answer', e'⟩ := r'
    obtain ⟨answers, after⟩ := ended
    obtain rfl : answer' = answer := answers trivial
    cases answer' with
    | error fault => exact .inr (.inl ⟨fault, e, e', rfl, rfl, after⟩)
    | ok a => exact .inr (.inr ⟨a, e, e', rfl, rfl, after⟩)

theorem Graph.map_node_eq_of_size_eq {g h : Graph} (same : h.size = g.size) (id : NodeId) :
    (h.node id).map (fun _ => ()) = (g.node id).map fun _ => () := by
  cases found : g.node id with
  | error fault =>
    rw [Graph.node_eq_error_iff, ← same, ← Graph.node_eq_error_iff] at found
    rw [found]
  | ok node =>
    cases found' : h.node id with
    | error fault =>
      rw [Graph.node_eq_error_iff, same, ← Graph.node_eq_error_iff, found] at found'
      cases found'
    | ok node' => rfl

/-- A relation of engines between two operations, and one of machines between two steps, that runs
keep. -/
structure RunPair (R : Engine → Engine → Prop) (M : Machine → Machine → Prop) : Prop where
  own : ∀ {e e'}, R e e' → M ⟨e, e.context⟩ ⟨e', e'.context⟩
  back : ∀ {m m'}, M m m' →
    R { m.engine with context := m.context } { m'.engine with context := m'.context }
  size : ∀ {m m'}, M m m' → m'.engine.graph.size = m.engine.graph.size
  following : ∀ {m m'}, M m m' → ∀ id ports, m'.following id ports = m.following id ports
  perform : ∀ {m m'}, M m m' → ∀ task,
    (m'.perform task).1 = (m.perform task).1 ∧ M (m.perform task).2 (m'.perform task).2

namespace RunPair

variable {R : Engine → Engine → Prop} {M : Machine → Machine → Prop} (pair : RunPair R M)

include pair

/-- After a task the same tasks are left. -/
theorem advance {m m' : Machine} (related : M m m') (task : Task) (rest : List Task)
    (last : NodeId) : ∃ m₁ m₁' tasks last', M m₁ m₁' ∧
      Run.advance m task rest last = ⟨m₁, tasks, last'⟩ ∧
      Run.advance m' task rest last = ⟨m₁', tasks, last'⟩ := by
  rcases pair.perform related task with ⟨steps, after⟩
  generalize made : m.perform task = result at steps after
  generalize made' : m'.perform task = result' at steps after
  obtain ⟨step, m₁⟩ := result
  obtain ⟨step', m₁'⟩ := result'
  obtain rfl : step' = step := steps
  cases step' with
  | follow ports =>
    refine ⟨m₁, m₁', _, _, after, Run.advance_follow made rest last, ?_⟩
    rw [Run.advance_follow made', pair.following after]
  | again body frame =>
    refine ⟨m₁, m₁', _, _, after, Run.advance_again made rest last, ?_⟩
    rw [Run.advance_again made', pair.following after]

/-- Both runs end within the limit, at the same node, or neither does. -/
theorem finish (limit : Nat) {m m' : Machine} (related : M m m') (tasks : List Task)
    (last : NodeId) :
    Option.Rel (fun r r' => M r.machine r'.machine ∧ r'.pending = r.pending ∧ r'.last = r.last)
      (Run.finish limit ⟨m, tasks, last⟩) (Run.finish limit ⟨m', tasks, last⟩) := by
  induction limit generalizing m m' tasks last with
  | zero =>
    cases tasks with
    | nil => exact .some ⟨related, rfl, rfl⟩
    | cons task rest => exact .none
  | succ limit ih =>
    cases tasks with
    | nil => exact .some ⟨related, rfl, rfl⟩
    | cons task rest =>
      obtain ⟨m₁, m₁', tasks, last', after, advanced, advanced'⟩ :=
        pair.advance related task rest last
      unfold Run.finish
      rw [advanced, advanced']
      exact ih after tasks last'

/-- Where the sides may be the same, their runs are too. -/
theorem orSame (same : Prop) : RunPair (fun e e' => R e e' ∨ same ∧ e' = e)
    (fun m m' => M m m' ∨ same ∧ m' = m) where
  own := by
    rintro e e' (related | ⟨holds, rfl⟩)
    · exact .inl (pair.own related)
    · exact .inr ⟨holds, rfl⟩
  back := by
    rintro m m' (related | ⟨holds, rfl⟩)
    · exact .inl (pair.back related)
    · exact .inr ⟨holds, rfl⟩
  size := by
    rintro m m' (related | ⟨_, rfl⟩)
    · exact pair.size related
    · rfl
  following := by
    rintro m m' (related | ⟨_, rfl⟩) id ports
    · exact pair.following related id ports
    · rfl
  perform := by
    rintro m m' (related | ⟨holds, rfl⟩) task
    · exact ⟨(pair.perform related task).1, .inl (pair.perform related task).2⟩
    · exact ⟨rfl, .inr ⟨holds, rfl⟩⟩

variable (limit : Nat)

theorem execute {m m' : Machine} (related : M m m') (start : NodeId) :
    Option.Rel (AnswersAgree True M) (m.execute limit start) (m'.execute limit start) := by
  have found := resultsAgree_of_map_eq (Graph.map_node_eq_of_size_eq (pair.size related) start)
  unfold Machine.execute
  generalize m.engine.graph.node start = node at found ⊢
  generalize m'.engine.graph.node start = node' at found ⊢
  cases found with
  | refused fault => exact .some ⟨fun _ => rfl, related⟩
  | done _ =>
    refine relMap (pair.finish limit related [.enter start] start) ?_
    rintro r r' ⟨machines, _, lasts⟩
    exact ⟨fun _ => congrArg Except.ok lasts, machines⟩

/-- A run for the engine's own context. -/
theorem executeOwn {e e' : Engine} (related : R e e') (start : NodeId) :
    Option.Rel (AnswersAgree True R) (e.execute limit start) (e'.execute limit start) := by
  refine relMap (pair.execute limit (pair.own related) start) ?_
  rintro r r' ⟨answers, machines⟩
  exact ⟨answers, pair.back machines⟩

theorem executeNodes {e e' : Engine} (related : R e e') (ids : List NodeId) :
    Option.Rel (AnswersAgree True R) (e.executeNodes limit ids) (e'.executeNodes limit ids) := by
  induction ids generalizing e e' with
  | nil => exact .some ⟨fun _ => rfl, related⟩
  | cons id rest ih =>
    unfold Engine.executeNodes
    rcases answers_cases (pair.executeOwn limit related id) with
      ⟨unended, unended'⟩ | ⟨fault, e, e', ended, ended', after⟩ | ⟨_, e, e', ended, ended', after⟩
    · rw [unended, unended']
      exact .none
    · rw [ended, ended']
      exact .some ⟨fun _ => rfl, after⟩
    · rw [ended, ended']
      exact ih after

theorem executeOutputs {e e' : Engine} (related : R e e') (addrs : List OutputAddr) :
    Option.Rel (AnswersAgree True R) (e.executeOutputs limit addrs)
      (e'.executeOutputs limit addrs) := by
  induction addrs generalizing e e' with
  | nil => exact .some ⟨fun _ => rfl, related⟩
  | cons addr rest ih =>
    have linked : e'.graph.successors addr = e.graph.successors addr := by
      simpa [Machine.following] using pair.following (pair.own related) addr.node [addr.port]
    unfold Engine.executeOutputs
    rw [linked]
    rcases answers_cases (pair.executeNodes limit related (e.graph.successors addr)) with
      ⟨unended, unended'⟩ | ⟨fault, e, e', ended, ended', after⟩ | ⟨_, e, e', ended, ended', after⟩
    · rw [unended, unended']
      exact .none
    · rw [ended, ended']
      exact .some ⟨fun _ => rfl, after⟩
    · rw [ended, ended']
      exact ih after

end RunPair

end NodeGraph
