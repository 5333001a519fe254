import Mathlib.Data.List.Forall2
import NodeGraph.Engine.Run

/-!
# Runs, recursively

A run keeps the tasks still to be done in a list. Here a run is told without such a list: to do a
task completely is to make its step and then to do completely what is bound to the outputs that the
step leads to, output by output and link by link (`Machine.bound`). The two agree: the list ends
exactly when the recursion does, with the same steps, machine and last node
(`Run.finish_of_completes`, `Run.completes_of_finish`).
-/

namespace NodeGraph

/-- What a run asks of the state it drives: the step of a task, and the nodes linked to flow
outputs. -/
structure Walker (σ : Type) where
  perform : σ → Task → Step × σ
  following : σ → NodeId → List PortId → List NodeId

/-- A step that was made, and the state it left. -/
structure Visit (σ : Type) where
  task : Task
  step : Step
  after : σ

/-- The node that made the step. -/
def Visit.node {σ : Type} (v : Visit σ) : NodeId := v.task.node

namespace Walker

variable {σ : Type} (w : Walker σ)

mutual

/-- Doing a task completely from the first state makes these steps, ends at that node and leaves the
last state. What follows a step is done node by node; where nothing follows, the node itself is the
one the task ends at. A loop does its body and is then resumed. -/
inductive Completes : σ → Task → List (Visit σ) → NodeId → σ → Prop where
  | follow {s s₁ s₂ : σ} {task : Task} {ports : List PortId} {visits : List (Visit σ)}
      {last : NodeId} (made : w.perform s task = (.follow ports, s₁))
      (followed : CompletesEach s₁ (w.following s₁ task.node ports) task.node visits last s₂) :
      Completes s task (⟨task, .follow ports, s₁⟩ :: visits) last s₂
  | again {s s₁ s₂ s₃ : σ} {task : Task} {body : PortId} {frame : LoopFrame}
      {inner outer : List (Visit σ)} {ended last : NodeId}
      (made : w.perform s task = (.again body frame, s₁))
      (passed : CompletesEach s₁ (w.following s₁ task.node [body]) task.node inner ended s₂)
      (resumed : Completes s₂ (.resume task.node frame) outer last s₃) :
      Completes s task (⟨task, .again body frame, s₁⟩ :: (inner ++ outer)) last s₃

/-- Entering nodes one after the other, each completely. The last of them says where this ends;
without any, that is the node given beforehand. -/
inductive CompletesEach : σ → List NodeId → NodeId → List (Visit σ) → NodeId → σ → Prop where
  | nil {s : σ} {last : NodeId} : CompletesEach s [] last [] last s
  | cons {s s₁ s₂ : σ} {id : NodeId} {rest : List NodeId} {before ended last : NodeId}
      {first others : List (Visit σ)} (one : Completes s (.enter id) first ended s₁)
      (each : CompletesEach s₁ rest ended others last s₂) :
      CompletesEach s (id :: rest) before (first ++ others) last s₂

end

variable {w}

theorem CompletesEach.last_eq_of_nil {s s' : σ} {before last : NodeId} {visits : List (Visit σ)}
    (h : w.CompletesEach s [] before visits last s') : last = before := by
  cases h
  rfl

/-- A task whose step leads on is done completely as all that follows is. -/
theorem completes_iff_of_follows {s s₁ s' : σ} {task : Task} {ports : List PortId}
    {visits : List (Visit σ)} {last : NodeId} (made : w.perform s task = (.follow ports, s₁)) :
    w.Completes s task visits last s' ↔
      ∃ others, visits = ⟨task, .follow ports, s₁⟩ :: others ∧
        w.CompletesEach s₁ (w.following s₁ task.node ports) task.node others last s' := by
  constructor
  · intro completes
    cases completes with
    | follow again followed =>
      obtain ⟨same, rfl⟩ := Prod.mk.inj (made.symm.trans again)
      obtain rfl := Step.follow.inj same
      exact ⟨_, rfl, followed⟩
    | again again _ _ => cases made.symm.trans again
  · rintro ⟨others, rfl, followed⟩
    exact .follow made followed

/-- A step that is followed by no other is all there is to do. -/
theorem Completes.of_ends {s s' : σ} {task : Task} {ports : List PortId}
    (made : w.perform s task = (.follow ports, s')) (ends : w.following s' task.node ports = []) :
    w.Completes s task [⟨task, .follow ports, s'⟩] task.node s' := by
  refine .follow made ?_
  rw [ends]
  exact .nil

/-- A step that is followed by one other, which is then done completely. -/
theorem Completes.of_follows {s s₁ s' : σ} {task : Task} {ports : List PortId} {id last : NodeId}
    {visits : List (Visit σ)} (made : w.perform s task = (.follow ports, s₁))
    (follows : w.following s₁ task.node ports = [id])
    (completes : w.Completes s₁ (.enter id) visits last s') :
    w.Completes s task (⟨task, .follow ports, s₁⟩ :: (visits ++ [])) last s' := by
  refine .follow made ?_
  rw [follows]
  exact .cons completes .nil

/-- The node given beforehand matters only for where this ends. -/
theorem CompletesEach.exists_from {s s' : σ} {ids : List NodeId} {before last : NodeId}
    {visits : List (Visit σ)} (h : w.CompletesEach s ids before visits last s')
    (before' : NodeId) : ∃ last', w.CompletesEach s ids before' visits last' s' := by
  cases h with
  | nil => exact ⟨before', .nil⟩
  | cons one each => exact ⟨last, .cons one each⟩

/-- The node a task ends at is the node of the very last step. -/
theorem Completes.getLast? {s s' : σ} {task : Task} {visits : List (Visit σ)} {last : NodeId}
    (h : w.Completes s task visits last s') : visits.getLast?.map Visit.node = some last := by
  induction h using Completes.rec
    (motive_2 := fun _ _ before visits last _ _ =>
      (visits.getLast?.map Visit.node).getD before = last) with
  | @follow s s₁ s₂ task ports visits last made followed ended =>
    cases visits with
    | nil => simpa [Visit.node] using ended
    | cons visit visits =>
      rw [List.getLast?_cons_cons]
      simpa [List.getLast?_cons] using ended
  | @again s s₁ s₂ s₃ task body frame inner outer ended last made passed resumed _ closed =>
    obtain ⟨visit, found, node⟩ := Option.map_eq_some_iff.mp closed
    rw [← List.cons_append, List.getLast?_append, found, Option.some_or, Option.map_some, node]
  | nil => rfl
  | @cons s s₁ s₂ id rest before ended last first others one each closed closedEach =>
    rw [List.getLast?_append]
    cases found : others.getLast? with
    | none => simpa [found, closed] using closedEach
    | some visit => simpa [found] using closedEach

/-- What every step keeps holds where the very last step is made, which is a step that is followed
by no other and that leaves the last state. -/
theorem Completes.exists_last_step {P : σ → Prop}
    (performed : ∀ {s} task, P s → P (w.perform s task).2) {s s' : σ} {task : Task}
    {visits : List (Visit σ)} {last : NodeId} (h : w.Completes s task visits last s')
    (begun : P s) : P s' ∧ ∃ s₁ task ports, P s₁ ∧ task.node = last ∧
      w.perform s₁ task = (.follow ports, s') := by
  induction h using Completes.rec
    (motive_2 := fun s ids before visits last s' _ => P s → P s' ∧
      ((last = before ∧ s' = s) ∨ ∃ s₁ task ports, P s₁ ∧ task.node = last ∧
        w.perform s₁ task = (.follow ports, s'))) with
  | @follow s s₁ s₂ task ports visits last made followed each =>
    have stepped := performed task begun
    rw [made] at stepped
    obtain ⟨ended, ⟨rfl, rfl⟩ | later⟩ := each stepped
    · exact ⟨ended, s, task, ports, begun, rfl, made⟩
    · exact ⟨ended, later⟩
  | @again s s₁ s₂ s₃ task body frame inner outer ended last made passed resumed each again =>
    have stepped := performed task begun
    rw [made] at stepped
    exact again (each stepped).1
  | nil =>
    rename_i begun
    exact ⟨begun, .inl ⟨rfl, rfl⟩⟩
  | @cons s s₁ s₂ id rest before ended last first others one each entered followed =>
    rename_i begun
    obtain ⟨between, ending⟩ := entered begun
    obtain ⟨after, ⟨rfl, rfl⟩ | later⟩ := followed between
    · exact ⟨after, .inr ending⟩
    · exact ⟨after, .inr later⟩

/-- What every step keeps holds after a task is done. -/
theorem Completes.keeps {P : σ → Prop} (performed : ∀ {s} task, P s → P (w.perform s task).2)
    {s s' : σ} {task : Task} {visits : List (Visit σ)} {last : NodeId}
    (h : w.Completes s task visits last s') (begun : P s) : P s' :=
  (h.exists_last_step performed begun).1

theorem CompletesEach.keeps {P : σ → Prop}
    (performed : ∀ {s} task, P s → P (w.perform s task).2) {s s' : σ} {ids : List NodeId}
    {before last : NodeId} {visits : List (Visit σ)}
    (h : w.CompletesEach s ids before visits last s') (begun : P s) : P s' := by
  induction ids generalizing s before visits with
  | nil =>
    cases h
    exact begun
  | cons id rest ih =>
    cases h with
    | cons one each => exact ih each (one.keeps performed begun)

/-- Two walkers that make the same steps from related states, and find the same nodes to follow,
complete the same tasks. They need to agree only for the tasks `T` that are gone to. -/
theorem Completes.simulate_within {τ : Type} {v : Walker τ} {R : σ → τ → Prop}
    {A : Visit σ → Visit τ → Prop} {T : Task → Prop}
    (perform : ∀ {s t}, R s t → ∀ task, T task → (v.perform t task).1 = (w.perform s task).1 ∧
      R (w.perform s task).2 (v.perform t task).2 ∧
      A ⟨task, (w.perform s task).1, (w.perform s task).2⟩
        ⟨task, (v.perform t task).1, (v.perform t task).2⟩)
    (following : ∀ {s t}, R s t → ∀ task ports, T task →
      v.following t task.node ports = w.following s task.node ports ∧
        ∀ id ∈ w.following s task.node ports, T (.enter id))
    (resumed : ∀ task frame, T task → T (.resume task.node frame))
    {s s' : σ} {task : Task} {visits : List (Visit σ)} {last : NodeId}
    (h : w.Completes s task visits last s') :
    ∀ {t}, R s t → T task → ∃ visits' t', v.Completes t task visits' last t' ∧ R s' t' ∧
      List.Forall₂ A visits visits' := by
  induction h using Completes.rec
    (motive_2 := fun s ids before visits last s' _ => ∀ {t}, R s t →
      (∀ id ∈ ids, T (.enter id)) → ∃ visits' t',
        v.CompletesEach t ids before visits' last t' ∧ R s' t' ∧
          List.Forall₂ A visits visits') with
  | @follow s s₁ s₂ task ports visits last made followed each =>
    intro t related within
    rcases perform related task within with ⟨step, related, agree⟩
    rw [made] at step related agree
    obtain ⟨same, inside⟩ := following related task ports within
    obtain ⟨visits', t', completes, related', agrees⟩ := each related inside
    rw [← same] at completes
    have made' : v.perform t task = (.follow ports, (v.perform t task).2) := Prod.ext step rfl
    rw [made'] at agree
    exact ⟨_, t', .follow made' completes, related', .cons agree agrees⟩
  | @again s s₁ s₂ s₃ task body frame inner outer ended last made passed _ each again =>
    intro t related within
    rcases perform related task within with ⟨step, begun, agree⟩
    rw [made] at step begun agree
    obtain ⟨same, inside⟩ := following begun task [body] within
    obtain ⟨inner', t₂, completes, passed', inners⟩ := each begun inside
    obtain ⟨outer', t₃, completes', related', outers⟩ := again passed' (resumed task frame within)
    rw [← same] at completes
    have made' : v.perform t task = (.again body frame, (v.perform t task).2) := Prod.ext step rfl
    rw [made'] at agree
    exact ⟨_, t₃, .again made' completes completes', related',
      .cons agree (List.rel_append inners outers)⟩
  | nil =>
    rename_i related _
    exact ⟨[], _, .nil, related, .nil⟩
  | @cons s s₁ s₂ id rest before ended last first others one each entered followed =>
    rename_i t related within
    obtain ⟨first', t₁, completes, related, firsts⟩ := entered related (within id List.mem_cons_self)
    obtain ⟨others', t₂, completesEach, related', agrees⟩ :=
      followed related fun other member => within other (List.mem_cons_of_mem id member)
    exact ⟨_, t₂, .cons completes completesEach, related', List.rel_append firsts agrees⟩

/-- The same of walkers that agree throughout. -/
theorem Completes.simulate {τ : Type} {w' : Walker τ} {R : σ → τ → Prop}
    {Agree : Visit σ → Visit τ → Prop}
    (perform : ∀ {s t}, R s t → ∀ task, (w'.perform t task).1 = (w.perform s task).1 ∧
      R (w.perform s task).2 (w'.perform t task).2 ∧
      Agree ⟨task, (w.perform s task).1, (w.perform s task).2⟩
        ⟨task, (w'.perform t task).1, (w'.perform t task).2⟩)
    (following : ∀ {s t}, R s t → ∀ id ports, w'.following t id ports = w.following s id ports)
    {s s' : σ} {task : Task} {visits : List (Visit σ)} {last : NodeId}
    (h : w.Completes s task visits last s') {t : τ} (related : R s t) :
    ∃ visits' t', w'.Completes t task visits' last t' ∧ R s' t' ∧
      List.Forall₂ Agree visits visits' :=
  h.simulate_within (T := fun _ => True) (fun related task _ => perform related task)
    (fun related task ports _ => ⟨following related task.node ports, fun _ _ => trivial⟩)
    (fun _ _ _ => trivial) related trivial

end Walker

/-- The nodes bound to outputs of a node, read off the links: output by output in the order given,
and of each output link by link, oldest first. A node with several links from an output is named
once for each. -/
def Machine.bound (m : Machine) (id : NodeId) (ports : List PortId) : List NodeId :=
  ports.flatMap fun port =>
    match m.engine.graph.output? ⟨id, port⟩ with
    | some output => output.targets.toList.map fun target => target.node
    | none => []

/-- Machines as the recursion drives them: a step leads to the nodes bound to its outputs. -/
def Machine.walker : Walker Machine := ⟨Machine.perform, Machine.bound⟩

/-- What the list of tasks takes up next are the nodes bound to the outputs. -/
theorem Machine.following_eq_bound (m : Machine) (id : NodeId) (ports : List PortId) :
    m.following id ports = m.bound id ports := by
  unfold following bound Graph.successors
  rfl

theorem Machine.walker_following (m : Machine) (id : NodeId) (ports : List PortId) :
    Machine.walker.following m id ports = m.following id ports :=
  (m.following_eq_bound id ports).symm

namespace Run

/-- The steps a run makes within a limit, in order. -/
def visits : (limit : Nat) → Run → List (Visit Machine)
  | _, ⟨_, [], _⟩ => []
  | 0, ⟨_, _ :: _, _⟩ => []
  | limit + 1, ⟨m, task :: rest, last⟩ =>
    ⟨task, (m.perform task).1, (m.perform task).2⟩ :: visits limit (advance m task rest last)

/-- A greater limit adds steps at the end only. -/
theorem visits_prefix {limit limit' : Nat} (le : limit ≤ limit') (r : Run) :
    visits limit r <+: visits limit' r := by
  obtain ⟨m, pending, last⟩ := r
  induction limit generalizing limit' m pending last with
  | zero => cases pending <;> exact List.nil_prefix
  | succ limit ih =>
    obtain ⟨limit', rfl⟩ := Nat.exists_eq_add_of_le' (Nat.lt_of_lt_of_le (Nat.succ_pos _) le)
    cases pending with
    | nil => exact List.nil_prefix
    | cons task rest =>
      exact (List.prefix_cons_inj _).mpr (ih (Nat.le_of_succ_le_succ le) _ _ _)

theorem advance_follow {m m₁ : Machine} {task : Task} {ports : List PortId}
    (made : m.perform task = (.follow ports, m₁)) (rest : List Task) (last : NodeId) :
    advance m task rest last =
      ⟨m₁, (m₁.following task.node ports).map .enter ++ rest,
        if m₁.following task.node ports = [] then task.node else last⟩ := by
  unfold advance
  rw [made]
  dsimp only
  split
  case h_1 none => simp [none]
  case h_2 next some => rw [if_neg some]

theorem advance_again {m m₁ : Machine} {task : Task} {body : PortId} {frame : LoopFrame}
    (made : m.perform task = (.again body frame, m₁)) (rest : List Task) (last : NodeId) :
    advance m task rest last =
      ⟨m₁, (m₁.following task.node [body]).map .enter ++ .resume task.node frame :: rest, last⟩ := by
  unfold advance
  rw [made]

theorem machine_advance (m : Machine) (task : Task) (rest : List Task) (last : NodeId) :
    (advance m task rest last).machine = (m.perform task).2 := by
  generalize made : m.perform task = stepped
  obtain ⟨step, m₁⟩ := stepped
  cases step with
  | follow ports => rw [advance_follow made]
  | again body frame => rw [advance_again made]

/-- The tasks and steps that remain after `steps` of them, and where this leads. -/
def Leads (r : Run) (steps : List (Visit Machine)) (r' : Run) : Prop :=
  ∀ limit, finish (steps.length + limit) r = finish limit r' ∧
    visits (steps.length + limit) r = steps ++ visits limit r'

theorem Leads.refl (r : Run) : Leads r [] r := fun limit => by simp

theorem Leads.trans {r r₁ r₂ : Run} {first others : List (Visit Machine)} (h : Leads r first r₁)
    (h₁ : Leads r₁ others r₂) : Leads r (first ++ others) r₂ := by
  intro limit
  rcases h (others.length + limit) with ⟨finished, visited⟩
  rcases h₁ limit with ⟨finished₁, visited₁⟩
  rw [List.length_append, Nat.add_assoc]
  exact ⟨finished.trans finished₁, by rw [visited, visited₁, List.append_assoc]⟩

theorem leads_advance (m : Machine) (task : Task) (rest : List Task) (last : NodeId) :
    Leads ⟨m, task :: rest, last⟩ [⟨task, (m.perform task).1, (m.perform task).2⟩]
      (advance m task rest last) := by
  intro limit
  rw [List.length_singleton, Nat.add_comm 1 limit]
  exact ⟨rfl, rfl⟩

/-- What can be done completely is done by the list of tasks before it turns to the rest. -/
theorem finish_of_completes {m m' : Machine} {task : Task} {steps : List (Visit Machine)}
    {last : NodeId} (h : Machine.walker.Completes m task steps last m') :
    ∀ rest before, Leads ⟨m, task :: rest, before⟩ steps ⟨m', rest, last⟩ := by
  induction h using Walker.Completes.rec
    (motive_2 := fun m ids _ steps last m' _ => ∀ rest before,
      Leads ⟨m, ids.map .enter ++ rest, before⟩ steps
        ⟨m', rest, if ids = [] then before else last⟩) with
  | @follow m m₁ m₂ task ports steps last made followed each =>
    intro rest before
    rw [Machine.walker_following] at followed each
    have first := leads_advance m task rest before
    have next := each rest (if m₁.following task.node ports = [] then task.node else before)
    rw [show m.perform task = _ from made, advance_follow made] at first
    have ends : (if m₁.following task.node ports = [] then
        (if m₁.following task.node ports = [] then task.node else before) else last) = last := by
      split
      case isTrue none =>
        rw [none] at followed
        exact followed.last_eq_of_nil.symm
      case isFalse => rfl
    rw [ends] at next
    exact first.trans next
  | @again m m₁ m₂ m₃ task body frame inner outer ended last made passed resumed each again =>
    intro rest before
    rw [Machine.walker_following] at each
    have first := leads_advance m task rest before
    rw [show m.perform task = _ from made, advance_again made] at first
    exact first.trans ((each (.resume task.node frame :: rest) before).trans (again rest _))
  | nil => exact Leads.refl _
  | @cons m m₁ m₂ id ids _ ended last first others one each entered followed =>
    rename_i rest before
    have later := followed rest ended
    have ends : (if ids = [] then ended else last) = last := by
      split
      case isTrue none =>
        subst none
        exact each.last_eq_of_nil.symm
      case isFalse => rfl
    rw [ends] at later
    rw [if_neg (List.cons_ne_nil id ids)]
    exact (entered (ids.map .enter ++ rest) before).trans later

/-- Within so many tasks, a list that is worked off has done its first task completely before it
turned to the rest. -/
def Unwinds (limit : Nat) : Prop :=
  ∀ m task rest before run, finish limit ⟨m, task :: rest, before⟩ = some run →
    ∃ steps last m' left, Machine.walker.Completes m task steps last m' ∧
      limit = steps.length + left ∧ finish left ⟨m', rest, last⟩ = some run

/-- The same of nodes that are entered one after the other. -/
theorem completesEach_of_finish {bound : Nat} (unwinds : ∀ k < bound, Unwinds k) (start : NodeId) :
    ∀ {ids : List NodeId} {k : Nat} {m : Machine} {rest : List Task} {before : NodeId} {run : Run},
      k < bound → finish k ⟨m, ids.map .enter ++ rest, before⟩ = some run →
        ∃ steps last m' left, Machine.walker.CompletesEach m ids start steps last m' ∧
          k = steps.length + left ∧
          finish left ⟨m', rest, if ids = [] then before else last⟩ = some run := by
  intro ids
  induction ids generalizing start with
  | nil =>
    intro k m rest before run below finished
    exact ⟨[], start, m, k, .nil, (Nat.zero_add k).symm, finished⟩
  | cons id ids ih =>
    intro k m rest before run below finished
    obtain ⟨first, ended, m₁, left, one, length, finished⟩ :=
      unwinds k below m (.enter id) (ids.map Task.enter ++ rest) before run finished
    obtain ⟨others, last, m', left', each, length', finished⟩ :=
      ih ended (show left < bound by omega) finished
    refine ⟨first ++ others, last, m', left', .cons one each, ?_, ?_⟩
    · rw [List.length_append]
      omega
    · rw [if_neg (List.cons_ne_nil id ids)]
      by_cases none : ids = []
      · subst none
        rw [if_pos rfl] at finished
        rw [each.last_eq_of_nil]
        exact finished
      · rw [if_neg none] at finished
        exact finished

theorem completes_of_finish : ∀ limit, Unwinds limit := by
  intro limit
  induction limit using Nat.strongRecOn with
  | ind limit unwinds =>
    intro m task rest before run finished
    cases limit with
    | zero => simp [finish] at finished
    | succ limit =>
      change finish limit (advance m task rest before) = some run at finished
      generalize made : m.perform task = stepped
      obtain ⟨step, m₁⟩ := stepped
      cases step with
      | follow ports =>
        rw [advance_follow made] at finished
        obtain ⟨steps, last, m', left, each, length, finished⟩ :=
          completesEach_of_finish unwinds task.node (Nat.lt_succ_self limit) finished
        rw [← Machine.walker_following] at each
        refine ⟨_, last, m', left, .follow made each, ?_, ?_⟩
        · rw [List.length_cons]
          omega
        · by_cases none : m₁.following task.node ports = []
          · rw [Machine.walker_following, none] at each
            rw [if_pos none, if_pos none] at finished
            rw [each.last_eq_of_nil]
            exact finished
          · rw [if_neg none] at finished
            exact finished
      | again body frame =>
        rw [advance_again made] at finished
        obtain ⟨inner, ended, m₂, left, each, length, finished⟩ :=
          completesEach_of_finish unwinds task.node (Nat.lt_succ_self limit) finished
        obtain ⟨outer, last, m', left', resumed, length', finished⟩ :=
          unwinds left (by omega) m₂ _ rest _ run finished
        rw [← Machine.walker_following] at each
        refine ⟨_, last, m', left', .again made each resumed, ?_, finished⟩
        rw [List.length_cons, List.length_append]
        omega

end Run

namespace Machine

variable {m m' : Machine} {start last : NodeId}

theorem completes_of_execute {limit : Nat}
    (executed : m.execute limit start = some (.ok last, m')) :
    (∃ node, m.engine.graph.node? start = some node) ∧
      Machine.walker.Completes m (.enter start) (Run.visits limit (Run.start m start)) last m' := by
  unfold execute at executed
  split at executed
  · simp at executed
  case h_2 node found =>
    obtain ⟨run, finished, result⟩ := Option.map_eq_some_iff.mp executed
    obtain ⟨steps, last', m₁, left, completes, rfl, finished'⟩ :=
      Run.completes_of_finish limit m (.enter start) [] start run finished
    obtain rfl : ⟨m₁, [], last'⟩ = run := by
      simpa [Run.finish] using finished'
    obtain ⟨rfl, rfl⟩ : last' = last ∧ m₁ = m' := by simpa using result
    refine ⟨⟨node, Graph.node_eq_ok_iff.mp found⟩, ?_⟩
    have visited := (Run.finish_of_completes completes [] start left).2
    rw [show Run.start m start = ⟨m, [.enter start], start⟩ from rfl, visited]
    simpa [Run.visits] using completes

/-- As many steps as there are to make are enough, and so is any greater limit. -/
theorem execute_of_le {steps : List (Visit Machine)}
    (found : ∃ node, m.engine.graph.node? start = some node)
    (completes : Machine.walker.Completes m (.enter start) steps last m') {limit : Nat}
    (le : steps.length ≤ limit) : m.execute limit start = some (.ok last, m') ∧
      Run.visits limit (Run.start m start) = steps := by
  obtain ⟨node, found⟩ := found
  obtain ⟨left, rfl⟩ := Nat.exists_eq_add_of_le le
  rcases Run.finish_of_completes completes [] start left with ⟨finished, visited⟩
  have ended : Run.finish left ⟨m', [], last⟩ = some ⟨m', [], last⟩ := by cases left <;> rfl
  have rested : Run.visits left ⟨m', [], last⟩ = [] := by cases left <;> rfl
  refine ⟨?_, ?_⟩
  · unfold execute
    rw [Graph.node_eq_ok_iff.mpr found]
    dsimp only
    rw [show Run.start m start = ⟨m, [.enter start], start⟩ from rfl, finished, ended]
    rfl
  · rw [show Run.start m start = ⟨m, [.enter start], start⟩ from rfl, visited, rested,
      List.append_nil]

theorem execute_of_completes {steps : List (Visit Machine)}
    (found : ∃ node, m.engine.graph.node? start = some node)
    (completes : Machine.walker.Completes m (.enter start) steps last m') :
    ∃ limit, m.execute limit start = some (.ok last, m') ∧
      Run.visits limit (Run.start m start) = steps :=
  ⟨steps.length, execute_of_le found completes (Nat.le_refl _)⟩

/-- A run from a node ends exactly when the recursion does, with the same steps, the same machine
and the same last node, which is the node of the very last step. A node that does not exist is
refused, and nothing is done. -/
theorem execute_iff_completes (m m' : Machine) (start last : NodeId)
    (steps : List (Visit Machine)) :
    ((∃ limit, m.execute limit start = some (.ok last, m') ∧
        Run.visits limit (Run.start m start) = steps) ↔
      (∃ node, m.engine.graph.node? start = some node) ∧
        Machine.walker.Completes m (.enter start) steps last m') ∧
    (Machine.walker.Completes m (.enter start) steps last m' →
      steps.getLast?.map Visit.node = some last) ∧
    (m.engine.graph.node? start = none →
      ∀ limit, m.execute limit start = some (.error (.noNode start), m)) := by
  refine ⟨⟨?_, ?_⟩, Walker.Completes.getLast?, ?_⟩
  · rintro ⟨limit, executed, rfl⟩
    exact completes_of_execute executed
  · rintro ⟨found, completes⟩
    exact execute_of_completes found completes
  · intro missing limit
    unfold execute Graph.node
    rw [missing]

open Layout in
/-- A loop over 0 and 1 whose body is a branch on the index. For 0 it prints `zero`; for 1 it prints
`a` and then `b`, which are linked to it in the other order than they are numbered in. After the
loop `done` is printed. -/
def branching : Machine :=
  let print (text : String) : Node :=
    (Node.ofKind (.action .print)).withLiteral Print.value (.text text)
  let nodes :=
    [Node.ofKind (.action .start),
      (Node.ofKind (.control .forLoop)).withLiteral ForLoop.finish (.int 2),
      Node.ofKind (.control .ifElse), print "done", print "b", print "a", print "zero"]
  let links : List Link :=
    [⟨⟨0, flowOut⟩, ⟨1, flowIn⟩⟩, ⟨⟨1, ForLoop.body⟩, ⟨2, flowIn⟩⟩,
      ⟨⟨1, ForLoop.index⟩, ⟨2, IfElse.condition⟩⟩, ⟨⟨1, ForLoop.done⟩, ⟨3, flowIn⟩⟩,
      ⟨⟨2, IfElse.whenTrue⟩, ⟨5, flowIn⟩⟩, ⟨⟨2, IfElse.whenTrue⟩, ⟨4, flowIn⟩⟩,
      ⟨⟨2, IfElse.whenFalse⟩, ⟨6, flowIn⟩⟩]
  let empty : Engine := { context := { id := 0 } }
  let unlinked := nodes.foldl (fun e node => (e.addNode node).2) empty
  let engine := links.foldl (fun e link => (e.connect link).toOption.getD e) unlinked
  ⟨engine, engine.context⟩

/-- Outputs are followed in the order given and links in the order they were made in. The loop is
entered, resumed after each pass and left last, for the node that prints `done`. -/
theorem completes_branching : ∃ steps m',
    branching.bound 2 [Layout.IfElse.whenTrue, Layout.IfElse.whenFalse] = [5, 4, 6] ∧
      branching.bound 2 [Layout.IfElse.whenFalse, Layout.IfElse.whenTrue] = [6, 5, 4] ∧
      Machine.walker.Completes branching (.enter 0) steps 3 m' ∧
      steps.map Visit.node = [0, 1, 2, 6, 1, 2, 5, 4, 1, 3] ∧
      m'.context.printed = #["zero", "a", "b", "done"] := by
  have ended : (branching.execute 10 0).map (fun r => (r.1.toOption, r.2.context.printed)) =
      some (some 3, #["zero", "a", "b", "done"]) := by
    decide +kernel
  obtain ⟨⟨result, m'⟩, executed, equal⟩ := Option.map_eq_some_iff.mp ended
  obtain ⟨last, printed⟩ := Prod.mk.inj equal
  obtain rfl : result = .ok 3 := by
    cases result with
    | error fault => cases last
    | ok node => exact congrArg Except.ok (Option.some.inj last)
  obtain ⟨_, completes⟩ := (execute_iff_completes branching m' 0 3 _).1.mp ⟨10, executed, rfl⟩
  exact ⟨_, m', by decide +kernel, by decide +kernel, completes, by decide +kernel, printed⟩

end Machine

end NodeGraph
