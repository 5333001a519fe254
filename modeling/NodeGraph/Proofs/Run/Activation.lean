import NodeGraph.Proofs.Run.Ending

/-!
# Activations of loops

A node is active from when control enters it until the run turns to what was pending before
(`Run.TurnsTo`), and what it does meanwhile does not depend on what is pending
(`Run.turnsTo_iff_completes`). An activation of a loop consists of passes over its body and of what
is linked to Done: the loop goes to its body, everything there is done completely, and then the loop
is resumed with the frame that it left (`Machine.loops_of_completes`).
-/

namespace NodeGraph

namespace Run

/-- The run makes these steps for the tasks that stand before `rest`, and then turns to `rest`. -/
inductive TurnsTo (rest : List Task) : Run → List (Visit Machine) → Run → Prop where
  | now {m : Machine} {last : NodeId} : TurnsTo rest ⟨m, rest, last⟩ [] ⟨m, rest, last⟩
  | later {m : Machine} {task : Task} {before : List Task} {last : NodeId}
    {visits : List (Visit Machine)} {r : Run} :
    TurnsTo rest (advance m task (before ++ rest) last) visits r →
    TurnsTo rest ⟨m, task :: (before ++ rest), last⟩
      (⟨task, (m.perform task).1, (m.perform task).2⟩ :: visits) r

/-- What is pending behind the first task stays behind what follows from it. -/
theorem advance_append (m : Machine) (task : Task) (before rest : List Task) (last : NodeId) :
    advance m task (before ++ rest) last =
      ⟨(advance m task before last).machine, (advance m task before last).pending ++ rest,
        (advance m task before last).last⟩ := by
  generalize made : m.perform task = stepped
  obtain ⟨step, m₁⟩ := stepped
  cases step with
  | follow ports => rw [advance_follow made, advance_follow made, List.append_assoc]
  | again body frame =>
    rw [advance_again made, advance_again made, List.append_assoc, List.cons_append]

/-- What stands before `rest` is done as if nothing else were pending. -/
theorem TurnsTo.alone {rest : List Task} {r r' : Run} {steps : List (Visit Machine)}
    (turns : TurnsTo rest r steps r') (tasks : List Task) (pending : r.pending = tasks ++ rest) :
    finish steps.length ⟨r.machine, tasks, r.last⟩ = some ⟨r'.machine, [], r'.last⟩ ∧
      Run.visits steps.length ⟨r.machine, tasks, r.last⟩ = steps := by
  induction turns generalizing tasks with
  | now =>
    obtain rfl : tasks = [] :=
      List.append_cancel_right (pending.symm.trans (List.nil_append rest).symm)
    exact ⟨rfl, rfl⟩
  | @later m task before last steps r' turns ih =>
    obtain rfl : task :: before = tasks :=
      List.append_cancel_right pending
    rw [advance_append] at ih
    obtain ⟨finished, visited⟩ := ih _ rfl
    exact ⟨finished, congrArg (_ :: ·) visited⟩

/-- Tasks that are done when nothing else is pending are done before the run turns to the rest. -/
theorem turnsTo_of_finish {limit : Nat} {r r' : Run} (finished : finish limit r = some r')
    (rest : List Task) :
    TurnsTo rest ⟨r.machine, r.pending ++ rest, r.last⟩ (Run.visits limit r)
      ⟨r'.machine, rest, r'.last⟩ := by
  induction limit generalizing r with
  | zero =>
    obtain ⟨m, pending, last⟩ := r
    cases pending with
    | nil =>
      obtain rfl := Option.some.inj finished
      exact .now
    | cons task before => cases finished
  | succ limit ih =>
    obtain ⟨m, pending, last⟩ := r
    cases pending with
    | nil =>
      obtain rfl := Option.some.inj finished
      exact .now
    | cons task before =>
      have later := ih finished
      rw [← advance_append] at later
      exact .later later

/-- A task is done, whatever is pending behind it, exactly when the recursion does it completely. -/
theorem turnsTo_iff_completes {m m' : Machine} {task : Task} {rest : List Task}
    {before last : NodeId} {steps : List (Visit Machine)} :
    TurnsTo rest ⟨m, task :: rest, before⟩ steps ⟨m', rest, last⟩ ↔
      Machine.walker.Completes m task steps last m' := by
  constructor
  · intro turns
    obtain ⟨finished, visited⟩ := turns.alone [task] rfl
    obtain ⟨steps', last', m₁, left, completes, length, finished'⟩ :=
      completes_of_finish _ m task [] before _ finished
    obtain ⟨rfl, rfl⟩ : m₁ = m' ∧ last' = last := by simpa [finish] using finished'
    have visited' := (finish_of_completes completes [] before left).2
    rw [← length, visited] at visited'
    have rested : Run.visits left ⟨m₁, [], last'⟩ = [] := by cases left <;> rfl
    rw [visited', rested, List.append_nil]
    exact completes
  · intro completes
    obtain ⟨finished, visited⟩ := finish_of_completes completes [] before 0
    have turns := turnsTo_of_finish finished rest
    rw [visited] at turns
    simpa [Run.visits] using turns

end Run

/-- A pass over the body of a loop. -/
structure Pass (σ : Type) where
  /-- The task in which the loop goes to its body. -/
  task : Task
  /-- What the loop keeps during the pass. -/
  frame : LoopFrame
  /-- The state in which the pass begins. -/
  begun : σ
  /-- The steps made for the nodes that the body is linked to. -/
  inner : List (Visit σ)
  /-- The state in which the loop is resumed. -/
  ended : σ

/-- The steps of a pass, with the one that goes to the body. -/
def Pass.visits {σ : Type} (body : PortId) (p : Pass σ) : List (Visit σ) :=
  ⟨p.task, .again body p.frame, p.begun⟩ :: p.inner

namespace Walker

variable {σ : Type} {w : Walker σ}

/-- From a task on, a loop makes these passes and then, in another task, leaves on `done`. In each
pass the nodes `entered` are done completely, one after the other; then the loop is resumed. -/
inductive Loops (w : Walker σ) (id : NodeId) (body done : PortId) (entered : List NodeId) :
    σ → Task → List (Pass σ) → Task → σ → Prop where
  | leave {s out : σ} {task : Task} : w.perform s task = (.follow [done], out) →
    Loops w id body done entered s task [] task out
  | pass {s begun ended out : σ} {task leaving : Task} {frame : LoopFrame}
    {inner : List (Visit σ)} {last : NodeId} {later : List (Pass σ)} :
    w.perform s task = (.again body frame, begun) →
    w.CompletesEach begun entered id inner last ended →
    Loops w id body done entered ended (.resume id frame) later leaving out →
    Loops w id body done entered s task (⟨task, frame, begun, inner, ended⟩ :: later) leaving out

/-- A task of a loop that is done completely consists of passes, and of what is done after them. The
loop makes its tasks `T` in states that satisfy `P`, which every step keeps. -/
theorem Completes.loops {P : σ → Prop} {T : Task → Prop} {id : NodeId} {body done : PortId}
    {entered : List NodeId} (performed : ∀ {s} task, P s → P (w.perform s task).2)
    (linked : ∀ {s}, P s → w.following s id [body] = entered)
    (own : ∀ {s task}, P s → T task → task.node = id ∧
      ((w.perform s task).1 = .follow [done] ∨
        ∃ frame, (w.perform s task).1 = .again body frame ∧ T (.resume id frame)))
    {s s' : σ} {task : Task} {visits : List (Visit σ)} {last : NodeId}
    (h : w.Completes s task visits last s') (begun : P s) (first : T task) :
    ∃ passes leaving out after, w.Loops id body done entered s task passes leaving out ∧ P out ∧
      w.CompletesEach out (w.following out id [done]) id after last s' ∧
      visits = passes.flatMap (Pass.visits body) ++ ⟨leaving, .follow [done], out⟩ :: after := by
  induction h using Completes.rec (motive_2 := fun _ _ _ _ _ _ _ => True) with
  | @follow s s₁ s₂ task ports visits last made followed _ =>
    obtain ⟨rfl, ⟨leaves⟩ | ⟨frame, again, _⟩⟩ := own begun first
    · rw [made] at leaves
      obtain rfl : ports = [done] := Step.follow.inj leaves
      have out := performed task begun
      rw [made] at out
      exact ⟨[], task, s₁, visits, .leave made, out, followed, rfl⟩
    · rw [made] at again
      cases again
  | @again s s₁ s₂ s₃ task port left inner outer ended last made passed resumed _ ih =>
    obtain ⟨rfl, ⟨leaves⟩ | ⟨frame, again, next⟩⟩ := own begun first
    · rw [made] at leaves
      cases leaves
    · rw [made] at again
      obtain ⟨rfl, rfl⟩ := Step.again.inj again
      have inside := performed task begun
      rw [made] at inside
      rw [linked inside] at passed
      obtain ⟨passes, leaving, out, after, loops, kept, completes, rfl⟩ :=
        ih (passed.keeps performed inside) next
      refine ⟨_, leaving, out, after, .pass made passed loops, kept, completes, ?_⟩
      rw [List.flatMap_cons, List.append_assoc]
      rfl
  | nil => trivial
  | cons => trivial

/-- What every step keeps holds after each pass. -/
theorem Loops.forall_ended {P : σ → Prop} {id : NodeId} {body done : PortId}
    {entered : List NodeId} (performed : ∀ {s} task, P s → P (w.perform s task).2) {s out : σ}
    {task leaving : Task} {passes : List (Pass σ)}
    (h : w.Loops id body done entered s task passes leaving out) (begun : P s) :
    ∀ p ∈ passes, P p.ended := by
  induction h with
  | leave _ => exact fun _ member => absurd member List.not_mem_nil
  | @pass s _ _ _ task _ _ _ _ _ made passed _ ih =>
    have inside := performed task begun
    rw [made] at inside
    have ended := passed.keeps performed inside
    exact List.forall_mem_cons.mpr ⟨ended, ih ended⟩

/-- Passes, and what is done after them, are a task done completely. -/
theorem Loops.completes {P : σ → Prop} {id : NodeId} {body done : PortId} {entered : List NodeId}
    (performed : ∀ {s} task, P s → P (w.perform s task).2)
    (linked : ∀ {s}, P s → w.following s id [body] = entered) {s out s' : σ}
    {task leaving : Task} {passes : List (Pass σ)} {after : List (Visit σ)} {last : NodeId}
    (h : w.Loops id body done entered s task passes leaving out) (begun : P s)
    (node : task.node = id)
    (completes : w.CompletesEach out (w.following out id [done]) id after last s') :
    w.Completes s task
      (passes.flatMap (Pass.visits body) ++ ⟨leaving, .follow [done], out⟩ :: after) last s' := by
  induction h with
  | leave made =>
    subst node
    exact .follow made completes
  | @pass s begun' ended out task leaving frame inner _ later made passed _ ih =>
    subst node
    have inside := performed task begun
    rw [made] at inside
    have resumed := ih (passed.keeps performed inside) rfl completes
    rw [← linked inside] at passed
    have whole := Completes.again made passed resumed
    rw [List.flatMap_cons, List.append_assoc]
    exact whole

end Walker

/-- The flow outputs of a loop: to its body, and to what comes after it. -/
def ControlKind.loop? : ControlKind → Option (PortId × PortId)
  | .forLoop => some (Layout.ForLoop.body, Layout.ForLoop.done)
  | .whileLoop | .doWhile => some (Layout.WhileLoop.body, Layout.WhileLoop.done)
  | .ifElse => none

/-- A loop goes to its body, with a frame that fits it, or leaves. -/
theorem Task.Acts.loops {kind : ControlKind} {body done : PortId}
    (loop : kind.loop? = some (body, done)) {task : Task} {operand : PortId → Value}
    {effect : Effect} (acts : task.Acts (some (.control kind)) operand effect)
    (fits : task.Fits (some (.control kind))) :
    effect.step = .follow [done] ∨ ∃ frame, effect.step = .again body frame := by
  have counting (frame : CountingFrame) (found : some (NodeKind.control kind) =
      some (.control .forLoop)) : frame.effect.step = .follow [done] ∨
        ∃ left, frame.effect.step = .again body left := by
    obtain rfl : kind = .forLoop := by simpa using found
    obtain ⟨rfl, rfl⟩ := Prod.mk.inj (Option.some.inj loop)
    rcases frame.effect_cases with ⟨_, next, _, equal⟩ | equal
    · exact .inr ⟨.counting next, by rw [equal]⟩
    · exact .inl (by rw [equal])
  have condition (found : some (NodeKind.control kind) = some (.control .whileLoop) ∨
      some (NodeKind.control kind) = some (.control .doWhile)) :
      body = Layout.WhileLoop.body ∧ done = Layout.WhileLoop.done := by
    rcases found with found | found
    · obtain rfl : kind = .whileLoop := by simpa using found
      obtain ⟨rfl, rfl⟩ := Prod.mk.inj (Option.some.inj loop)
      exact ⟨rfl, rfl⟩
    · obtain rfl : kind = .doWhile := by simpa using found
      obtain ⟨rfl, rfl⟩ := Prod.mk.inj (Option.some.inj loop)
      exact ⟨rfl, rfl⟩
  have tests (found : some (NodeKind.control kind) = some (.control .whileLoop) ∨
      some (NodeKind.control kind) = some (.control .doWhile)) :
      (conditionEffect operand).step = .follow [done] ∨
        ∃ left, (conditionEffect operand).step = .again body left := by
    obtain ⟨rfl, rfl⟩ := condition found
    rcases conditionEffect_cases operand with equal | equal
    · exact .inr ⟨.condition, by rw [equal]⟩
    · exact .inl (by rw [equal])
  cases acts with
  | action found => cases found
  | first found _ => exact counting _ found
  | skipped found =>
    obtain rfl : kind = .forLoop := by simpa using found
    obtain ⟨rfl, rfl⟩ := Prod.mk.inj (Option.some.inj loop)
    exact .inl rfl
  | tested found => exact tests (.inl found)
  | untested found =>
    obtain ⟨rfl, rfl⟩ := condition (.inr found)
    exact .inr ⟨.condition, rfl⟩
  | chosen found =>
    obtain rfl : kind = .ifElse := by simpa using found
    cases loop
  | counted => exact counting _ fits
  | retested => exact tests fits

namespace Machine

variable {g : Graph} {m m' : Machine} {task : Task} {kind : ControlKind} {id : NodeId}
  {body done : PortId}

theorem On.following_eq (on : On g m) (id : NodeId) (port : PortId) :
    walker.following m id [port] = g.successors ⟨id, port⟩ := by
  rw [walker_following, Machine.following, List.flatMap_singleton]
  exact Graph.successors_eq_of_frame_eq on.frame _

/-- The step of a loop. -/
theorem On.loops (on : On g m) (found : g.kind? task.node = some (.control kind))
    (loop : kind.loop? = some (body, done)) (fits : task.Fits (some (.control kind))) :
    (m.perform task).1 = .follow [done] ∨
      ∃ frame, (m.perform task).1 = .again body frame ∧
        (Task.resume task.node frame).Fits (some (.control kind)) := by
  have kinds : m.kind? task.node = some (.control kind) := (on.kind?_eq task.node).trans found
  have performs := performs_perform on.valid task
  generalize made : m.perform task = stepped at performs
  obtain ⟨step, m₁⟩ := stepped
  cases performs with
  | nothing work =>
    rw [kind?_openStep, kinds] at work
    cases task <;> cases work
  | compute work _ =>
    rw [kind?_openStep, kinds] at work
    cases task <;> cases work
  | @act operands effect operand _ work _ =>
    rw [kind?_openStep, kinds] at work
    have acts := Task.acts_of_work work operand
    rcases acts.loops loop fits with leaves | ⟨frame, again⟩
    · exact .inl leaves
    · exact .inr ⟨frame, again, acts.fits_of_again fits again task.node⟩

/-- A task of a loop that is done completely consists of passes over the nodes that the body is
linked to, and of what is linked to Done. -/
theorem loops_of_completes (on : On g m) (found : g.kind? id = some (.control kind))
    (loop : kind.loop? = some (body, done)) {visits : List (Visit Machine)} {last : NodeId}
    (completes : walker.Completes m task visits last m') (node : task.node = id)
    (fits : task.Fits (some (.control kind))) :
    ∃ passes leaving out after,
      walker.Loops id body done (g.successors ⟨id, body⟩) m task passes leaving out ∧ On g out ∧
      walker.CompletesEach out (g.successors ⟨id, done⟩) id after last m' ∧
      visits = passes.flatMap (Pass.visits body) ++ ⟨leaving, .follow [done], out⟩ :: after := by
  obtain ⟨passes, leaving, out, after, loops, on', completes', visited⟩ :=
    completes.loops (P := On g) (T := fun task => task.node = id ∧ task.Fits (some (.control kind)))
      (fun task on => on.perform task) (fun on => on.following_eq id body)
      (by
        rintro m task on ⟨same, fits⟩
        refine ⟨same, ?_⟩
        rw [← same] at found
        rcases on.loops found loop fits with leaves | ⟨frame, again, fits'⟩
        · exact .inl leaves
        · exact .inr ⟨frame, again, rfl, same ▸ fits'⟩)
      on ⟨node, fits⟩
  rw [on'.following_eq id done] at completes'
  exact ⟨passes, leaving, out, after, loops, on', completes', visited⟩

end Machine

end NodeGraph
