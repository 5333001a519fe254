import NodeGraph.Proofs.Graph.Flow
import NodeGraph.Proofs.Run.Steps

/-!
# Runs that end

A counting loop makes a bounded number of passes: its distance is positive, and an index that does
not fit ends it. So on flow links that form a tree, where no loop tests a condition, everything that
control reaches is done completely (`Machine.ends_enter`), by induction on what lies beyond a node
and, for a loop, on the passes that remain. Without loops no node makes a second step
(`Machine.visits_once`).
-/

namespace NodeGraph

namespace CountingFrame

variable {f next : CountingFrame} {index : Int64}

/-- How far the next index lies from the one before. -/
def stride (f : CountingFrame) : Int := if f.descending then -f.step.toInt else f.step.toInt

/-- The integer lies before the end of the loop. -/
def Within (f : CountingFrame) (i : Int) : Prop :=
  if f.descending then f.finish.toInt ≤ i else i < f.finish.toInt

theorem contains_iff (f : CountingFrame) (index : Int64) :
    f.contains index = true ↔ f.Within index.toInt := by
  unfold contains Within
  split
  · rw [decide_eq_true_iff, Int64.le_iff_toInt_le]
  · rw [decide_eq_true_iff, Int64.lt_iff_toInt_lt]

theorem advance?_eq_some_iff : f.advance? = some (index, next) ↔
    f.next = some index ∧ f.Within index.toInt ∧
      next = { f with next := int64? (index.toInt + f.stride) } := by
  have coming (i : Int64) : (if f.descending then i.toInt - f.step.toInt
      else i.toInt + f.step.toInt) = i.toInt + f.stride := by
    unfold stride
    split <;> omega
  unfold advance?
  cases f.next with
  | none => simp
  | some here =>
    dsimp only
    rw [coming here]
    split
    next inside =>
      rw [contains_iff] at inside
      constructor
      · intro equal
        obtain ⟨rfl, rfl⟩ := Prod.mk.inj (Option.some.inj equal)
        exact ⟨rfl, inside, rfl⟩
      · rintro ⟨same, _, rfl⟩
        obtain rfl := Option.some.inj same
        rfl
    next outside =>
      rw [contains_iff] at outside
      constructor
      · intro equal
        cases equal
      · rintro ⟨same, inside, _⟩
        obtain rfl := Option.some.inj same
        exact absurd inside outside

/-- The loop gets nearer to its end with every pass. -/
def Progresses (f : CountingFrame) : Prop := 0 < f.step.toInt

/-- A bound on the passes that are still to come. -/
def remaining (f : CountingFrame) : Nat :=
  match f.next with
  | none => 0
  | some index =>
    if f.descending then (index.toInt - f.finish.toInt + 1).toNat
    else (f.finish.toInt - index.toInt).toNat

/-- A loop that is entered progresses, whatever its bounds and its step are. -/
theorem progresses_of_initial? {start finish step : Int64} {descending : Bool}
    {f : CountingFrame} (entered : initial? start finish step descending = some f) :
    f.Progresses := by
  unfold initial? at entered
  split at entered
  · cases entered
  next moves =>
    obtain ⟨nonzero, upward⟩ := not_or.mp moves
    have distance : step.toInt ≠ 0 := fun zero => nonzero (Int64.toInt_inj.mp zero)
    split at entered
    · obtain rfl := Option.some.inj entered
      show 0 < ((int64? step.toInt.natAbs).getD Int64.maxValue).toInt
      cases fits : int64? step.toInt.natAbs with
      | none => decide
      | some word =>
        have value := int64?_eq_some_iff.mp fits
        rw [Option.getD_some]
        omega
    next ascending =>
      obtain rfl := Option.some.inj entered
      have nonneg : ¬ step < 0 := fun negative => upward ⟨by simpa using ascending, negative⟩
      rw [Int64.lt_iff_toInt_lt] at nonneg
      change ¬ step.toInt < 0 at nonneg
      show 0 < step.toInt
      omega

/-- Every pass leaves fewer to come. -/
theorem remaining_lt_of_advance? (progresses : f.Progresses)
    (advanced : f.advance? = some (index, next)) :
    next.Progresses ∧ next.remaining < f.remaining := by
  obtain ⟨coming, inside, rfl⟩ := advance?_eq_some_iff.mp advanced
  refine ⟨progresses, ?_⟩
  unfold Progresses at progresses
  unfold remaining
  rw [coming]
  unfold Within at inside
  cases fits : int64? (index.toInt + f.stride) with
  | none =>
    dsimp only
    split at inside
    next down => rw [if_pos down]; omega
    next up => rw [if_neg up]; omega
  | some word =>
    have value := int64?_eq_some_iff.mp fits
    unfold stride at value
    dsimp only
    split at inside
    next down =>
      rw [if_pos down] at value ⊢
      rw [if_pos down]
      omega
    next up =>
      rw [if_neg up] at value ⊢
      rw [if_neg up]
      omega

end CountingFrame

namespace Task

/-- Control leaves a node on one of its flow outputs. -/
theorem Acts.flowOut {kind : NodeKind} {task : Task} {operand : PortId → Value} {effect : Effect}
    (acts : task.Acts (some kind) operand effect) (fits : task.Fits (some kind)) :
    ∃ port, effect.step.ports = [port] ∧ kind.FlowOut port := by
  have counting (frame : CountingFrame) :
      ∃ port, frame.effect.step.ports = [port] ∧ (NodeKind.control .forLoop).FlowOut port := by
    rcases frame.effect_cases with ⟨_, _, _, equal⟩ | equal <;>
      exact ⟨_, by rw [equal]; rfl, by decide⟩
  have condition : ∃ port, (conditionEffect operand).step.ports = [port] ∧
      (NodeKind.control .whileLoop).FlowOut port := by
    rcases conditionEffect_cases operand with equal | equal <;>
      exact ⟨_, by rw [equal]; rfl, by decide⟩
  cases acts with
  | @action _ action found =>
    obtain rfl := Option.some.inj found
    cases action <;> exact ⟨_, rfl, by decide⟩
  | first found _ =>
    obtain rfl := Option.some.inj found
    exact counting _
  | skipped found =>
    obtain rfl := Option.some.inj found
    exact ⟨_, rfl, by decide⟩
  | tested found =>
    obtain rfl := Option.some.inj found
    exact condition
  | untested found =>
    obtain rfl := Option.some.inj found
    exact ⟨_, rfl, by decide⟩
  | chosen found =>
    obtain rfl := Option.some.inj found
    split <;> exact ⟨_, rfl, by decide⟩
  | counted =>
    obtain rfl := Option.some.inj fits
    exact counting _
  | retested =>
    -- Both loops that test a condition have the same outputs.
    rcases fits with fits | fits
    · obtain rfl := Option.some.inj fits
      exact condition
    · obtain rfl := Option.some.inj fits
      exact condition

/-- The task belongs to no loop that tests a condition, and a counting loop is resumed only to
progress. -/
def Counts (kind? : Option NodeKind) : Task → Prop
  | enter _ => kind? ≠ some (.control .whileLoop) ∧ kind? ≠ some (.control .doWhile)
  | resume _ (.counting frame) => kind? = some (.control .forLoop) ∧ frame.Progresses
  | resume _ .condition => False

theorem Counts.fits {kind? : Option NodeKind} {task : Task} (counts : task.Counts kind?) :
    task.Fits kind? := by
  cases task with
  | enter id => trivial
  | resume id frame =>
    cases frame with
    | counting frame => exact counts.1
    | condition => exact counts.elim

/-- A step to a body is one of a counting loop, with fewer passes to come than before. -/
theorem Counts.again {kind? : Option NodeKind} {task : Task} (counts : task.Counts kind?)
    {operand : PortId → Value} {effect : Effect} (acts : task.Acts kind? operand effect)
    {body : PortId} {frame : LoopFrame} (again : effect.step = .again body frame) :
    kind? = some (.control .forLoop) ∧ ∃ next, frame = .counting next ∧ next.Progresses ∧
      ∀ id before, task = .resume id (.counting before) → next.remaining < before.remaining := by
  cases acts with
  | @action _ kind _ => cases kind <;> cases again
  | first found entered =>
    obtain ⟨_, next, advanced, rfl⟩ := CountingFrame.again_effect again
    have progresses := CountingFrame.progresses_of_initial? entered
    refine ⟨found, next, rfl, (CountingFrame.remaining_lt_of_advance? progresses advanced).1, ?_⟩
    rintro _ _ ⟨⟩
  | skipped _ => cases again
  | tested found => exact absurd found counts.1
  | untested found => exact absurd found counts.2
  | chosen _ => cases again
  | counted =>
    obtain ⟨found, progresses⟩ := counts
    obtain ⟨_, next, advanced, rfl⟩ := CountingFrame.again_effect again
    obtain ⟨progresses', fewer⟩ := CountingFrame.remaining_lt_of_advance? progresses advanced
    refine ⟨found, next, rfl, progresses', ?_⟩
    rintro _ _ ⟨⟩
    exact fewer
  | retested => exact counts.elim

end Task

namespace Machine

variable {g : Graph} {links : List Link} {m m' : Machine} {task : Task} {step : Step}

/-- A machine that runs on the links of a graph. -/
structure On (g : Graph) (m : Machine) : Prop where
  valid : m.engine.Valid
  frame : m.engine.graph.frame = g.frame

theorem On.kind?_eq (on : On g m) (id : NodeId) : m.kind? id = g.kind? id :=
  Graph.map_kind_eq_of_frame_eq on.frame id

theorem On.perform (on : On g m) (task : Task) : On g (m.perform task).2 := by
  obtain ⟨ready, works⟩ := works_perform on.valid task
  exact ⟨ready.valid, works.frame.trans on.frame⟩

/-- Control goes along flow links, and to no node twice in one step. -/
theorem On.following (on : On g m) (records : g.Records links) (wf : g.WellFormed)
    (fits : task.Fits (g.kind? task.node)) (made : m.perform task = (step, m')) :
    (∀ id ∈ m'.following task.node step.ports, g.Flows task.node id) ∧
      (m'.following task.node step.ports).Nodup := by
  have performs := performs_perform on.valid task
  have after := on.perform task
  rw [made] at performs after
  cases performs with
  | nothing _ => simp [Machine.following, Step.ports]
  | compute _ _ => simp [Machine.following, Step.ports]
  | @act operands effect operand e' work reads =>
    rw [kind?_openStep, on.kind?_eq] at work
    cases found : g.kind? task.node with
    | none =>
      rw [found] at fits work
      cases task with
      | enter id => cases work
      | resume id frame =>
        cases frame with
        | counting frame => cases fits
        | condition => rcases fits with fits | fits <;> cases fits
    | some kind =>
      rw [found] at fits work
      obtain ⟨port, leaves, out⟩ := (Task.acts_of_work work operand).flowOut fits
      obtain ⟨node, place, rfl⟩ := Option.map_eq_some_iff.mp found
      rw [leaves, Machine.following, List.flatMap_singleton,
        Graph.successors_eq_of_frame_eq after.frame]
      have place : g.node? (OutputAddr.mk task.node port).node = some node := place
      exact ⟨fun id => records.flows_of_successor wf place out,
        records.nodup_successors wf place out⟩

/-- A step to a body, on a machine that runs on the links of a graph. -/
theorem On.again (on : On g m) (counts : task.Counts (g.kind? task.node)) {body : PortId}
    {frame : LoopFrame} (made : m.perform task = (.again body frame, m')) :
    g.kind? task.node = some (.control .forLoop) ∧ ∃ next, frame = .counting next ∧
      next.Progresses ∧ ∀ id before, task = .resume id (.counting before) →
        next.remaining < before.remaining := by
  obtain ⟨operand, effect, acts, again⟩ := acts_of_again on.valid made
  rw [on.kind?_eq] at acts
  exact counts.again acts again

/-- Wherever the task is done on the links of the graph, it is done completely. -/
def Ends (g : Graph) (task : Task) : Prop :=
  ∀ m, On g m → ∃ steps last m', walker.Completes m task steps last m' ∧ On g m'

theorem Ends.each {ids : List NodeId} (ends : ∀ id ∈ ids, Ends g (.enter id)) (on : On g m)
    (before : NodeId) :
    ∃ steps last m', walker.CompletesEach m ids before steps last m' ∧ On g m' := by
  induction ids generalizing m before with
  | nil => exact ⟨[], before, m, .nil, on⟩
  | cons id rest ih =>
    obtain ⟨first, ended, m₁, one, on₁⟩ := ends id List.mem_cons_self m on
    obtain ⟨others, last, m', each, on'⟩ :=
      ih (fun other member => ends other (List.mem_cons_of_mem id member)) on₁ ended
    exact ⟨_, last, m', .cons one each, on'⟩

section Ending

variable (records : g.Records links) (wf : g.WellFormed)

include records wf

/-- A task is done completely if what control goes to is, and the loop once it is resumed. -/
theorem ends_of_following (counts : task.Counts (g.kind? task.node))
    (following : ∀ id, g.Flows task.node id → Ends g (.enter id))
    (resumed : ∀ next : CountingFrame, g.kind? task.node = some (.control .forLoop) →
      next.Progresses → (∀ id before, task = .resume id (.counting before) →
        next.remaining < before.remaining) → Ends g (.resume task.node (.counting next))) :
    Ends g task := by
  intro m on
  generalize made : m.perform task = stepped
  obtain ⟨step, m₁⟩ := stepped
  have on₁ := on.perform task
  rw [made] at on₁
  have followed := (on.following records wf counts.fits made).1
  obtain ⟨inner, ended, m₂, each, on₂⟩ :=
    Ends.each (fun id member => following id (followed id member)) on₁ task.node
  rw [← walker_following] at each
  cases step with
  | follow ports => exact ⟨_, ended, m₂, .follow made each, on₂⟩
  | again body frame =>
    obtain ⟨kind, next, rfl, progresses, fewer⟩ := on.again counts made
    obtain ⟨outer, last, m', later, on'⟩ := resumed next kind progresses fewer m₂ on₂
    exact ⟨_, last, m', .again made each later, on'⟩

/-- A counting loop is done with after the passes that remain. -/
theorem ends_resume {id : NodeId} (kind : g.kind? id = some (.control .forLoop))
    (following : ∀ other, g.Flows id other → Ends g (.enter other)) {frame : CountingFrame}
    (progresses : frame.Progresses) : Ends g (.resume id (.counting frame)) := by
  induction passes : frame.remaining using Nat.strongRecOn generalizing frame with
  | ind bound ih =>
    refine ends_of_following records wf ⟨kind, progresses⟩ following ?_
    intro next _ progresses' fewer
    exact ih next.remaining (passes ▸ fewer id frame rfl) progresses' rfl

/-- Everything that control reaches in a tree without loops that test a condition is done
completely. -/
theorem ends_enter {root id : NodeId} (tree : g.Tree root) (reached : g.Leads root id)
    (counts : ∀ other, g.Leads root other → (Task.enter other).Counts (g.kind? other)) :
    Ends g (.enter id) := by
  induction left : (g.beyond id).card using Nat.strongRecOn generalizing id with
  | ind bound ih =>
    have following (other : NodeId) (flows : g.Flows id other) : Ends g (.enter other) :=
      ih _ (left ▸ tree.card_beyond_lt reached flows) (reached.tail flows) rfl
    refine ends_of_following records wf (counts id reached) following ?_
    intro next kind progresses _
    exact ends_resume records wf kind following progresses

/-- In a tree without loops no node makes a second step. -/
theorem visits_once {root : NodeId} (tree : g.Tree root)
    (counts : ∀ other, g.Leads root other → (Task.enter other).Counts (g.kind? other))
    (straight : ∀ other, g.Leads root other → g.kind? other ≠ some (.control .forLoop))
    {steps : List (Visit Machine)} {last : NodeId}
    (h : walker.Completes m task steps last m') (on : On g m) (reached : g.Leads root task.node)
    (entered : task = .enter task.node) : On g m' ∧ (steps.map Visit.node).Nodup ∧
      ∀ id ∈ steps.map Visit.node, g.Leads task.node id := by
  induction h using Walker.Completes.rec
    (motive_2 := fun m ids _ steps _ m' _ => ∀ {parent}, On g m → g.Leads root parent →
      (∀ id ∈ ids, g.Flows parent id) → ids.Nodup → On g m' ∧ (steps.map Visit.node).Nodup ∧
        ∀ id ∈ steps.map Visit.node, ∃ child ∈ ids, g.Leads child id) with
  | @follow m m₁ m₂ task ports steps last made followed each =>
    have counted : task.Counts (g.kind? task.node) := by
      rw [entered]
      exact counts _ reached
    obtain ⟨flows, distinct⟩ := on.following records wf counted.fits made
    rw [← walker_following] at flows distinct
    have on₁ := on.perform task
    rw [show m.perform task = _ from made] at on₁
    obtain ⟨on₂, once, led⟩ := each on₁ reached flows distinct
    have beyond : ∀ id ∈ steps.map Visit.node, Relation.TransGen g.Flows task.node id := by
      intro id member
      obtain ⟨child, follows, leads⟩ := led id member
      exact .head' (flows child follows) leads
    refine ⟨on₂, ?_, ?_⟩
    · rw [List.map_cons, List.nodup_cons]
      exact ⟨fun member => tree.acyclic reached (beyond _ member), once⟩
    · intro id member
      rcases List.mem_cons.mp member with rfl | member
      · exact .refl
      · exact (beyond id member).to_reflTransGen
  | @again m m₁ m₂ m₃ task body frame inner outer ended last made passed resumed =>
    have counted : task.Counts (g.kind? task.node) := by
      rw [entered]
      exact counts _ reached
    exact absurd (on.again counted made).1 (straight _ reached)
  | nil =>
    rename_i on _ _ _
    exact ⟨on, List.nodup_nil, fun id member => absurd member List.not_mem_nil⟩
  | @cons m m₁ m₂ id rest before ended last first others one each only onlyEach =>
    rename_i parent on reached flows distinct
    obtain ⟨fresh, distinct⟩ := List.nodup_cons.mp distinct
    have flow := flows id List.mem_cons_self
    obtain ⟨on₁, once, led⟩ := only on (reached.tail flow) rfl
    obtain ⟨on₂, once', led'⟩ := onlyEach on₁ reached
      (fun other member => flows other (List.mem_cons_of_mem id member)) distinct
    refine ⟨on₂, ?_, ?_⟩
    · rw [List.map_append, List.nodup_append]
      refine ⟨once, once', ?_⟩
      rintro visited member _ member' rfl
      obtain ⟨child, follows, leads⟩ := led' visited member'
      have same := tree.apart reached flow (flows child (List.mem_cons_of_mem id follows))
        (led visited member) leads
      exact fresh (same ▸ follows)
    · intro visited member
      rw [List.map_append] at member
      rcases List.mem_append.mp member with member | member
      · exact ⟨id, List.mem_cons_self, led visited member⟩
      · obtain ⟨child, follows, leads⟩ := led' visited member
        exact ⟨child, List.mem_cons_of_mem id follows, leads⟩

end Ending

end Machine

end NodeGraph
