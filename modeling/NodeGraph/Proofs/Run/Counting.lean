import NodeGraph.Proofs.Graph.Ports
import NodeGraph.Proofs.Run.Ending

/-!
# The indices of a counting loop

A counting loop publishes the indices that the same progression has in unbounded integers, whatever
its bounds and its step are and whatever other steps are made between its passes
(`Machine.counting_indices`). So none of the places where 64 bits could overflow shows, except one:
the least integer has a distance that does not fit, and the greatest integer stands in for it
(`Machine.counting_falls_short`).
-/

namespace NodeGraph

/-- The integers from one on, each at the stride from the one before, while they lie within. -/
inductive Progression (within : Int → Prop) (stride : Int) : Int → List Int → Prop where
  | stop {i : Int} : ¬ within i → Progression within stride i []
  | go {i : Int} {rest : List Int} : within i → Progression within stride (i + stride) rest →
    Progression within stride i (i :: rest)

theorem Progression.unique {within : Int → Prop} {stride i : Int} {sequence sequence' : List Int}
    (h : Progression within stride i sequence) (h' : Progression within stride i sequence') :
    sequence = sequence' := by
  induction h generalizing sequence' with
  | stop outside =>
    cases h' with
    | stop _ => rfl
    | go inside _ => exact absurd inside outside
  | go inside _ ih =>
    cases h' with
    | stop outside => exact absurd inside outside
    | go _ later => rw [ih later]

theorem Progression.forall_le {within : Int → Prop} {stride first : Int} {sequence : List Int}
    (progression : Progression within stride first sequence) (forward : 0 ≤ stride) :
    ∀ i ∈ sequence, first ≤ i := by
  induction progression with
  | stop _ => simp
  | go _ _ ih =>
    intro i member
    rcases List.mem_cons.mp member with rfl | member
    · exact Int.le_refl _
    · have := ih i member
      omega

/-- What the inputs of a counting loop say. -/
structure CountingRange where
  start : Int64
  finish : Int64
  step : Int64
  descending : Bool
deriving DecidableEq, Repr

namespace CountingRange

/-- These are the indices in unbounded integers, with this distance between two of them. -/
inductive Visits (r : CountingRange) (distance : Int) : List Int → Prop where
  | ascending {sequence : List Int} : r.descending = false → 0 < r.step.toInt →
    Progression (· < r.finish.toInt) distance r.start.toInt sequence →
    Visits r distance sequence
  | descending {sequence : List Int} : r.descending = true → r.step.toInt ≠ 0 →
    Progression (r.finish.toInt ≤ ·) (-distance) (r.start.toInt - 1) sequence →
    Visits r distance sequence
  | nothing : r.step.toInt = 0 ∨ (r.descending = false ∧ r.step.toInt < 0) →
    Visits r distance []

theorem Visits.unique {r : CountingRange} {distance : Int} {sequence sequence' : List Int}
    (h : r.Visits distance sequence) (h' : r.Visits distance sequence') :
    sequence = sequence' := by
  cases h with
  | ascending up forward visits =>
    cases h' with
    | ascending _ _ visits' => exact visits.unique visits'
    | descending down _ _ => exact absurd (up.symm.trans down) Bool.false_ne_true
    | nothing still => rcases still with still | ⟨_, back⟩ <;> omega
  | descending down moves visits =>
    cases h' with
    | ascending up _ _ => exact absurd (up.symm.trans down) Bool.false_ne_true
    | descending _ _ visits' => exact visits.unique visits'
    | nothing still =>
      rcases still with still | ⟨up, _⟩
      · exact absurd still moves
      · exact absurd (up.symm.trans down) Bool.false_ne_true
  | nothing still =>
    cases h' with
    | ascending up forward _ => rcases still with still | ⟨_, back⟩ <;> omega
    | descending down moves _ =>
      rcases still with still | ⟨up, _⟩
      · exact absurd still moves
      · exact absurd (up.symm.trans down) Bool.false_ne_true
    | nothing _ => rfl

/-- The distance between two indices: the size of the step, but for the least integer, whose size
does not fit 64 bits. -/
def distance (r : CountingRange) : Int :=
  if r.step = Int64.minValue then Int64.maxValue.toInt else r.step.toInt.natAbs

end CountingRange

namespace CountingFrame

variable {f next : CountingFrame} {index : Int64}

theorem advance?_eq_none_iff :
    f.advance? = none ↔ ∀ index, f.next = some index → ¬ f.Within index.toInt := by
  constructor
  · intro done index coming inside
    have advanced := advance?_eq_some_iff.mpr ⟨coming, inside, rfl⟩
    rw [done] at advanced
    cases advanced
  · intro outside
    cases advanced : f.advance? with
    | none => rfl
    | some passed =>
      obtain ⟨coming, inside, _⟩ := advance?_eq_some_iff.mp advanced
      exact absurd inside (outside passed.1 coming)

/-- The indices of the passes that are still to come. -/
inductive Gives : CountingFrame → List Int64 → Prop where
  | done {f : CountingFrame} : f.advance? = none → Gives f []
  | pass {f next : CountingFrame} {index : Int64} {rest : List Int64} :
    f.advance? = some (index, next) → Gives next rest → Gives f (index :: rest)

/-- A loop that progresses comes to an end. -/
theorem Progresses.exists_gives (progresses : f.Progresses) : ∃ indices, f.Gives indices := by
  induction bound : f.remaining using Nat.strong_induction_on generalizing f with
  | _ remaining ih =>
    subst bound
    cases advanced : f.advance? with
    | none => exact ⟨[], .done advanced⟩
    | some passed =>
      obtain ⟨index, next⟩ := passed
      obtain ⟨progresses, fewer⟩ := remaining_lt_of_advance? progresses advanced
      obtain ⟨rest, gives⟩ := ih next.remaining fewer progresses rfl
      exact ⟨index :: rest, .pass advanced gives⟩

/-- The next index is this integer, and if it does not fit then it lies beyond the end. -/
structure Approaches (f : CountingFrame) (i : Int) : Prop where
  next : f.next = int64? i
  fits : f.Within i → (int64? i).isSome

/-- An integer between two of 64 bits has 64 bits. -/
theorem isSome_int64?_of_between {i : Int} (low high : Int64) (above : low.toInt ≤ i)
    (below : i ≤ high.toInt) : (int64? i).isSome := by
  have least := Int64.minValue_le_toInt low
  have greatest := Int64.toInt_le high
  unfold int64?
  rw [if_pos ⟨by omega, by omega⟩, Option.isSome_some]

/-- After a pass, the next index is a stride away. -/
theorem Progresses.approaches (progresses : f.Progresses)
    (advanced : f.advance? = some (index, next)) : next.Approaches (index.toInt + f.stride) := by
  obtain ⟨_, _, rfl⟩ := advance?_eq_some_iff.mp advanced
  refine ⟨rfl, fun inside => ?_⟩
  unfold Progresses at progresses
  unfold Within at inside
  unfold stride at inside ⊢
  split at inside
  next down =>
    simp only [if_pos down] at inside ⊢
    exact isSome_int64?_of_between f.finish index inside (by omega)
  next up =>
    simp only [if_neg up] at inside ⊢
    exact isSome_int64?_of_between index f.finish (by omega) (Int.le_of_lt inside)

/-- The indices of a loop are those in unbounded integers. -/
theorem Gives.progression {indices : List Int64} (gives : f.Gives indices)
    (progresses : f.Progresses) {i : Int} (approaches : f.Approaches i) :
    Progression f.Within f.stride i (indices.map Int64.toInt) := by
  induction gives generalizing i with
  | done ended =>
    refine .stop fun inside => ?_
    obtain ⟨index, fits⟩ := Option.isSome_iff_exists.mp (approaches.fits inside)
    have coming := approaches.next.trans fits
    rw [← int64?_eq_some_iff.mp fits] at inside
    exact advance?_eq_none_iff.mp ended index coming inside
  | pass advanced _ ih =>
    obtain ⟨coming, inside, same⟩ := advance?_eq_some_iff.mp advanced
    obtain rfl := int64?_eq_some_iff.mp (approaches.next.symm.trans coming)
    have later := ih (remaining_lt_of_advance? progresses advanced).1
      (progresses.approaches advanced)
    subst same
    exact .go inside later

end CountingFrame

namespace CountingRange

def frame? (r : CountingRange) : Option CountingFrame :=
  CountingFrame.initial? r.start r.finish r.step r.descending

theorem distance_eq (r : CountingRange) :
    ((int64? r.step.toInt.natAbs).getD Int64.maxValue).toInt = r.distance := by
  unfold distance
  split
  next least =>
    rw [least]
    decide
  next other =>
    have above : r.step.toInt ≠ Int64.minValue.toInt :=
      fun same => other (Int64.toInt_inj.mp same)
    have least := Int64.minValue_le_toInt r.step
    have greatest := Int64.toInt_le r.step
    rw [Int64.toInt_minValue] at above least
    rw [Int64.toInt_maxValue] at greatest
    have fits : (int64? r.step.toInt.natAbs).isSome :=
      CountingFrame.isSome_int64?_of_between 0 Int64.maxValue
        (by rw [Int64.toInt_zero]; omega) (by rw [Int64.toInt_maxValue]; omega)
    obtain ⟨word, same⟩ := Option.isSome_iff_exists.mp fits
    rw [same, Option.getD_some]
    exact int64?_eq_some_iff.mp same

theorem distance_of_forward (r : CountingRange) (forward : 0 < r.step.toInt) :
    r.distance = r.step.toInt := by
  unfold distance
  split
  next least =>
    rw [least, Int64.toInt_minValue] at forward
    omega
  next => omega

/-- How a loop is entered, if its step makes progress. -/
theorem frame?_cases (r : CountingRange) :
    (r.frame? = none ∧ (r.step.toInt = 0 ∨ (r.descending = false ∧ r.step.toInt < 0))) ∨
    (r.frame? = some ⟨some r.start, r.finish, r.step, false⟩ ∧ r.descending = false ∧
      0 < r.step.toInt) ∨
    (∃ size, r.frame? = some ⟨int64? (r.start.toInt - 1), r.finish, size, true⟩ ∧
      size.toInt = r.distance ∧ r.descending = true ∧ r.step.toInt ≠ 0) := by
  have zero : r.step = 0 ↔ r.step.toInt = 0 := by rw [← Int64.toInt_inj, Int64.toInt_zero]
  have back : r.step < 0 ↔ r.step.toInt < 0 := by rw [Int64.lt_iff_toInt_lt, Int64.toInt_zero]
  unfold frame? CountingFrame.initial?
  simp only [zero, back]
  cases r.descending with
  | false =>
    by_cases forward : 0 < r.step.toInt
    · exact .inr (.inl ⟨by simp; omega, rfl, forward⟩)
    · exact .inl ⟨by simp; omega, by simp; omega⟩
  | true =>
    by_cases still : r.step.toInt = 0
    · exact .inl ⟨by simp [still], .inl still⟩
    · exact .inr (.inr ⟨_, by simp [still], r.distance_eq, rfl, still⟩)

/-- A loop that is not entered has nothing to visit. -/
theorem visits_of_frame?_eq_none {r : CountingRange} (skipped : r.frame? = none) (distance : Int) :
    r.Visits distance [] := by
  rcases r.frame?_cases with ⟨_, still⟩ | ⟨up, _⟩ | ⟨_, down, _⟩
  · exact .nothing still
  · cases skipped.symm.trans up
  · cases skipped.symm.trans down

/-- The frame of a loop that is entered gives what is to be visited. -/
theorem visits_of_gives {r : CountingRange} {f : CountingFrame} (entered : r.frame? = some f)
    {indices : List Int64} (gives : f.Gives indices) :
    r.Visits r.distance (indices.map Int64.toInt) := by
  have progresses := CountingFrame.progresses_of_initial? entered
  rcases r.frame?_cases with ⟨skipped, _⟩ | ⟨up, direction, forward⟩ |
    ⟨size, down, distance, direction, moves⟩
  · rw [skipped] at entered
    cases entered
  · obtain rfl := Option.some.inj (up.symm.trans entered)
    have fits : int64? r.start.toInt = some r.start := int64?_eq_some_iff.mpr rfl
    have sequence : Progression (· < r.finish.toInt) r.step.toInt _ _ :=
      gives.progression progresses (i := r.start.toInt)
        ⟨fits.symm, fun _ => by rw [fits, Option.isSome_some]⟩
    rw [← r.distance_of_forward forward] at sequence
    exact .ascending direction forward sequence
  · obtain rfl := Option.some.inj (down.symm.trans entered)
    have sequence : Progression (r.finish.toInt ≤ ·) (-size.toInt) _ _ :=
      gives.progression progresses (i := r.start.toInt - 1)
        ⟨rfl, fun inside =>
          CountingFrame.isSome_int64?_of_between r.finish r.start inside (by omega)⟩
    rw [distance] at sequence
    exact .descending direction moves sequence

end CountingRange

namespace Machine

variable {m : Machine} {id : NodeId}

/-- What a counting loop that control enters reads from its inputs. -/
def countingRange (m : Machine) (id : NodeId) : CountingRange :=
  let operand := ((m.openStep id).readAll id ControlKind.forLoop.operands).1
  { start := (operand Layout.ForLoop.start).toInt
    finish := (operand Layout.ForLoop.finish).toInt
    step := (operand Layout.ForLoop.step).toInt
    descending := (operand Layout.ForLoop.descending).isTruthy }

/-- The values that the index of a counting loop takes, pass by pass, from a task on until the loop
goes on to Done. What is done after each pass, up to the next one, is `body`. -/
inductive Publishes (body : Machine → Machine) (id : NodeId) :
    Machine → Task → List Value → Prop where
  | done {m m' : Machine} {task : Task} :
    m.perform task = (.follow [Layout.ForLoop.done], m') → Publishes body id m task []
  | pass {m m' : Machine} {task : Task} {frame : LoopFrame} {later : List Value} :
    m.perform task = (.again Layout.ForLoop.body frame, m') →
    Publishes body id (body m') (.resume id frame) later →
    Publishes body id m task
      (m'.engine.graph.outputValue ⟨id, Layout.ForLoop.index⟩ :: later)

theorem Publishes.unique {body : Machine → Machine} {task : Task} {values values' : List Value}
    (h : Publishes body id m task values) (h' : Publishes body id m task values') :
    values = values' := by
  induction h generalizing values' with
  | done ended =>
    cases h' with
    | done _ => rfl
    | pass passed _ => cases ended.symm.trans passed
  | pass passed _ ih =>
    cases h' with
    | done ended => cases ended.symm.trans passed
    | pass passed' later =>
      cases passed.symm.trans passed'
      rw [ih later]

/-- The output that an effect writes holds the value after the step. -/
theorem outputValue_acted_of_write (m : Machine) {id : NodeId} {port : PortId}
    (there : (m.engine.graph.output? ⟨id, port⟩).isSome) {effect : Effect} {value : Value}
    (write : effect.write = some (port, value)) :
    ((m.apply id effect).countStep id).engine.graph.outputValue ⟨id, port⟩ = value := by
  rw [graph_acted, Graph.outputValue_modifyNode (f := Node.countEvaluation) fun _ => rfl,
    graph_apply, write]
  exact Graph.outputValue_modifyOutput_self there value

/-- The step of a counting loop that control enters. -/
theorem perform_enter_forLoop (loop : m.kind? id = some (.control .forLoop)) :
    m.perform (.enter id) =
      let (operand, m) := (m.openStep id).readAll id ControlKind.forLoop.operands
      let effect := ControlKind.forLoop.effect id operand
      (effect.step, (m.apply id effect).countStep id) := by
  rw [perform_eq, Task.node, kind?_openStep, loop]
  rfl

/-- A step of a counting loop that has a frame goes on as the frame says and publishes its index. -/
theorem perform_counting {task : Task} {frame : CountingFrame} (valid : m.engine.Valid)
    (loop : m.kind? id = some (.control .forLoop))
    (stands : task = .resume id (.counting frame) ∨
      (task = .enter id ∧ (m.countingRange id).frame? = some frame)) :
    ∃ m', m.perform task = (frame.effect.step, m') ∧
      ∀ {index next}, frame.advance? = some (index, next) →
        m'.engine.graph.outputValue ⟨id, Layout.ForLoop.index⟩ = .int index := by
  have loop' := (kind?_openStep m id id).trans loop
  have wf := (ready_openStep valid id).1.valid.wellFormed
  -- Whatever was read, the machine before the effect still has the node.
  have acted (ports : List PortId) {index : Int64} {next : CountingFrame}
      (advanced : frame.advance? = some (index, next)) :
      ((((m.openStep id).readAll id ports).2.apply id frame.effect).countStep
        id).engine.graph.outputValue ⟨id, Layout.ForLoop.index⟩ = .int index := by
    apply outputValue_acted_of_write
    · rw [Graph.isSome_output?_eq_of_frame_eq (works_readAll id ports (m.openStep id)).frame]
      exact (wf.isSome_output? loop' _).mpr (by decide)
    · rw [CountingFrame.effect, advanced]
  rcases stands with rfl | ⟨rfl, entered⟩
  · refine ⟨_, ?_, acted []⟩
    rw [perform_eq]
    rfl
  · refine ⟨_, ?_, acted ControlKind.forLoop.operands⟩
    unfold CountingRange.frame? countingRange at entered
    rw [perform_enter_forLoop loop]
    dsimp only at entered ⊢
    rw [ControlKind.effect, entered]

/-- A counting loop without a frame goes on to Done. -/
theorem perform_skipped (loop : m.kind? id = some (.control .forLoop))
    (skipped : (m.countingRange id).frame? = none) :
    (m.perform (.enter id)).1 = .follow [Layout.ForLoop.done] := by
  unfold CountingRange.frame? countingRange at skipped
  rw [perform_enter_forLoop loop]
  dsimp only at skipped ⊢
  rw [ControlKind.effect, skipped]

/-- A counting loop publishes the indices that its frame gives. -/
theorem publishes_of_gives {body : Machine → Machine} (steps : ∀ m : Machine, m.Reaches (body m))
    {frame : CountingFrame} {indices : List Int64} (gives : frame.Gives indices) {task : Task}
    (valid : m.engine.Valid) (loop : m.kind? id = some (.control .forLoop))
    (stands : task = .resume id (.counting frame) ∨
      (task = .enter id ∧ (m.countingRange id).frame? = some frame)) :
    Publishes body id m task (indices.map Value.int) := by
  induction gives generalizing m task with
  | done ended =>
    obtain ⟨m', performed, _⟩ := perform_counting valid loop stands
    rw [CountingFrame.effect, ended] at performed
    exact .done performed
  | @pass frame next index rest advanced _ ih =>
    obtain ⟨m', performed, published⟩ := perform_counting valid loop stands
    rw [CountingFrame.effect, advanced] at performed
    have reaches : m.Reaches m' := by
      have made := Machine.Reaches.perform task (.refl : m.Reaches m)
      rwa [performed] at made
    obtain ⟨valid', works⟩ := reaches.works valid
    obtain ⟨valid'', works'⟩ := (steps m').works valid'
    have loop' : (body m').kind? id = some (.control .forLoop) :=
      (kind?_eq_of_frame_eq (works.trans works').frame id).trans loop
    have passed := Publishes.pass performed (ih valid'' loop' (.inl rfl))
    rwa [published advanced] at passed

/-- For every start, finish and step and in both directions, a counting loop comes to Done after
finitely many passes, whatever steps are made between them, and the indices it publishes are the
progression in unbounded integers. Its distance is the size of the step; only that of the least
integer is one less (`CountingRange.distance`). -/
theorem counting_indices (start finish step : Int64) (descending : Bool) (valid : m.engine.Valid)
    (loop : m.kind? id = some (.control .forLoop))
    (reads : m.countingRange id = ⟨start, finish, step, descending⟩)
    (body : Machine → Machine) (steps : ∀ m : Machine, m.Reaches (body m)) :
    ∃ indices : List Int64,
      (∀ values, Publishes body id m (.enter id) values ↔ values = indices.map Value.int) ∧
      ∀ sequence, CountingRange.Visits ⟨start, finish, step, descending⟩
          (CountingRange.distance ⟨start, finish, step, descending⟩) sequence ↔
        sequence = indices.map Int64.toInt := by
  rw [← reads]
  obtain ⟨indices, publishes, visits⟩ : ∃ indices : List Int64,
      Publishes body id m (.enter id) (indices.map Value.int) ∧
        (m.countingRange id).Visits (m.countingRange id).distance (indices.map Int64.toInt) := by
    cases entered : (m.countingRange id).frame? with
    | none =>
      have performed := perform_skipped loop entered
      exact ⟨[], .done (Prod.ext performed rfl), CountingRange.visits_of_frame?_eq_none entered _⟩
    | some frame =>
      obtain ⟨indices, gives⟩ := (CountingFrame.progresses_of_initial? entered).exists_gives
      exact ⟨indices, publishes_of_gives steps gives valid loop (.inr ⟨rfl, entered⟩),
        CountingRange.visits_of_gives entered gives⟩
  refine ⟨indices, fun values => ?_, fun sequence => ?_⟩
  · exact ⟨fun h => h.unique publishes, fun h => h ▸ publishes⟩
  · exact ⟨fun h => h.unique visits, fun h => h ▸ visits⟩

/-- An input that is not linked is read without any change. -/
theorem read_of_unlinked {addr : InputAddr} {input : Input}
    (found : m.engine.graph.input? addr = some input) (unlinked : input.source = none) :
    m.read addr = (input.literal, m) := by
  simp [read, Engine.read, Engine.readUsing, found, unlinked]

/-- Inputs that are not linked are read as their literals. -/
theorem readAll_of_unlinked {ports : List PortId} (literal : PortId → Value)
    (found : ∀ port ∈ ports, (m.engine.graph.input? ⟨id, port⟩).map
      (fun input => (input.source, input.literal)) = some (none, literal port)) :
    ∀ port ∈ ports, (m.readAll id ports).1 port = literal port := by
  refine (readAll_keeps (I := fun m' => m' = m) (fun port value => value = literal port) ports ?_
    rfl).1
  rintro port member m' rfl
  obtain ⟨input, place, same⟩ := Option.map_eq_some_iff.mp (found port member)
  obtain ⟨unlinked, same⟩ := Prod.mk.inj same
  rw [read_of_unlinked place unlinked]
  exact ⟨same, rfl⟩

/-- A counting loop whose inputs are not linked counts by their literals. -/
theorem countingRange_of_unlinked (literal : PortId → Value)
    (found : ∀ port ∈ ControlKind.forLoop.operands, (m.engine.graph.input? ⟨id, port⟩).map
      (fun input => (input.source, input.literal)) = some (none, literal port)) :
    m.countingRange id =
      { start := (literal Layout.ForLoop.start).toInt
        finish := (literal Layout.ForLoop.finish).toInt
        step := (literal Layout.ForLoop.step).toInt
        descending := (literal Layout.ForLoop.descending).isTruthy } := by
  have reads := readAll_of_unlinked (m := m.openStep id) literal
    fun port member => by
      have kept := congrArg (Option.map fun input => (input.source, input.literal))
        (Graph.map_input?_eq_of_frame_eq (erase_openStep _ m id) ⟨id, port⟩)
      simp only [Option.map_map] at kept
      exact kept.trans (found port member)
  unfold countingRange
  generalize (m.openStep id).readAll id ControlKind.forLoop.operands = read at reads
  simp only [ControlKind.operands, List.forall_mem_cons] at reads
  obtain ⟨start, finish, step, descending, _⟩ := reads
  dsimp only
  rw [start, finish, step, descending]

end Machine

/-- A counting loop with these literals. -/
def CountingRange.node (r : CountingRange) : Node :=
  let node := (Node.ofKind (.control .forLoop)).withLiteral Layout.ForLoop.start (.int r.start)
  let node := node.withLiteral Layout.ForLoop.finish (.int r.finish)
  let node := node.withLiteral Layout.ForLoop.step (.int r.step)
  node.withLiteral Layout.ForLoop.descending (.bool r.descending)

namespace Machine

/-- A machine whose only node is a counting loop with these literals. -/
def counting (r : CountingRange) : Machine :=
  let context : Context := ⟨0, .empty, #[]⟩
  ⟨(Engine.addNode { context } r.node).2, context⟩

/-- So there is a loop to every range. -/
theorem counting_reads (r : CountingRange) : (counting r).engine.Valid ∧
    (counting r).kind? 0 = some (.control .forLoop) ∧ (counting r).countingRange 0 = r := by
  have laid : r.node.LaidOut := (((Node.laidOut_ofKind _).withLiteral _ _).withLiteral _ _
    |>.withLiteral _ _).withLiteral _ _
  refine ⟨(Engine.Valid.new _ _).addNode laid, rfl, ?_⟩
  let literal : PortId → Value
    | 1 => .int r.start
    | 2 => .int r.finish
    | 3 => .int r.step
    | _ => .bool r.descending
  refine countingRange_of_unlinked literal fun port member => ?_
  have found : (counting r).engine.graph.input? ⟨0, port⟩ = r.node.inputs[port]?.map Input.unlink :=
    Graph.input?_add_self {} r.node port
  rw [found]
  simp only [ControlKind.operands, List.mem_cons, List.not_mem_nil, or_false] at member
  rcases member with rfl | rfl | rfl | rfl <;>
  · simp only [CountingRange.node, Node.withLiteral, Node.modifyInput, Array.getElem?_modify,
      Node.ofKind, List.getElem?_toArray]
    rfl

theorem counting_up : (counting ⟨2, 9, 3, false⟩).engine.Valid ∧
    ∃ indices : List Int64, ∀ values,
      Publishes (fun m => m) 0 (counting ⟨2, 9, 3, false⟩) (.enter 0) values ↔
        values = indices.map Value.int := by
  obtain ⟨valid, loop, reads⟩ := counting_reads ⟨2, 9, 3, false⟩
  obtain ⟨indices, published, _⟩ :=
    counting_indices 2 9 3 false valid loop reads (fun m => m) fun _ => .refl
  exact ⟨valid, indices, published⟩

/-- From the greatest integer down to the least, by the least: the second index is one too great,
and then there is a third. -/
theorem counting_falls_short :
    let range : CountingRange := ⟨Int64.maxValue, Int64.minValue, Int64.minValue, true⟩
    (counting range).engine.Valid ∧ (counting range).countingRange 0 = range ∧
      Publishes (fun m => m) 0 (counting range) (.enter 0)
        [.int 9223372036854775806, .int (-1), .int (-9223372036854775808)] ∧
      range.Visits range.step.toInt.natAbs [9223372036854775806, -2] ∧
      ¬ ∃ indices : List Int64,
        Publishes (fun m => m) 0 (counting range) (.enter 0) (indices.map Value.int) ∧
          range.Visits range.step.toInt.natAbs (indices.map Int64.toInt) := by
  intro range
  obtain ⟨valid, loop, reads⟩ := counting_reads range
  have gives : CountingFrame.Gives
      ⟨some 9223372036854775806, Int64.minValue, Int64.maxValue, true⟩
      [9223372036854775806, -1, -9223372036854775808] :=
    .pass rfl (.pass rfl (.pass rfl (.done rfl)))
  have published : Publishes (fun m => m) 0 (counting range) (.enter 0) _ :=
    publishes_of_gives (fun _ => .refl) gives valid loop (.inr ⟨rfl, by rw [reads]; decide⟩)
  have unbounded : range.Visits range.step.toInt.natAbs [9223372036854775806, -2] :=
    .descending rfl (by decide) (.go (by decide) (.go (by decide) (.stop (by decide))))
  refine ⟨valid, reads, published, unbounded, ?_⟩
  rintro ⟨indices, published', visits⟩
  have count := congrArg List.length (published.unique published')
  have count' := congrArg List.length (unbounded.unique visits)
  simp only [List.length_map, List.length_cons, List.length_nil] at count count'
  omega

end Machine

end NodeGraph
