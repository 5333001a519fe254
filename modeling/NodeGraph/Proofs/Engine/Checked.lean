import NodeGraph.Proofs.Engine.Nesting
import NodeGraph.Proofs.Graph.Ports

/-!
# Pulls that check what they reach

A pull falls back on something where an input, an output or a node is missing, and where its
computations nest too deep. Here it is told with a check in place of every such fallback
(`Engine.readUsing?`, `Engine.refreshUsing?`, `Engine.compute?`): nothing is given as soon as one of
them would be taken. On a well-formed graph none is, and the checked pull gives what the pull does
(`Engine.Reads.checked`).
-/

namespace NodeGraph.Engine

/-- Reads an input, which must exist, as must the output that it reads from. -/
def readUsing? (refresh : NodeId → Engine → Option Engine) (addr : InputAddr) (e : Engine) :
    Option (Value × Engine) :=
  (e.graph.input? addr).bind fun input =>
    match input.source with
    | none => some (input.literal, e)
    | some source =>
      if e.epoch.isCurrent input.stamp then some (input.cached, e.count Statistics.hit)
      else
        (refresh source.node (e.count Statistics.miss)).bind fun e =>
          (e.graph.output? source).bind fun output =>
            (e.graph.input? addr).map fun _ => (output.value, e.store addr output.value)

/-- Brings a node up to date, which must exist. -/
def refreshUsing? (compute : NodeId → PureKind → Engine → Option Engine) (id : NodeId)
    (e : Engine) : Option Engine :=
  (e.graph.node? id).bind fun node =>
    match node.kind with
    | .pure kind =>
      if e.epoch.isCurrent node.computedAt then some e
      else
        match node.activity with
        | .computing => some ((e.log (.pullCycle id node.title)).count Statistics.cycle)
        | .idle => compute id kind e
    | _ => some e

/-- Reads inputs of a node in order, all of which must exist. -/
def readAll? (read : InputAddr → Engine → Option (Value × Engine)) (id : NodeId) :
    List PortId → Engine → Option ((PortId → Value) × Engine)
  | [], e => some (fun _ => .empty, e)
  | port :: rest, e =>
    (read ⟨id, port⟩ e).bind fun (value, e) =>
      (readAll? read id rest e).map fun (values, e) =>
        (fun other => if other = port then value else values other, e)

/-- Computes a pure node, which must exist, as must its operands and its result; and computations
must not nest deeper than they may. -/
def compute? (locals : Locals) : (depth : Nat) → NodeId → PureKind → Engine → Option Engine
  | 0, _, _, _ => none
  | depth + 1, id, kind, e =>
    (e.graph.node? id).bind fun _ =>
      let read := readUsing? (refreshUsing? (compute? locals depth))
      (readAll? read id kind.operands (e.beginComputing id)).bind fun (operand, e) =>
        (e.graph.output? ⟨id, Layout.result⟩).map fun _ =>
          e.finishComputing id (kind.value locals operand)

/-- Reads an input with every check. -/
def read? (locals : Locals) (depth : Nat) : InputAddr → Engine → Option (Value × Engine) :=
  readUsing? (refreshUsing? (compute? locals depth))

section Checked

variable {g : Graph} {locals : Locals}

mutual

/-- A read of an input that exists takes no fallback. -/
theorem Reads.checked {depth : Nat} {addr : InputAddr} {e e' : Engine} {value : Value}
    (h : Reads locals depth addr e value e') (wf : g.WellFormed)
    (frame : e.graph.frame = g.frame) (there : (g.input? addr).isSome) {bound : Nat}
    (le : depth ≤ bound) : e.read? locals bound addr = some (value, e') := by
  match h with
  | .absent missing =>
    rw [← Graph.isSome_input?_eq_of_frame_eq frame, missing] at there
    cases there
  | .unlinked found linked => simp [read?, readUsing?, found, linked]
  | .cached found linked current => simp [read?, readUsing?, found, linked, current]
  | @Reads.pulled _ _ _ _ e₁ input source found linked stale refreshes =>
    have counted : (e.count Statistics.miss).graph.frame = g.frame := by rwa [graph_count]
    have frame₁ := (refreshes.respects pulled_relation).frame.trans counted
    have link : (g.output? source).isSome := by
      rw [← Graph.isSome_output?_eq_of_frame_eq frame]
      exact (Graph.wellFormed_of_frame_eq frame.symm wf).wired found linked
    have refreshed := refreshes.checked wf counted (Graph.isSome_node?_of_output? link) le
    -- Both are still there after the refresh, which keeps the frame.
    rw [← Graph.isSome_output?_eq_of_frame_eq frame₁] at link
    rw [← Graph.isSome_input?_eq_of_frame_eq frame₁] at there
    obtain ⟨output, gives⟩ := Option.isSome_iff_exists.mp link
    obtain ⟨kept, keeps⟩ := Option.isSome_iff_exists.mp there
    simp [read?, readUsing?, found, linked, stale, refreshed, gives, keeps, Graph.outputValue]

theorem ReadsEach.checked {depth : Nat} {id : NodeId} {ports : List PortId} {e e' : Engine}
    {values : PortId → Value} (h : ReadsEach locals depth id ports e values e')
    (wf : g.WellFormed) (frame : e.graph.frame = g.frame)
    (there : ∀ port ∈ ports, (g.input? ⟨id, port⟩).isSome) {bound : Nat} (le : depth ≤ bound) :
    readAll? (read? locals bound) id ports e = some (values, e') := by
  match h with
  | .nil => rfl
  | .cons first others =>
    have frame₁ := (first.respects pulled_relation).frame.trans frame
    have one := first.checked wf frame (there _ List.mem_cons_self) le
    have rest := others.checked wf frame₁
      (fun port member => there port (List.mem_cons_of_mem _ member)) le
    rw [readAll?, one, Option.bind_some]
    dsimp only
    rw [rest, Option.map_some]

theorem Refreshes.checked {depth : Nat} {id : NodeId} {e e' : Engine}
    (h : Refreshes locals depth id e e') (wf : g.WellFormed) (frame : e.graph.frame = g.frame)
    (there : (g.node? id).isSome) {bound : Nat} (le : depth ≤ bound) :
    e.refreshUsing? (compute? locals bound) id = some e' := by
  match h with
  | .impure impure =>
    rw [← Graph.isSome_node?_eq_of_frame_eq frame] at there
    obtain ⟨node, found⟩ := Option.isSome_iff_exists.mp there
    rw [refreshUsing?, found, Option.bind_some]
    split
    next kind pure =>
      rw [Graph.pureKind?_eq_some found pure] at impure
      cases impure
    next => rfl
  | .current found pure current => simp [refreshUsing?, found, pure, current]
  | .cycle found pure stale busy => simp [refreshUsing?, found, pure, stale, busy]
  | .computed found pure stale idle computes =>
    have isPure := Graph.pureKind?_eq_some found pure
    rw [Graph.pureKind?_eq_of_frame_eq frame] at isPure
    simp [refreshUsing?, found, pure, stale, idle, computes.checked wf frame isPure le]

theorem Computes.checked {depth : Nat} {id : NodeId} {kind : PureKind} {e e' : Engine}
    (h : Computes locals depth id kind e e') (wf : g.WellFormed)
    (frame : e.graph.frame = g.frame) (pure : g.pureKind? id = some kind) {bound : Nat}
    (le : depth ≤ bound) : e.compute? locals bound id kind = some e' := by
  match h with
  | @Computes.operate _ depth _ _ _ e₁ operand reads =>
    obtain ⟨more, rfl⟩ := Nat.exists_eq_add_of_le' le
    have frame' : (e.beginComputing id).graph.frame = g.frame :=
      (erase_beginComputing _ e id).trans frame
    have operands := reads.checked wf frame' (fun port => wf.isSome_operand pure)
      (Nat.le_add_left depth more)
    have frame₁ := (reads.respects pulled_relation).frame.trans frame'
    obtain ⟨node, found, _⟩ := Graph.pureKind?_eq_some_iff.mp
      ((Graph.pureKind?_eq_of_frame_eq frame id).trans pure)
    have there := wf.isSome_result pure
    rw [← Graph.isSome_output?_eq_of_frame_eq frame₁] at there
    obtain ⟨output, writes⟩ := Option.isSome_iff_exists.mp there
    rw [← Nat.add_assoc, compute?, found, Option.bind_some]
    rw [read?] at operands
    simp [operands, writes]

end

end Checked

end NodeGraph.Engine
