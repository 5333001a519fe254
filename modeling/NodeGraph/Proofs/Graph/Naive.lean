import NodeGraph.Locals
import NodeGraph.Proofs.Graph.Acyclic

/-!
# Values without caches

What an input or output is worth when nothing is remembered: an unlinked input its literal, an
output of a node that is not pure what the node wrote last, and an output of a pure node what the
node computes from the values of its inputs. On a graph whose pure nodes form no cycle this
recursion ends (`Graph.naiveNode_eq`). It reads nothing but the skeleton
(`Graph.naiveOutput_eq_of_skeleton`).
-/

namespace NodeGraph

/-- What a pure node computes from the values of its inputs. -/
def PureKind.value (locals : Locals) (operand : PortId → Value) : PureKind → Value
  | .binary op => op.apply (operand Layout.Binary.left) (operand Layout.Binary.right)
  | .getLocal => locals.get (operand Layout.GetLocal.key).display

/-- The inputs a pure node reads, in order. -/
def PureKind.operands : PureKind → List PortId
  | .binary _ => [Layout.Binary.left, Layout.Binary.right]
  | .getLocal => [Layout.GetLocal.key]

/-- A pure node computes from what it reads. -/
theorem PureKind.value_congr {locals : Locals} {kind : PureKind} {operand operand' : PortId → Value}
    (same : ∀ port ∈ kind.operands, operand port = operand' port) :
    kind.value locals operand = kind.value locals operand' := by
  cases kind with
  | binary op =>
    have left := same Layout.Binary.left (by simp [operands])
    have right := same Layout.Binary.right (by simp [operands])
    rw [value, value, left, right]
  | getLocal =>
    have key := same Layout.GetLocal.key (by simp [operands])
    rw [value, value, key]

namespace Graph

/-- Value of an output, given the values of the pure nodes. -/
def outputUsing (value : NodeId → PureKind → Value) (g : Graph) (addr : OutputAddr) : Value :=
  match g.pureKind? addr.node with
  | some kind => value addr.node kind
  | none => g.outputValue addr

/-- Value of an input, given the values of the pure nodes. -/
def inputUsing (value : NodeId → PureKind → Value) (g : Graph) (addr : InputAddr) : Value :=
  match g.input? addr with
  | none => .empty
  | some input =>
    match input.source with
    | none => input.literal
    | some source => g.outputUsing value source

/-- Value of a pure node, through at most `depth` nodes. -/
def valueWithin (g : Graph) (locals : Locals) : (depth : Nat) → NodeId → PureKind → Value
  | 0, _, _ => .empty
  | depth + 1, id, kind =>
    kind.value locals fun port => g.inputUsing (g.valueWithin locals depth) ⟨id, port⟩

/-- Value of a pure node. As many nodes as the graph has are always enough. -/
def naiveNode (g : Graph) (locals : Locals) (id : NodeId) (kind : PureKind) : Value :=
  g.valueWithin locals g.size id kind

/-- Value of an input. -/
def naiveInput (g : Graph) (locals : Locals) (addr : InputAddr) : Value :=
  g.inputUsing (g.naiveNode locals) addr

/-- Value of an output: of a pure node what it computes, of any other what it wrote last. -/
def naiveOutput (g : Graph) (locals : Locals) (addr : OutputAddr) : Value :=
  g.outputUsing (g.naiveNode locals) addr

variable {g h : Graph} {locals : Locals}

theorem outputUsing_of_pure {value : NodeId → PureKind → Value} {addr : OutputAddr}
    {kind : PureKind} (pure : g.pureKind? addr.node = some kind) :
    g.outputUsing value addr = value addr.node kind := by
  unfold outputUsing
  rw [pure]

theorem outputUsing_of_impure {value : NodeId → PureKind → Value} {addr : OutputAddr}
    (impure : g.pureKind? addr.node = none) : g.outputUsing value addr = g.outputValue addr := by
  unfold outputUsing
  rw [impure]

theorem inputUsing_of_unlinked {value : NodeId → PureKind → Value} {addr : InputAddr}
    {input : Input} (found : g.input? addr = some input) (unlinked : input.source = none) :
    g.inputUsing value addr = input.literal := by
  unfold inputUsing
  rw [found]
  dsimp only
  rw [unlinked]

theorem inputUsing_of_linked {value : NodeId → PureKind → Value} {addr : InputAddr}
    {input : Input} {source : OutputAddr} (found : g.input? addr = some input)
    (linked : input.source = some source) :
    g.inputUsing value addr = g.outputUsing value source := by
  unfold inputUsing
  rw [found]
  dsimp only
  rw [linked]

theorem naiveInput_of_source {addr : InputAddr} {source : OutputAddr}
    (link : g.source? addr = some source) :
    g.naiveInput locals addr = g.naiveOutput locals source := by
  obtain ⟨input, found, linked⟩ := source?_eq_some_iff.mp link
  exact inputUsing_of_linked found linked

/-- Two depths above the rank of a node give it the same value. -/
theorem valueWithin_eq {rank : NodeId → Nat} (ranks : g.Ranks rank) {id : NodeId} {kind : PureKind}
    (pure : g.pureKind? id = some kind) {depth depth' : Nat} (enough : rank id < depth)
    (enough' : rank id < depth') :
    g.valueWithin locals depth id kind = g.valueWithin locals depth' id kind := by
  induction depth generalizing depth' id kind with
  | zero => omega
  | succ depth ih =>
    cases depth' with
    | zero => omega
    | succ depth' =>
      unfold valueWithin
      congr 1
      funext port
      -- An operand differs only where it comes from a pure node, which has a lower rank.
      unfold inputUsing
      cases found : g.input? ⟨id, port⟩ with
      | none => rfl
      | some input =>
        cases linked : input.source with
        | none => simp only [linked]
        | some source =>
          simp only [linked]
          cases above : g.pureKind? source.node with
          | none => rw [outputUsing_of_impure above, outputUsing_of_impure above]
          | some kind' =>
            have link := source?_eq_some_iff.mpr ⟨input, found, linked⟩
            have lower := ranks.lt (feeds_of_source link above pure)
            have below : rank source.node < rank id := lower
            rw [outputUsing_of_pure above, outputUsing_of_pure above]
            exact ih above (by omega) (by omega)

/-- A pure node computes its value from the values of its inputs. -/
theorem naiveNode_eq (acyclic : g.Acyclic) {id : NodeId} {kind : PureKind}
    (pure : g.pureKind? id = some kind) :
    g.naiveNode locals id kind = kind.value locals fun port => g.naiveInput locals ⟨id, port⟩ := by
  obtain ⟨rank, ranks⟩ := exists_ranks acyclic
  have bound := ranks.bound (lt_size_of_pureKind? pure)
  rw [naiveNode, valueWithin_eq ranks pure bound (Nat.lt_succ_of_lt bound)]
  rfl

theorem outputUsing_skeleton (value : NodeId → PureKind → Value) (addr : OutputAddr) :
    g.skeleton.outputUsing value addr = g.outputUsing value addr := by
  cases pure : g.pureKind? addr.node with
  | none =>
    have impure : g.skeleton.pureKind? addr.node = none := by rw [skeleton, pureKind?_erase, pure]
    rw [outputUsing_of_impure pure, outputUsing_of_impure impure, outputValue_skeleton pure]
  | some kind =>
    have pure' : g.skeleton.pureKind? addr.node = some kind := by
      rw [skeleton, pureKind?_erase, pure]
    rw [outputUsing_of_pure pure, outputUsing_of_pure pure']

theorem inputUsing_skeleton (value : NodeId → PureKind → Value) (addr : InputAddr) :
    g.skeleton.inputUsing value addr = g.inputUsing value addr := by
  cases found : g.input? addr with
  | none => simp [inputUsing, skeleton, found]
  | some input =>
    have found' : g.skeleton.input? addr = some input.erase := by
      rw [skeleton, input?_erase, found, Option.map_some]
    cases linked : input.source with
    | none =>
      rw [inputUsing_of_unlinked found linked, inputUsing_of_unlinked found' linked]
      rfl
    | some source =>
      rw [inputUsing_of_linked found linked, inputUsing_of_linked found' linked,
        outputUsing_skeleton]

theorem valueWithin_skeleton (depth : Nat) :
    g.skeleton.valueWithin locals depth = g.valueWithin locals depth := by
  induction depth with
  | zero => rfl
  | succ depth ih =>
    funext id kind
    unfold valueWithin
    rw [ih]
    congr 1
    funext port
    exact inputUsing_skeleton _ _

theorem naiveNode_skeleton : g.skeleton.naiveNode locals = g.naiveNode locals := by
  funext id kind
  rw [naiveNode, skeleton, size_erase, ← skeleton, valueWithin_skeleton, naiveNode]

theorem naiveNode_eq_of_skeleton (same : g.skeleton = h.skeleton) :
    g.naiveNode locals = h.naiveNode locals := by
  rw [← naiveNode_skeleton, same, naiveNode_skeleton]

theorem naiveOutput_eq_of_skeleton (same : g.skeleton = h.skeleton) (addr : OutputAddr) :
    g.naiveOutput locals addr = h.naiveOutput locals addr := by
  rw [naiveOutput, ← outputUsing_skeleton, naiveNode_eq_of_skeleton same, same,
    outputUsing_skeleton, naiveOutput]

theorem naiveInput_eq_of_skeleton (same : g.skeleton = h.skeleton) (addr : InputAddr) :
    g.naiveInput locals addr = h.naiveInput locals addr := by
  rw [naiveInput, ← inputUsing_skeleton, naiveNode_eq_of_skeleton same, same,
    inputUsing_skeleton, naiveInput]

end Graph

end NodeGraph
