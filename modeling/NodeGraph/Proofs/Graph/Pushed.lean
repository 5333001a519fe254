import NodeGraph.Proofs.Engine.Stamps
import NodeGraph.Proofs.Graph.Naive
import NodeGraph.Proofs.Graph.WellFormed

/-!
# One more node

A node that is put behind the others, with links of its own that the others do not know of. Unless it
is pure it changes nothing for them: neither what control follows from them nor what their inputs are
worth (`Graph.naiveInput_push`).
-/

namespace NodeGraph.Graph

/-- The graph with one more node, which keeps its links. -/
def push (g : Graph) (node : Node) : Graph := ⟨g.nodes.push node⟩

variable {g : Graph} {node old : Node} {id : NodeId} {locals : Locals}

theorem node?_push (g : Graph) (node : Node) (id : NodeId) :
    (g.push node).node? id = if id = g.size then some node else g.node? id := Array.getElem?_push

theorem size_push (g : Graph) (node : Node) : (g.push node).size = g.size + 1 :=
  Array.size_push node

theorem node?_push_self (g : Graph) (node : Node) : (g.push node).node? g.size = some node := by
  rw [node?_push, if_pos rfl]

theorem node?_push_of_ne (other : id ≠ g.size) (node : Node) :
    (g.push node).node? id = g.node? id := by
  rw [node?_push, if_neg other]

theorem pureKind?_push_of_ne (other : id ≠ g.size) (node : Node) :
    (g.push node).pureKind? id = g.pureKind? id := by
  rw [pureKind?, node?_push_of_ne other, pureKind?]

theorem input?_push_self (g : Graph) (node : Node) (port : PortId) :
    (g.push node).input? ⟨g.size, port⟩ = node.inputs[port]? := by
  rw [input?, node?_push_self, Option.bind_some]

theorem input?_push_of_ne {addr : InputAddr} (other : addr.node ≠ g.size) (node : Node) :
    (g.push node).input? addr = g.input? addr := by
  rw [input?, node?_push_of_ne other, input?]

theorem output?_push_of_ne {addr : OutputAddr} (other : addr.node ≠ g.size) (node : Node) :
    (g.push node).output? addr = g.output? addr := by
  rw [output?, node?_push_of_ne other, output?]

theorem outputValue_push_of_ne {addr : OutputAddr} (other : addr.node ≠ g.size) (node : Node) :
    (g.push node).outputValue addr = g.outputValue addr := by
  rw [outputValue_eq, output?_push_of_ne other, outputValue_eq]

theorem successors_push_of_ne {addr : OutputAddr} (other : addr.node ≠ g.size) (node : Node) :
    (g.push node).successors addr = g.successors addr := by
  rw [successors, output?_push_of_ne other, successors]

/-- A node with the outputs of another one goes where that one goes. -/
theorem successors_push_self (found : g.node? id = some old) (node : Node)
    (outputs : node.outputs = old.outputs) (port : PortId) :
    (g.push node).successors ⟨g.size, port⟩ = g.successors ⟨id, port⟩ := by
  rw [successors, output?, node?_push_self, successors, output?, found, Option.bind_some,
    Option.bind_some, outputs]

theorem modifyNode_push (other : id ≠ g.size) (node : Node) (f : Node → Node) :
    (g.push node).modifyNode id f = (g.modifyNode id f).push node := by
  apply ext_node?
  intro place
  rw [node?_modifyNode, node?_push, node?_push, size_modifyNode, node?_modifyNode]
  by_cases last : place = g.size
  · rw [if_pos last, if_pos last, if_neg fun same => other (same.trans last)]
  · rw [if_neg last, if_neg last]

theorem erase_push (keeps : NodeKind → Bool) (g : Graph) (node : Node) :
    (g.push node).erase keeps = (g.erase keeps).push (node.erase keeps) := by
  apply ext_node?
  intro place
  rw [node?_erase, node?_push, node?_push, size_erase, node?_erase]
  split <;> rfl

theorem Quiet.push (quiet : g.Quiet) (idle : node.activity = .idle) : (g.push node).Quiet := by
  intro id
  rw [activity?, node?_push]
  split
  · rw [Option.map_some, idle]
    intro equal
    cases equal
  · exact quiet id

theorem Stamps.push {P : Int → Prop} (stamps : g.Stamps P) (last : node.Stamps P) :
    (g.push node).Stamps P := by
  intro id other found
  rw [node?_push] at found
  split at found
  · obtain rfl := Option.some.inj found
    exact last
  · exact stamps id other found

/-- An output of the graph is not one of the node that is put behind it. -/
theorem node_ne_size_of_output? {addr : OutputAddr} (there : (g.output? addr).isSome) :
    addr.node ≠ g.size := by
  obtain ⟨output, found⟩ := Option.isSome_iff_exists.mp there
  obtain ⟨old, place, _⟩ := output?_eq_some_iff.mp found
  exact Nat.ne_of_lt (lt_size_of_node? place)

theorem WellFormed.push (wf : g.WellFormed) (laid : node.LaidOut)
    (wired : ∀ {port : PortId} {input : Input} {source : OutputAddr},
      node.inputs[port]? = some input → input.source = some source → (g.output? source).isSome) :
    (g.push node).WellFormed := by
  have kept {source : OutputAddr} (there : (g.output? source).isSome) :
      ((g.push node).output? source).isSome := by
    rwa [output?_push_of_ne (node_ne_size_of_output? there)]
  refine ⟨fun {id other} found => ?_, fun {addr input source} found linked => ?_⟩
  · rw [node?_push] at found
    split at found
    · obtain rfl := Option.some.inj found
      exact laid
    · exact wf.laidOut found
  · obtain ⟨other, place, port⟩ := input?_eq_some_iff.mp found
    rw [node?_push] at place
    split at place
    · obtain rfl := Option.some.inj place
      exact kept (wired port linked)
    · exact kept (wf.wired (input?_eq_some_iff.mpr ⟨other, place, port⟩) linked)

section Impure

variable (impure : node.kind.pure? = none)

include impure

theorem pureKind?_push (id : NodeId) : (g.push node).pureKind? id = g.pureKind? id := by
  by_cases last : id = g.size
  · have absent : g.node? id = none := by
      rw [last]
      exact Array.getElem?_eq_none (Nat.le_refl _)
    rw [last, pureKind?, node?_push_self, ← last, pureKind?, absent]
    exact impure
  · exact pureKind?_push_of_ne last node

theorem acyclic_push (acyclic : g.Acyclic) : (g.push node).Acyclic := by
  have fed : ∀ a b, (g.push node).feeds a b = true → g.feeds a b = true := by
    intro a b fed
    obtain ⟨source, target, port, input, link, found, linked, equal⟩ := feeds_iff.mp fed
    rw [pureKind?_push impure] at source target
    obtain ⟨kind, pure⟩ := Option.isSome_iff_exists.mp target
    have other : (InputAddr.mk b port).node ≠ g.size := Nat.ne_of_lt (lt_size_of_pureKind? pure)
    rw [input?_push_of_ne other] at found
    exact feeds_iff.mpr ⟨source, target, port, input, link, found, linked, equal⟩
  intro id cycle
  exact acyclic id (Relation.TransGen.mono fed _ _ cycle)

/-- An input of the graph is worth the same, if the pure nodes are. -/
theorem inputUsing_push (wf : g.WellFormed) {value value' : NodeId → PureKind → Value}
    (same : ∀ id kind, g.pureKind? id = some kind → value id kind = value' id kind)
    {addr : InputAddr} (other : addr.node ≠ g.size) :
    (g.push node).inputUsing value addr = g.inputUsing value' addr := by
  cases found : g.input? addr with
  | none =>
    have found' := (input?_push_of_ne other node).trans found
    simp only [inputUsing, found, found']
  | some input =>
    have found' := (input?_push_of_ne other node).trans found
    cases linked : input.source with
    | none => rw [inputUsing_of_unlinked found' linked, inputUsing_of_unlinked found linked]
    | some source =>
      rw [inputUsing_of_linked found' linked, inputUsing_of_linked found linked]
      cases pure : g.pureKind? source.node with
      | none =>
        rw [outputUsing_of_impure ((pureKind?_push impure _).trans pure),
          outputUsing_of_impure pure,
          outputValue_push_of_ne (node_ne_size_of_output? (wf.wired found linked))]
      | some kind =>
        rw [outputUsing_of_pure ((pureKind?_push impure _).trans pure), outputUsing_of_pure pure]
        exact same _ _ pure

theorem valueWithin_push (wf : g.WellFormed) (depth : Nat) (id : NodeId) (kind : PureKind)
    (pure : g.pureKind? id = some kind) :
    (g.push node).valueWithin locals depth id kind = g.valueWithin locals depth id kind := by
  induction depth generalizing id kind with
  | zero => rfl
  | succ depth ih =>
    unfold valueWithin
    congr 1
    funext port
    exact inputUsing_push impure wf ih (Nat.ne_of_lt (lt_size_of_pureKind? pure))

theorem naiveNode_push (wf : g.WellFormed) (acyclic : g.Acyclic) (locals : Locals)
    {kind : PureKind} (pure : g.pureKind? id = some kind) :
    (g.push node).naiveNode locals id kind = g.naiveNode locals id kind := by
  obtain ⟨rank, ranks⟩ := exists_ranks acyclic
  have bound := ranks.bound (lt_size_of_pureKind? pure)
  rw [naiveNode, valueWithin_push impure wf _ _ _ pure, size_push, naiveNode]
  exact valueWithin_eq ranks pure (Nat.lt_succ_of_lt bound) bound

/-- The inputs of the other nodes are worth what they were worth. -/
theorem naiveInput_push (wf : g.WellFormed) (acyclic : g.Acyclic) {addr : InputAddr}
    (other : addr.node ≠ g.size) :
    (g.push node).naiveInput locals addr = g.naiveInput locals addr :=
  inputUsing_push impure wf (fun _ _ pure => naiveNode_push impure wf acyclic locals pure) other

end Impure

end NodeGraph.Graph
