import NodeGraph.Graph.Basic

/-!
# Looking up what was changed

A graph is known by the node at each position (`Graph.ext_node?`). Here is what is found at a
position or an address after a node was changed, or after every node was changed alike.
-/

namespace NodeGraph

/-- What a node of this kind computes when it is pulled, if it is pure. -/
def NodeKind.pure? : NodeKind → Option PureKind
  | .pure kind => some kind
  | _ => none

theorem NodeKind.pure?_eq_some_iff {k : NodeKind} {kind : PureKind} :
    k.pure? = some kind ↔ k = .pure kind := by
  cases k <;> simp [pure?]

theorem bind_eq_ok_iff {ε α β : Type} {result : Except ε α} {f : α → Except ε β} {b : β} :
    result >>= f = .ok b ↔ ∃ a, result = .ok a ∧ f a = .ok b := by
  cases result with
  | error fault => simp [bind, Except.bind]
  | ok a => simp [bind, Except.bind]

/-- A change to one element, seen through a view of all elements. -/
theorem map_modify {α β : Type} {xs : Array α} {i : Nat} {f : α → α} {h : β → β} {view : α → β}
    (same : ∀ x, view (f x) = h (view x)) :
    (xs.modify i f).map view = (xs.map view).modify i h := by
  apply Array.ext_getElem?
  intro j
  rw [Array.getElem?_map, Array.getElem?_modify, Array.getElem?_modify, Array.getElem?_map]
  split
  case isTrue => cases xs[j]? <;> simp [same]
  case isFalse => rfl

namespace Graph

/-- What the node at a position computes when it is pulled; none where there is no node or the node
is not pure. -/
def pureKind? (g : Graph) (id : NodeId) : Option PureKind := (g.node? id).bind (·.kind.pure?)

theorem pureKind?_eq_some_iff {g : Graph} {id : NodeId} {kind : PureKind} :
    g.pureKind? id = some kind ↔ ∃ node, g.node? id = some node ∧ node.kind = .pure kind := by
  simp only [pureKind?, Option.bind_eq_some_iff, NodeKind.pure?_eq_some_iff]

theorem pureKind?_eq_some {g : Graph} {id : NodeId} {node : Node} {kind : PureKind}
    (found : g.node? id = some node) (pure : node.kind = .pure kind) :
    g.pureKind? id = some kind := pureKind?_eq_some_iff.mpr ⟨node, found, pure⟩

theorem lt_size_of_node? {g : Graph} {id : NodeId} {node : Node} (found : g.node? id = some node) :
    id < g.size := by
  obtain ⟨below, _⟩ := Array.getElem?_eq_some_iff.mp found
  exact below

theorem lt_size_of_pureKind? {g : Graph} {id : NodeId} {kind : PureKind}
    (pure : g.pureKind? id = some kind) : id < g.size := by
  obtain ⟨node, found, _⟩ := pureKind?_eq_some_iff.mp pure
  exact lt_size_of_node? found

theorem input?_eq_some_iff {g : Graph} {addr : InputAddr} {input : Input} :
    g.input? addr = some input ↔
      ∃ node, g.node? addr.node = some node ∧ node.inputs[addr.port]? = some input := by
  simp only [input?, Option.bind_eq_some_iff]

/-- Where an input reads from; none where it has no link or does not exist. -/
def source? (g : Graph) (addr : InputAddr) : Option OutputAddr :=
  (g.input? addr).bind (·.source)

theorem source?_eq_some_iff {g : Graph} {addr : InputAddr} {source : OutputAddr} :
    g.source? addr = some source ↔
      ∃ input, g.input? addr = some input ∧ input.source = some source := by
  simp only [source?, Option.bind_eq_some_iff]

theorem output?_eq_some_iff {g : Graph} {addr : OutputAddr} {output : Output} :
    g.output? addr = some output ↔
      ∃ node, g.node? addr.node = some node ∧ node.outputs[addr.port]? = some output := by
  simp only [output?, Option.bind_eq_some_iff]

theorem input_eq_ok_iff {g : Graph} {addr : InputAddr} {input : Input} :
    g.input addr = .ok input ↔ g.input? addr = some input := by
  unfold Graph.input input? Graph.node
  cases g.node? addr.node with
  | none => simp [bind, Except.bind]
  | some node => cases h : node.inputs[addr.port]? <;> simp [bind, Except.bind, h]

theorem output_eq_ok_iff {g : Graph} {addr : OutputAddr} {output : Output} :
    g.output addr = .ok output ↔ g.output? addr = some output := by
  unfold Graph.output output? Graph.node
  cases g.node? addr.node with
  | none => simp [bind, Except.bind]
  | some node => cases h : node.outputs[addr.port]? <;> simp [bind, Except.bind, h]

theorem outputValue_eq (g : Graph) (addr : OutputAddr) :
    g.outputValue addr = ((g.output? addr).map (·.value)).getD .empty := by
  unfold outputValue
  cases g.output? addr <;> rfl

/-- Two graphs with the same node at each position are equal. -/
theorem ext_node? {g h : Graph} (same : ∀ id, g.node? id = h.node? id) : g = h := by
  cases g
  cases h
  exact congrArg Graph.mk (Array.ext_getElem? same)

/-- Changes every node alike. -/
def mapNodes (g : Graph) (f : Node → Node) : Graph := ⟨g.nodes.map f⟩

@[simp]
theorem node?_mapNodes (g : Graph) (f : Node → Node) (id : NodeId) :
    (g.mapNodes f).node? id = (g.node? id).map f := by
  simp [node?, mapNodes]

@[simp]
theorem size_mapNodes (g : Graph) (f : Node → Node) : (g.mapNodes f).size = g.size := by
  simp [size, mapNodes]

theorem invalidate_eq_mapNodes (g : Graph) : g.invalidate = g.mapNodes Node.invalidate := rfl

theorem mapNodes_eq_iff {g h : Graph} {f : Node → Node} :
    g.mapNodes f = h.mapNodes f ↔ ∀ id, (g.node? id).map f = (h.node? id).map f := by
  constructor
  · intro same id
    rw [← node?_mapNodes, same, node?_mapNodes]
  · intro same
    apply ext_node?
    intro id
    rw [node?_mapNodes, node?_mapNodes, same id]

theorem mapNodes_mapNodes (g : Graph) (f h : Node → Node) (k : Node → Node)
    (same : ∀ node, h (f node) = k node) : (g.mapNodes f).mapNodes h = g.mapNodes k := by
  apply ext_node?
  intro id
  simp only [node?_mapNodes, Option.map_map]
  exact congrArg (Option.map · _) (funext same)

/-- A view of the nodes does not show a change to one node that it does not show of that node. -/
theorem mapNodes_modifyNode {g : Graph} {id : NodeId} {f view : Node → Node}
    (same : ∀ node, g.node? id = some node → view (f node) = view node) :
    (g.modifyNode id f).mapNodes view = g.mapNodes view := by
  rw [mapNodes_eq_iff]
  intro other
  rw [node?_modifyNode]
  split
  case isTrue equal =>
    subst equal
    cases found : g.node? id with
    | none => rfl
    | some node => simp [same node found]
  case isFalse => rfl

/-- Changes to one node that a view shows alike keep two graphs alike. -/
theorem mapNodes_modifyNode_congr {g h : Graph} {view f f' : Node → Node} {id : NodeId}
    (same : g.mapNodes view = h.mapNodes view)
    (congr : ∀ node node', view node = view node' → view (f node) = view (f' node')) :
    (g.modifyNode id f).mapNodes view = (h.modifyNode id f').mapNodes view := by
  rw [mapNodes_eq_iff] at same ⊢
  intro other
  have at_ := same other
  rw [node?_modifyNode, node?_modifyNode]
  split
  · cases found : g.node? other with
    | none =>
      rw [found, Option.map_none, eq_comm, Option.map_eq_none_iff] at at_
      rw [at_]
      rfl
    | some node =>
      rw [found, Option.map_some, eq_comm] at at_
      obtain ⟨node', found', equal⟩ := Option.map_eq_some_iff.mp at_
      rw [found']
      exact congrArg some (congr node node' equal.symm)
  · exact at_

theorem node?_modifyNode_self {g : Graph} {id : NodeId} {f : Node → Node} {node : Node}
    (found : g.node? id = some node) : (g.modifyNode id f).node? id = some (f node) := by
  rw [node?_modifyNode, if_pos rfl, found, Option.map_some]

theorem node?_modifyNode_of_ne {g : Graph} {id other : NodeId} {f : Node → Node}
    (different : id ≠ other) : (g.modifyNode id f).node? other = g.node? other := by
  rw [node?_modifyNode, if_neg different]

/-- A change to one node that leaves its inputs alone. -/
theorem input?_modifyNode {g : Graph} {id : NodeId} {f : Node → Node}
    (same : ∀ node, (f node).inputs = node.inputs) (addr : InputAddr) :
    (g.modifyNode id f).input? addr = g.input? addr := by
  rw [input?, node?_modifyNode]
  split
  · cases found : g.node? addr.node with
    | none => rw [input?, found, Option.map_none]
    | some node => rw [input?, found, Option.map_some, Option.bind_some, Option.bind_some, same]
  · rfl

/-- A change to one node that leaves its outputs alone. -/
theorem output?_modifyNode {g : Graph} {id : NodeId} {f : Node → Node}
    (same : ∀ node, (f node).outputs = node.outputs) (addr : OutputAddr) :
    (g.modifyNode id f).output? addr = g.output? addr := by
  rw [output?, node?_modifyNode]
  split
  · cases found : g.node? addr.node with
    | none => rw [output?, found, Option.map_none]
    | some node => rw [output?, found, Option.map_some, Option.bind_some, Option.bind_some, same]
  · rfl

theorem outputValue_modifyNode {g : Graph} {id : NodeId} {f : Node → Node}
    (same : ∀ node, (f node).outputs = node.outputs) (addr : OutputAddr) :
    (g.modifyNode id f).outputValue addr = g.outputValue addr := by
  rw [outputValue_eq, outputValue_eq, output?_modifyNode same]

theorem input?_modifyInput (g : Graph) (addr other : InputAddr) (f : Input → Input) :
    (g.modifyInput addr f).input? other =
      if addr = other then (g.input? other).map f else g.input? other := by
  obtain ⟨id, port⟩ := addr
  obtain ⟨id', port'⟩ := other
  simp only [input?, modifyInput, node?_modifyNode, InputAddr.mk.injEq]
  by_cases node : id = id'
  · subst node
    cases g.node? id with
    | none => simp
    | some node => simp [Node.modifyInput, Array.getElem?_modify]
  · simp [node]

theorem output?_modifyOutput (g : Graph) (addr other : OutputAddr) (f : Output → Output) :
    (g.modifyOutput addr f).output? other =
      if addr = other then (g.output? other).map f else g.output? other := by
  obtain ⟨id, port⟩ := addr
  obtain ⟨id', port'⟩ := other
  simp only [output?, modifyOutput, node?_modifyNode, OutputAddr.mk.injEq]
  by_cases node : id = id'
  · subst node
    cases g.node? id with
    | none => simp
    | some node => simp [Node.modifyOutput, Array.getElem?_modify]
  · simp [node]

@[simp]
theorem input?_modifyOutput (g : Graph) (source : OutputAddr) (f : Output → Output)
    (addr : InputAddr) : (g.modifyOutput source f).input? addr = g.input? addr := by
  apply input?_modifyNode
  intro node
  rfl

@[simp]
theorem output?_modifyInput (g : Graph) (target : InputAddr) (f : Input → Input)
    (addr : OutputAddr) : (g.modifyInput target f).output? addr = g.output? addr := by
  apply output?_modifyNode
  intro node
  rfl

theorem outputValue_modifyOutput_self {g : Graph} {addr : OutputAddr}
    (there : (g.output? addr).isSome) (value : Value) :
    (g.modifyOutput addr fun output => { output with value }).outputValue addr = value := by
  obtain ⟨output, found⟩ := Option.isSome_iff_exists.mp there
  rw [outputValue_eq, output?_modifyOutput, if_pos rfl, found]
  rfl

theorem node?_add_self (g : Graph) (node : Node) :
    (g.add node).2.node? g.size = some { node.detach with id := g.size } := by
  rw [node?_add, if_pos rfl]

/-- The nodes that are there already stay as they are when one is added. -/
theorem node?_add_of_ne {g : Graph} {id : NodeId} (old : id ≠ g.size) (node : Node) :
    (g.add node).2.node? id = g.node? id := by
  rw [node?_add, if_neg old]

theorem input?_add_self (g : Graph) (node : Node) (port : PortId) :
    (g.add node).2.input? ⟨g.size, port⟩ = node.inputs[port]?.map Input.unlink := by
  rw [input?, node?_add_self, Option.bind_some]
  exact Array.getElem?_map

theorem input?_add_of_ne {g : Graph} {addr : InputAddr} (old : addr.node ≠ g.size) (node : Node) :
    (g.add node).2.input? addr = g.input? addr := by
  rw [input?, input?, node?_add_of_ne old]

theorem output?_add_of_ne {g : Graph} {addr : OutputAddr} (old : addr.node ≠ g.size)
    (node : Node) : (g.add node).2.output? addr = g.output? addr := by
  rw [output?, output?, node?_add_of_ne old]

theorem outputValue_add_of_ne {g : Graph} {addr : OutputAddr} (old : addr.node ≠ g.size)
    (node : Node) : (g.add node).2.outputValue addr = g.outputValue addr := by
  rw [outputValue_eq, outputValue_eq, output?_add_of_ne old]

theorem outputValue_of_none {g : Graph} {addr : OutputAddr} (absent : g.output? addr = none) :
    g.outputValue addr = .empty := by
  rw [outputValue_eq, absent]
  rfl

end Graph

end NodeGraph
