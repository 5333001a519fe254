import NodeGraph.Proofs.Graph.Upstream

/-!
# Reads that a write does not concern

A step that sets a local variable writes an output too, and it does both after it has read its
inputs. Where nothing that it read depends on that output or on that variable (`Graph.SetsApart`),
what it read is worth the same afterwards (`Graph.SetsApart.naiveInput_eq`).
-/

namespace NodeGraph.Graph

variable {g h : Graph} {id reader : NodeId}

/-- A read of the inputs of the first node may compute the second. -/
def PulledFor (g : Graph) (id a : NodeId) : Prop :=
  ∃ port source, g.source? ⟨id, port⟩ = some source ∧ g.Upstream a source.node

theorem pulledFor_congr (same : g.frame = h.frame) (id a : NodeId) :
    g.PulledFor id a ↔ h.PulledFor id a := by
  simp only [PulledFor, source?_eq_of_frame_eq same, upstream_congr same]

theorem PulledFor.isSome_pureKind? (pulled : g.PulledFor id reader) :
    (g.pureKind? reader).isSome := by
  obtain ⟨_, _, _, up⟩ := pulled
  exact up.1

/-- The pure sources of what is computed for a node are computed for it too. -/
theorem pulledFor_source (reads : reader = id ∨ g.PulledFor id reader) {port : PortId}
    {source : OutputAddr} (link : g.source? ⟨reader, port⟩ = some source)
    (pure : (g.pureKind? source.node).isSome) : g.PulledFor id source.node := by
  rcases reads with rfl | pulled
  · exact ⟨port, source, link, upstream_self pure⟩
  · obtain ⟨above, isAbove⟩ := Option.isSome_iff_exists.mp pure
    obtain ⟨below, isBelow⟩ := Option.isSome_iff_exists.mp pulled.isSome_pureKind?
    obtain ⟨first, top, entered, up⟩ := pulled
    exact ⟨first, top, entered, pure, up.2.head (feeds_of_source link isAbove isBelow)⟩

/-- The text that an input without a link always gives. -/
def fixedText? (g : Graph) (addr : InputAddr) : Option String :=
  match g.input? addr with
  | some input => if input.source.isNone then some input.literal.display else none
  | none => none

theorem fixedText?_eq_of_frame_eq (same : g.frame = h.frame) (addr : InputAddr) :
    g.fixedText? addr = h.fixedText? addr := by
  have inputs := map_input?_eq_of_frame_eq same addr
  unfold fixedText?
  cases found : g.input? addr with
  | none =>
    rw [found, Option.map_none, eq_comm, Option.map_eq_none_iff] at inputs
    rw [inputs]
  | some input =>
    rw [found, Option.map_some, eq_comm] at inputs
    obtain ⟨input', found', equal⟩ := Option.map_eq_some_iff.mp inputs
    have source := congrArg Input.source equal
    have literal := congrArg Input.literal equal
    change input'.source = input.source at source
    change input'.literal = input.literal at literal
    rw [found']
    simp only [source, literal]

theorem inputUsing_of_fixedText? {value : NodeId → PureKind → Value} {addr : InputAddr}
    {text : String} (fixed : g.fixedText? addr = some text) :
    (g.inputUsing value addr).display = text := by
  unfold fixedText? at fixed
  cases found : g.input? addr with
  | none => simp [found] at fixed
  | some input =>
    cases linked : input.source with
    | some source => simp [found, linked] at fixed
    | none =>
      rw [inputUsing_of_unlinked found linked]
      simpa [found, linked] using fixed

/-- When the node sets a local variable, nothing that it reads for that depends on the output that
it writes or on the variable: no link leads from that output to its inputs or to what it pulls, and
what it pulls looks up other variables only. -/
structure SetsApart (g : Graph) (id : NodeId) : Prop where
  stored : ∀ reader port, reader = id ∨ g.PulledFor id reader →
    g.source? ⟨reader, port⟩ ≠ some ⟨id, Layout.SetLocal.stored⟩
  named : ∀ reader, g.PulledFor id reader → g.pureKind? reader = some .getLocal →
    ∃ looked set, g.fixedText? ⟨reader, Layout.GetLocal.key⟩ = some looked ∧
      g.fixedText? ⟨id, Layout.SetLocal.key⟩ = some set ∧ looked ≠ set

theorem SetsApart.of_frame_eq (same : g.frame = h.frame) (apart : g.SetsApart id) :
    h.SetsApart id where
  stored reader port reads := by
    rw [← source?_eq_of_frame_eq same]
    rw [← pulledFor_congr same] at reads
    exact apart.stored reader port reads
  named reader pulled looks := by
    rw [← fixedText?_eq_of_frame_eq same, ← fixedText?_eq_of_frame_eq same]
    rw [← pulledFor_congr same] at pulled
    rw [← pureKind?_eq_of_frame_eq same] at looks
    exact apart.named reader pulled looks

/-- A check of the inputs alone that suffices: no link leads from the output to the node or to a
pure node, and every lookup is of another variable. -/
theorem setsApart_of_all
    (stored : ∀ reader < g.size, reader = id ∨ (g.pureKind? reader).isSome →
      ((g.node? reader).all fun node =>
        node.inputs.all (·.source != some ⟨id, Layout.SetLocal.stored⟩)) = true)
    (named : ∀ reader < g.size, g.pureKind? reader = some .getLocal →
      (g.fixedText? ⟨reader, Layout.GetLocal.key⟩).isSome ∧
        (g.fixedText? ⟨id, Layout.SetLocal.key⟩).isSome ∧
        g.fixedText? ⟨reader, Layout.GetLocal.key⟩ ≠ g.fixedText? ⟨id, Layout.SetLocal.key⟩) :
    g.SetsApart id where
  stored reader port reads link := by
    obtain ⟨input, found, linked⟩ := source?_eq_some_iff.mp link
    obtain ⟨node, place, there⟩ := input?_eq_some_iff.mp found
    have unlinked := stored reader (lt_size_of_node? place)
      (reads.imp_right PulledFor.isSome_pureKind?)
    rw [show g.node? reader = some node from place, Option.all_some, Array.all_eq_true] at unlinked
    obtain ⟨below, equal⟩ := Array.getElem?_eq_some_iff.mp there
    have different := unlinked port below
    change (node.inputs[port].source != _) = true at different
    rw [show node.inputs[port] = input from equal, linked] at different
    simp at different
  named reader pulled looks := by
    obtain ⟨read, set, different⟩ := named reader (lt_size_of_pureKind? looks) looks
    obtain ⟨looked, fixed⟩ := Option.isSome_iff_exists.mp read
    obtain ⟨text, fixed'⟩ := Option.isSome_iff_exists.mp set
    rw [fixed, fixed'] at different
    exact ⟨looked, text, fixed, fixed', fun equal => different (congrArg some equal)⟩

theorem outputValue_modifyOutput_of_ne {addr other : OutputAddr} (different : addr ≠ other)
    (f : Output → Output) : (g.modifyOutput addr f).outputValue other = g.outputValue other := by
  rw [outputValue_eq, output?_modifyOutput, if_neg different, outputValue_eq]

theorem pureKind?_modifyOutput (g : Graph) (addr : OutputAddr) (f : Output → Output)
    (id : NodeId) : (g.modifyOutput addr f).pureKind? id = g.pureKind? id := by
  rw [pureKind?, modifyOutput, node?_modifyNode]
  split
  · rw [Option.bind_map]
    rfl
  · rfl

section Written

variable {locals : Locals} {name : String} {value : Value} (apart : g.SetsApart id)
  (set : ∀ text, g.fixedText? ⟨id, Layout.SetLocal.key⟩ = some text → text = name)

/-- The graph after the node has stored a value. -/
abbrev withStored (g : Graph) (id : NodeId) (value : Value) : Graph :=
  g.modifyOutput ⟨id, Layout.SetLocal.stored⟩ fun output => { output with value }

include apart in
/-- Inputs that take pure nodes for the same are worth the same after the write. -/
theorem SetsApart.inputUsing_eq (reads : reader = id ∨ g.PulledFor id reader)
    {before after : NodeId → PureKind → Value} (same : ∀ a kind, g.PulledFor id a →
      g.pureKind? a = some kind → after a kind = before a kind) (port : PortId) :
    (g.withStored id value).inputUsing after ⟨reader, port⟩ =
      g.inputUsing before ⟨reader, port⟩ := by
  have there : (g.withStored id value).input? ⟨reader, port⟩ = g.input? ⟨reader, port⟩ :=
    input?_modifyOutput _ _ _ _
  cases found : g.input? ⟨reader, port⟩ with
  | none => simp [inputUsing, there, found]
  | some input =>
    rw [found] at there
    cases linked : input.source with
    | none => rw [inputUsing_of_unlinked there linked, inputUsing_of_unlinked found linked]
    | some source =>
      have link := source?_eq_some_iff.mpr ⟨input, found, linked⟩
      have kinds := pureKind?_modifyOutput g ⟨id, Layout.SetLocal.stored⟩
        (fun output => { output with value }) source.node
      rw [inputUsing_of_linked there linked, inputUsing_of_linked found linked]
      cases pure : g.pureKind? source.node with
      | some kind =>
        have pulled := pulledFor_source reads link (by rw [pure, Option.isSome_some])
        rw [outputUsing_of_pure pure, outputUsing_of_pure (kinds.trans pure)]
        exact same source.node kind pulled pure
      | none =>
        have other : ⟨id, Layout.SetLocal.stored⟩ ≠ source := by
          rintro rfl
          exact apart.stored reader port reads link
        rw [outputUsing_of_impure pure, outputUsing_of_impure (kinds.trans pure)]
        exact outputValue_modifyOutput_of_ne other _

include apart set

theorem SetsApart.valueWithin_eq (depth : Nat) {kind : PureKind}
    (pulled : g.PulledFor id reader) (pure : g.pureKind? reader = some kind) :
    (g.withStored id value).valueWithin (locals.set name value) depth reader kind =
      g.valueWithin locals depth reader kind := by
  induction depth generalizing reader kind with
  | zero => rfl
  | succ depth ih =>
    have operands (port : PortId) : (g.withStored id value).inputUsing
        ((g.withStored id value).valueWithin (locals.set name value) depth) ⟨reader, port⟩ =
          g.inputUsing (g.valueWithin locals depth) ⟨reader, port⟩ :=
      apart.inputUsing_eq (.inr pulled) (fun a kind pulled pure => ih pulled pure) port
    unfold valueWithin
    cases kind with
    | binary op =>
      rw [PureKind.value, PureKind.value, operands, operands]
    | getLocal =>
      obtain ⟨looked, text, reads, sets, different⟩ := apart.named reader pulled pure
      obtain rfl := set text sets
      rw [PureKind.value, PureKind.value, operands, inputUsing_of_fixedText? reads, Locals.get,
        Locals.get?_set, if_neg different, Locals.get]

/-- What the step has pulled is worth the same after it has set the variable. -/
theorem SetsApart.naiveNode_eq {kind : PureKind} (pulled : g.PulledFor id reader)
    (pure : g.pureKind? reader = some kind) :
    (g.withStored id value).naiveNode (locals.set name value) reader kind =
      g.naiveNode locals reader kind := by
  have size : (g.withStored id value).size = g.size := size_modifyNode _ _ _
  rw [naiveNode, size, naiveNode]
  exact apart.valueWithin_eq set g.size pulled pure

theorem SetsApart.naiveInput_eq (reads : reader = id ∨ g.PulledFor id reader) (port : PortId) :
    (g.withStored id value).naiveInput (locals.set name value) ⟨reader, port⟩ =
      g.naiveInput locals ⟨reader, port⟩ :=
  apart.inputUsing_eq reads (fun _ _ pulled pure => apart.naiveNode_eq set pulled pure) port

end Written

end NodeGraph.Graph
