import NodeGraph.Proofs.Session.Correspondence
import NodeGraph.Proofs.Session.Isolation

/-!
# Copies of nodes

A node that is copied into a graph brings along its kind, its title and its literals, and the values
that its outputs hold. Nothing else of its past is ever seen: the graph goes on as if a new node had
been added that holds these values (`Session.Reachable.node_copies`). So a copy starts afresh if
the outputs of the node hold nothing. If they do hold values, the copy passes on values that nothing
in its own graph has computed (`Session.copies_keep_values`).
-/

namespace NodeGraph

/-- A new node of the same kind, with the same title and literals. -/
def Node.anew (n : Node) : Node :=
  let made := ofKind n.kind
  { made with
    title := n.title
    inputs := made.inputs.zipWith (fun made input => { made with literal := input.literal })
      n.inputs }

/-- A new node of the same kind, with the same title and literals, whose outputs hold the same
values. -/
def Node.anewHolding (n : Node) : Node :=
  { n.anew with
    outputs := n.anew.outputs.zipWith (fun made output => { made with value := output.value })
      n.outputs }

namespace Node

variable {n : Node}

theorem LaidOut.input?_eq (laid : n.LaidOut) (port : Nat) :
    n.inputs[port]?.map (fun i => (i.name, i.type)) =
      n.kind.metadata.inputs[port]?.map fun spec => (spec.name, spec.type) := by
  have ports := congrArg (·[port]?) laid.inputs
  simpa using ports

theorem LaidOut.output?_eq (laid : n.LaidOut) (port : Nat) :
    n.outputs[port]?.map (fun o => (o.name, o.type)) =
      n.kind.metadata.outputs[port]?.map fun spec => (spec.name, spec.type) := by
  have ports := congrArg (·[port]?) laid.outputs
  simpa using ports

/-- Without its link and with nothing current, an input is known by its name, type and literal. -/
theorem LaidOut.unlinked_anew (laid : n.LaidOut) :
    n.anewHolding.inputs.map (fun i => i.unlink.live) = n.inputs.map fun i => i.unlink.live := by
  apply Array.ext_getElem?
  intro port
  have ports := laid.input?_eq port
  simp only [anewHolding, anew, ofKind, Array.getElem?_map, Array.getElem?_zipWith,
    List.getElem?_toArray, List.getElem?_map]
  generalize n.inputs[port]? = input at ports ⊢
  generalize n.kind.metadata.inputs[port]? = spec at ports ⊢
  cases input with
  | none => cases spec <;> rfl
  | some input =>
    cases spec with
    | none => cases ports
    | some spec =>
      obtain ⟨name, type⟩ := Prod.mk.inj (Option.some.inj ports)
      simp [Input.unlink, Input.live, name, type]

theorem LaidOut.unaimed_anew (laid : n.LaidOut) :
    n.anewHolding.outputs.map (fun o => { o with targets := #[] }) =
      n.outputs.map fun o => { o with targets := #[] } := by
  apply Array.ext_getElem?
  intro port
  have ports := laid.output?_eq port
  simp only [anewHolding, anew, ofKind, Array.getElem?_map, Array.getElem?_zipWith,
    List.getElem?_toArray, List.getElem?_map]
  generalize n.outputs[port]? = output at ports ⊢
  generalize n.kind.metadata.outputs[port]? = spec at ports ⊢
  cases output with
  | none => cases spec <;> rfl
  | some output =>
    cases spec with
    | none => cases ports
    | some spec =>
      obtain ⟨name, type⟩ := Prod.mk.inj (Option.some.inj ports)
      simp [name, type]

/-- What is added of nodes with the same live part has the same live part. -/
theorem live_detach_congr {n' : Node} (same : n'.live = n.live) (id : NodeId) :
    { n'.detach with id }.live = { n.detach with id }.live := by
  have dropped : Blind fun n => { n.detach with id } := by
    intro n
    simp only [live, detach, Array.map_map]
    rfl
  exact dropped.congr same

/-- What is added of a node is what is added of a new one with the same values. -/
theorem LaidOut.live_anewHolding (laid : n.LaidOut) (id : NodeId) :
    { n.anewHolding.detach with id }.live = { n.detach with id }.live := by
  have inputs := laid.unlinked_anew
  have outputs := laid.unaimed_anew
  simp only [live, Node.detach, Array.map_map, Function.comp_def, inputs, outputs]
  rfl

/-- Where the outputs of the node hold nothing, those of the new one have nothing to hold. -/
theorem LaidOut.anewHolding_eq (laid : n.LaidOut)
    (void : ∀ output ∈ n.outputs, output.value = .empty) : n.anewHolding = n.anew := by
  have outputs : n.anewHolding.outputs = n.anew.outputs := by
    apply Array.ext_getElem?
    intro port
    have ports := laid.output?_eq port
    simp only [anewHolding, anew, ofKind, Array.getElem?_zipWith, List.getElem?_toArray,
      List.getElem?_map]
    cases found : n.outputs[port]? with
    | none =>
      rw [found, Option.map_none, eq_comm, Option.map_eq_none_iff] at ports
      rw [ports]
      rfl
    | some output =>
      rw [found, Option.map_some, eq_comm] at ports
      obtain ⟨spec, there, _⟩ := Option.map_eq_some_iff.mp ports
      rw [there]
      simp [void output (Array.mem_of_getElem? found)]
  exact congrArg (fun outputs => { n.anew with outputs }) outputs

end Node

/-- Graphs with the same live part, and contexts with the same identities. -/
abbrev Engine.LiveAlike : Engine → Engine → Prop :=
  Engine.Corresponds (fun g g' => g'.live = g.live) Eq

/-- Graphs with the same live part. -/
abbrev Sheet.LiveAlike : Sheet → Sheet → Prop :=
  Sheet.Corresponds (fun g g' => g'.live = g.live) Eq

theorem Sheet.LiveAlike.refl (sheet : Sheet) : sheet.LiveAlike sheet :=
  Sheet.Corresponds.refl (G := fun g g' => g'.live = g.live) (fun _ => rfl) (fun _ => rfl) sheet

/-- Graphs with the same live part, and everything else the same. The nodes that are added may
differ in what is dropped when they are added. -/
abbrev liveLikeness : Likeness :=
  corresponding (fun n n' => n'.live = n.live)
    (fun n n' => ∀ id, { n'.detach with id }.live = { n.detach with id }.live)
    (fun g g' => g'.live = g.live) Eq fun _ => True

theorem liveLikeness_laws : liveLikeness.Lawful :=
  corresponding.laws Graph.live_correspondence pairing_eq (fun _ _ => rfl)
    fun graphs nodes => Graph.live_add graphs (nodes _)

namespace Session

/-- The same graphs, but for what is not live, and the same contexts. -/
abbrev LiveAlike : Session → Session → Prop := Alongside fun _ => Sheet.LiveAlike

/-- Graphs and contexts that are put back on both sides keep sessions alike. -/
theorem liveAlike_pair : SessionPair (fun _ => liveLikeness) LiveAlike where
  sheet index :=
    { laws := liveLikeness_laws
      sheet? := fun h => h.sheets index
      setSheet := fun h sheets => h.setSheet sheets
      extra? := fun h _ => h.extra? _
      setExtra := fun h _ contexts => h.setExtra contexts }
  sheetCount h := h.sheetCount
  next h := h.next
  identities _ _ := rfl
  copied same id := Node.live_detach_congr same id
  opened _ _ _ _ := ⟨rfl, ⟨rfl, rfl, rfl⟩, .none, rfl⟩
  empty _ := rfl
  behind _ sheets := sheets
  push h sheets := h.push sheets
  addContext h := h.addContext

/-- Outcomes that tell nothing of what is not live. -/
abbrev OutcomesLiveAlike : Outcome → Outcome → Prop :=
  ResultsAgree (Both (AnswersCorrespond (fun n n' => n'.live = n.live) Eq) LiveAlike)

/-- Whatever the command, it goes on alike on both sides. -/
theorem LiveAlike.perform {s s' : Session} (h : s.LiveAlike s') (valid : s.Holds Engine.Valid)
    (limit index : Nat) (command : Command) :
    OutcomesLiveAlike (s.perform limit index command) (s'.perform limit index command) := by
  rw [← s'.perform_mapConfig_id]
  exact liveAlike_pair.perform h limit ⟨fun _ _ => trivial, fun _ _ => trivial⟩
    fun m m' there _ _ => valid.engine? there

theorem LiveAlike.refl (s : Session) : s.LiveAlike s := by
  refine ⟨fun index => ?_, rfl, rfl, rfl⟩
  cases s.sheets[index]? with
  | none => exact .none
  | some sheet => exact .some (.refl sheet)

/-- The outcomes of orders that are carried out one after the other. -/
def outcomes (s : Session) (orders : List Order) : List Outcome :=
  (s.history orders).map Prod.snd

theorem LiveAlike.after {s s' : Session} (h : s.LiveAlike s') {order order' : Order}
    (outcomes : OutcomesLiveAlike (s.perform order.limit order.index order.command)
      (s'.perform order'.limit order'.index order'.command)) :
    (s.after order).LiveAlike (s'.after order') := by
  unfold Session.after
  generalize s.perform order.limit order.index order.command = result at outcomes ⊢
  generalize s'.perform order'.limit order'.index order'.command = result' at outcomes ⊢
  cases outcomes with
  | refused refusal => exact h
  | done answered => exact answered.2

theorem LiveAlike.outcomes {s s' : Session} (h : s.LiveAlike s') (valid : s.Holds Engine.Valid)
    {orders : List Order} (laid : ∀ order ∈ orders, order.command.LaidOut) :
    List.Forall₂ OutcomesLiveAlike (s.outcomes orders) (s'.outcomes orders) := by
  induction orders generalizing s s' with
  | nil => exact .nil
  | cons order rest ih =>
    have same := h.perform valid order.limit order.index order.command
    have validAfter := valid_after valid (laid order List.mem_cons_self)
    exact .cons same (ih (h.after same) validAfter
      fun other member => laid other (List.mem_cons_of_mem order member))

/-- Nodes that differ in what is dropped when they are added are added alike. -/
theorem adds_alike (s : Session) (limit target : Nat) {n n' : Node}
    (nodes : ∀ id, { n'.detach with id }.live = { n.detach with id }.live) :
    OutcomesLiveAlike (s.perform limit target (.add n)) (s.perform limit target (.add n')) := by
  have pair := liveAlike_pair.sheet target
  dsimp only [Session.perform]
  refine pair.change (pair.laws.answers.same (.add n)) (LiveAlike.refl s) fun sheets => .done ?_
  obtain ⟨ids, added⟩ := sheets.add pair.laws nodes
  exact ⟨.of_eq (congrArg (fun id => Except.ok (Reply.index id)) ids), added⟩

/-- A copy is added like the node that it is a copy of. -/
theorem copyNode_eq {s : Session} {source : Nat} {sheet : Sheet} {id : NodeId} {n : Node}
    (found : s.sheets[source]? = some sheet) (has : sheet.graph.node? id = some n)
    (limit target : Nat) :
    s.perform limit source (.copyNode id target) = s.perform limit target (.add n) := by
  dsimp only [perform]
  rw [copyNode, change, found]
  cases s.sheets[target]? with
  | none => rfl
  | some other =>
    dsimp only
    rw [Graph.node_eq_ok_iff.mpr has]

/-- The nodes of a graph are laid out as their kinds say. -/
theorem Reachable.node_laidOut {s : Session} (reachable : s.Reachable) {source : Nat}
    {sheet : Sheet} (found : s.sheets[source]? = some sheet) {id : NodeId} {n : Node}
    (has : sheet.graph.node? id = some n) : n.LaidOut :=
  (((reachable.holds valid_invariant) source sheet found).wellFormed valid_invariant).laidOut has

/-- A node that is added to a graph, whatever graph it comes from and whatever was done there, goes
on like a new one of its kind with its title, its literals and the values that its outputs hold; if
these hold nothing, like a new one with its title and literals. Every later order is answered alike,
and the graphs differ only in values that are not read again and in the counts of runs of their
nodes. -/
theorem Reachable.node_copies {s : Session} (reachable : s.Reachable) {n : Node} (made : n.LaidOut)
    (limit target : Nat) {orders : List Order}
    (laid : ∀ order ∈ orders, order.command.LaidOut) :
    let adding (n : Node) := s.outcomes (⟨limit, target, .add n⟩ :: orders)
    List.Forall₂ OutcomesLiveAlike (adding n) (adding n.anewHolding) ∧
      ((∀ output ∈ n.outputs, output.value = .empty) →
        List.Forall₂ OutcomesLiveAlike (adding n) (adding n.anew)) ∧
      ∀ source sheet id, s.sheets[source]? = some sheet → sheet.graph.node? id = some n →
        s.outcomes (⟨limit, source, .copyNode id target⟩ :: orders) = adding n := by
  intro adding
  have valid := reachable.holds valid_invariant
  have holding : List.Forall₂ OutcomesLiveAlike (adding n) (adding n.anewHolding) := by
    have same := adds_alike s limit target made.live_anewHolding
    have validAfter : (s.after ⟨limit, target, .add n⟩).Holds Engine.Valid := by
      refine valid_after valid ?_
      rintro added ⟨⟩
      exact made
    exact .cons same (((LiveAlike.refl s).after same).outcomes validAfter laid)
  refine ⟨holding, fun void => ?_, fun source sheet id found has => ?_⟩
  · rw [← made.anewHolding_eq void]
    exact holding
  · have same := copyNode_eq found has limit target
    simp only [adding, outcomes, history, after, same, List.map_cons]

/-- A value can be seen to be none. -/
instance (value : Value) : Decidable (value = .empty) :=
  match value with
  | .empty => isTrue rfl
  | .bool _ | .int _ | .float _ | .text _ => isFalse nofun

/-- A node has stored a value that it was given, and a node whose outputs hold nothing has run. -/
def hoarding : Session :=
  script 5 [.openSheet .engine {}, .add (Node.setLocal "x" (.int 5)),
    .add (Node.ofKind (.action .print)), .connect ⟨⟨0, 0⟩, ⟨1, 0⟩⟩, .execute 0 none] {}

def hoard : Sheet := hoarding.sheets[0]?.get (by decide +kernel)

def storing : Node := (hoard.graph.node? 0).get (by decide +kernel)

def printing : Node := (hoard.graph.node? 1).get (by decide +kernel)

/-- Both nodes go on like new ones, the storing node with the value that it has stored. -/
theorem node_copies_hoarding :
    let orders : List Order := [⟨5, 0, .outputValue ⟨2, 1⟩⟩, ⟨5, 0, .execute 2 none⟩]
    hoarding.Reachable ∧ storing.LaidOut ∧ printing.LaidOut ∧
      (∀ order ∈ orders, order.command.LaidOut) ∧
      List.Forall₂ OutcomesLiveAlike (hoarding.outcomes (⟨5, 0, .copyNode 0 0⟩ :: orders))
        (hoarding.outcomes (⟨5, 0, .add storing.anewHolding⟩ :: orders)) ∧
      List.Forall₂ OutcomesLiveAlike (hoarding.outcomes (⟨5, 0, .copyNode 1 0⟩ :: orders))
        (hoarding.outcomes (⟨5, 0, .add printing.anew⟩ :: orders)) := by
  intro orders
  have reachable : hoarding.Reachable := Reachable.empty.script 5 (by decide +kernel)
  have found : hoarding.sheets[0]? = some hoard := Option.eq_some_of_isSome _
  have stored : hoard.graph.node? 0 = some storing := Option.eq_some_of_isSome _
  have printed : hoard.graph.node? 1 = some printing := Option.eq_some_of_isSome _
  have storingLaid := reachable.node_laidOut found stored
  have printingLaid := reachable.node_laidOut found printed
  have laid : ∀ order ∈ orders, order.command.LaidOut := by decide +kernel
  obtain ⟨holding, -, copied⟩ := Reachable.node_copies reachable storingLaid 5 0 laid
  obtain ⟨-, anew, copied'⟩ := Reachable.node_copies reachable printingLaid 5 0 laid
  rw [copied 0 hoard 0 found stored, copied' 0 hoard 1 found printed]
  exact ⟨reachable, storingLaid, printingLaid, laid, holding, anew (by decide +kernel)⟩

/-- The values that outcomes show are the same if the outcomes tell nothing of what is not live. -/
theorem filterMap_displayed_eq {shown shown' : List (Order × Outcome)}
    (h : List.Forall₂ OutcomesLiveAlike (shown.map Prod.snd) (shown'.map Prod.snd)) :
    shown.filterMap displayed = shown'.filterMap displayed := by
  rw [List.forall₂_map_left_iff, List.forall₂_map_right_iff] at h
  induction h with
  | nil => rfl
  | @cons a b _ _ alike _ ih =>
    obtain ⟨order, outcome⟩ := a
    obtain ⟨order', outcome'⟩ := b
    have same : displayed (order, outcome) = displayed (order', outcome') := by
      cases alike with
      | refused refusal => rfl
      | @done r r' both =>
        obtain ⟨answer, t⟩ := r
        obtain ⟨answer', t'⟩ := r'
        obtain ⟨answers, -⟩ := both
        cases answers with
        | refused fault => rfl
        | @done reply reply' replies =>
          cases replies with
          | same => cases reply <;> rfl
          | node | nodes | context => rfl
    rw [List.filterMap_cons, List.filterMap_cons, same, ih]

/-- The copy of the storing node holds a value, and a new node of its kind with its title and its
literals holds none. -/
theorem copies_keep_values :
    let reads : List Order := [⟨5, 0, .outputValue ⟨2, 1⟩⟩]
    let copied := hoarding.history (⟨5, 0, .copyNode 0 0⟩ :: reads)
    let anew := hoarding.history (⟨5, 0, .add storing.anew⟩ :: reads)
    hoarding.Reachable ∧ hoarding.sheets[0]? = some hoard ∧ hoard.graph.node? 0 = some storing ∧
      copied.filterMap displayed = ["5"] ∧ anew.filterMap displayed = [""] ∧
      ¬ List.Forall₂ OutcomesLiveAlike (copied.map Prod.snd) (anew.map Prod.snd) := by
  intro reads copied anew
  have reachable : hoarding.Reachable := Reachable.empty.script 5 (by decide +kernel)
  have five : copied.filterMap displayed = ["5"] := by decide +kernel
  have none : anew.filterMap displayed = [""] := by decide +kernel
  refine ⟨reachable, Option.eq_some_of_isSome _, Option.eq_some_of_isSome _, five, none, ?_⟩
  intro alike
  have same := filterMap_displayed_eq alike
  rw [five, none] at same
  exact absurd same (by decide)

end Session

end NodeGraph
