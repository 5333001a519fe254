import NodeGraph.Proofs.Agreement
import NodeGraph.Proofs.Engine.Abreast
import NodeGraph.Proofs.Engine.Valid

/-!
# Engines that differ for one context

In two runs that differ in the local variables of one context, the hidden one, reads for it leave
different values in the graph. All else stays alike: what is current is equal unless the epoch
serves the hidden context (`Engine.Alike`). Every operation keeps this, and reads for any other
context give equal values (`Engine.Alike.getValue`, `Engine.Alike.pullOutput`).
-/

namespace NodeGraph

namespace Engine

namespace Aligned

variable {e e' : Engine}

theorem size (h : Aligned e e') : e'.graph.size = e.graph.size :=
  Graph.size_eq_of_frame_eq h.frame

theorem serves (h : Aligned e e') : e'.serves = e.serves := by rw [h.rest]

theorem withGraph (h : Aligned e e') {g g' : Graph} (same : g'.blank = g.blank) :
    Aligned { e with graph := g } { e' with graph := g' } := by
  obtain ⟨_, rfl, _⟩ := h.exists_eq
  exact ⟨rfl, same⟩

theorem invalidate (h : Aligned e e') : Aligned e.invalidate e'.invalidate := by
  have sizes := h.size
  obtain ⟨g, rfl, same⟩ := h.exists_eq
  have stale : Aligned { e with graph := e.graph.invalidate, serves := none }
      { e with graph := g.invalidate, serves := none } := by
    refine ⟨rfl, ?_⟩
    rw [Graph.blank_invalidate, Graph.blank_invalidate, same]
  have counted := stale.count Statistics.invalidation
  unfold Engine.invalidate
  dsimp only at sizes ⊢
  rw [counted.size, counted.epoch]
  exact counted.log _

theorem openEpoch (h : Aligned e e') : Aligned e.openEpoch e'.openEpoch := by
  obtain ⟨g, rfl, same⟩ := h.exists_eq
  unfold Engine.openEpoch
  dsimp only
  generalize e.epoch.advance e.lastEpoch = advanced
  obtain ⟨kind, epoch⟩ := advanced
  cases kind with
  | stepped => exact ⟨rfl, same⟩
  | wrapped =>
    have placed : Aligned { e with epoch } { e with epoch, graph := g } := ⟨rfl, same⟩
    exact ((placed.log _).count _).invalidate

theorem serve (h : Aligned e e') (context : Nat) :
    Aligned (e.serve context) (e'.serve context) := by
  have logged := h.log (.contextChanged e.epoch.number)
  have opened := logged.openEpoch
  have epochs := h.epoch
  unfold Engine.serve
  rw [h.serves]
  cases e.serves with
  | none =>
    obtain ⟨g, rfl, same⟩ := h.exists_eq
    exact ⟨rfl, same⟩
  | some other =>
    dsimp only
    split
    · exact h
    · rw [epochs]
      obtain ⟨g, equal, same⟩ := opened.exists_eq
      rw [equal]
      exact ⟨rfl, same⟩

theorem addNode (h : Aligned e e') {node node' : Node} (same : node'.blank = node.blank) :
    Aligned (e.addNode node).2 (e'.addNode node').2 :=
  h.withGraph (Graph.blank_add_congr h.blank same)

end Aligned

/-- A node is added with nothing current. -/
theorem Matching.addNode {N : NodeId → Value → Value → Prop} {I : InputAddr → Value → Value → Prop}
    {e e' : Engine} (h : Matching N I e e') (sizes : e'.graph.size = e.graph.size)
    (node node' : Node) : Matching N I (e.addNode node).2 (e'.addNode node').2 := by
  have stale := Node.stamps_detach (P := fun stamp => e.epoch.isCurrent stamp = false)
    (Epoch.isCurrent_stale _) node e.graph.size
  refine ⟨fun {id old kind} found pure current => ?_,
    fun {addr input input' source} found found' linked current => ?_⟩
  · by_cases new : id = e.graph.size
    · subst new
      obtain rfl := Option.some.inj ((e.graph.node?_add_self node).symm.trans found)
      cases stale.node.symm.trans current
    · have new' : id ≠ e'.graph.size := sizes ▸ new
      show N id ((e.graph.add node).2.outputValue _) ((e'.graph.add node').2.outputValue _)
      rw [Graph.outputValue_add_of_ne new, Graph.outputValue_add_of_ne new']
      exact h.node ((Graph.node?_add_of_ne new node).symm.trans found) pure current
  · by_cases new : addr.node = e.graph.size
    · obtain ⟨added, place, port⟩ := Graph.input?_eq_some_iff.mp found
      rw [new] at place
      obtain rfl := Option.some.inj ((e.graph.node?_add_self node).symm.trans place)
      cases (stale.input port).symm.trans current
    · have new' : addr.node ≠ e'.graph.size := sizes ▸ new
      exact h.input ((Graph.input?_add_of_ne new node).symm.trans found)
        ((Graph.input?_add_of_ne new' node').symm.trans found') linked current

/-- The values are equal, if they may be compared. -/
def SameIf {α : Type} (visible : Prop) (_ : α) (v v' : Value) : Prop := visible → v' = v

/-- Values that are taken from the graph are equal, and so is what is computed from equal ones with
equal variables. -/
theorem same_matches (g : Graph) {visible : Prop} {locals locals' : Locals}
    (same : visible → locals' = locals) :
    Matches g locals locals' (SameIf visible) (SameIf visible) where
  absent _ _ := rfl
  literal _ _ _ := rfl
  written _ _ _ := rfl
  pulled _ _ h := h
  computed _ reads seen := by
    rw [same seen]
    exact PureKind.value_congr fun port member => reads port member seen

/-- Engines of two runs that differ in the local variables of the hidden context. -/
structure Alike (hidden : Nat) (e e' : Engine) : Prop where
  aligned : Aligned e e'
  matching : Matching (SameIf (e.serves ≠ some hidden)) (SameIf (e.serves ≠ some hidden)) e e'

namespace Alike

variable {hidden : Nat} {e e' : Engine}

theorem of_fresh (aligned : Aligned e e') (fresh : e.Fresh) : Alike hidden e e' :=
  ⟨aligned, .of_fresh fresh e'⟩

/-- An engine is like itself. -/
theorem refl (hidden : Nat) (e : Engine) : Alike hidden e e := by
  refine ⟨.refl e, fun {id node kind} _ _ _ _ => rfl,
    fun {addr input input' source} found found' _ _ _ => ?_⟩
  obtain rfl : input = input' := Option.some.inj (found.symm.trans found')
  rfl

/-- An update that does not concern the graph is made on both sides. -/
theorem update (h : Alike hidden e e') {f : Engine → Engine}
    (apart : ∀ e g, f { e with graph := g } = { f e with graph := g })
    (graph : ∀ e, (f e).graph = e.graph) (epoch : (f e).epoch = e.epoch)
    (serves : (f e).serves = e.serves) : Alike hidden (f e) (f e') := by
  refine ⟨h.aligned.update apart graph, ?_⟩
  rw [serves]
  exact h.matching.of_graph_eq epoch (graph e) (graph e')

theorem withContext (h : Alike hidden e e') (context : Context) :
    Alike hidden { e with context } { e' with context } :=
  h.update (f := fun e => { e with context }) (fun _ _ => rfl) (fun _ => rfl) rfl rfl

theorem invalidate (aligned : Aligned e e') : Alike hidden e.invalidate e'.invalidate :=
  .of_fresh aligned.invalidate (fresh_invalidate e)

theorem invalidateOnce (h : Alike hidden e e') (marker : Nat) :
    (e'.invalidateOnce marker).1 = (e.invalidateOnce marker).1 ∧
      Alike hidden (e.invalidateOnce marker).2 (e'.invalidateOnce marker).2 := by
  have markers : e'.marker = e.marker := by rw [h.aligned.rest]
  unfold Engine.invalidateOnce
  rw [markers]
  split
  · exact ⟨rfl, h⟩
  · have stale : Alike hidden e.invalidate e'.invalidate := invalidate h.aligned
    exact ⟨rfl, stale.update (f := fun e => { e with marker := some marker }) (fun _ _ => rfl)
      (fun _ => rfl) rfl rfl⟩

theorem openEpoch (h : Alike hidden e e') (valid : e.Valid) :
    Alike hidden e.openEpoch e'.openEpoch :=
  .of_fresh h.aligned.openEpoch valid.openEpoch.2.1

/-- Where the epoch served another context, nothing is current any more. -/
theorem serve (h : Alike hidden e e') (valid : e.Valid) (context : Nat) :
    Alike hidden (e.serve context) (e'.serve context) := by
  by_cases serves : e.serves = some context
  · rw [serve_of_serves serves, serve_of_serves (h.aligned.serves.trans serves)]
    exact h
  · exact .of_fresh (h.aligned.serve context) (valid.fresh_serve serves)

theorem addNode (h : Alike hidden e e') {node node' : Node} (same : node'.blank = node.blank) :
    (e'.addNode node').1 = (e.addNode node).1 ∧
      Alike hidden (e.addNode node).2 (e'.addNode node').2 :=
  ⟨h.aligned.size, h.aligned.addNode same, h.matching.addNode h.aligned.size node node'⟩

/-- A change to the wiring that does not look at what pulls left. -/
theorem rewire (h : Alike hidden e e') {g g' : Graph} (same : g'.blank = g.blank) :
    Alike hidden (Engine.invalidate { e with graph := g })
      (Engine.invalidate { e' with graph := g' }) :=
  invalidate (h.aligned.withGraph same)

theorem connect (h : Alike hidden e e') (link : Link) :
    ResultsAgree (Alike hidden) (e.connect link) (e'.connect link) := by
  have same : (e'.graph.connect link).map Graph.blank = (e.graph.connect link).map Graph.blank := by
    rw [← Graph.blank_connect, ← Graph.blank_connect, h.aligned.blank]
  exact (resultsAgree_of_map_eq same).bind fun same => .done (h.rewire same)

theorem disconnect (h : Alike hidden e e') (target : InputAddr) :
    ResultsAgree (fun r r' => r'.1 = r.1 ∧ Alike hidden r.2 r'.2) (e.disconnect target)
      (e'.disconnect target) := by
  have same : (e'.graph.disconnect target).map (fun r => (r.1, r.2.blank)) =
      (e.graph.disconnect target).map fun r => (r.1, r.2.blank) := by
    rw [← Graph.blank_disconnect, ← Graph.blank_disconnect, h.aligned.blank]
  refine (resultsAgree_of_map_eq same).bind ?_
  intro r r' same
  obtain ⟨sources, graphs⟩ := Prod.mk.inj same
  exact .done ⟨sources, h.rewire graphs⟩

theorem setLiteral (h : Alike hidden e e') (addr : InputAddr) (value : Value) :
    ResultsAgree (Alike hidden) (e.setLiteral addr value) (e'.setLiteral addr value) := by
  have same : (e'.graph.setLiteral addr value).map Graph.blank =
      (e.graph.setLiteral addr value).map Graph.blank := by
    rw [← Graph.blank_setLiteral, ← Graph.blank_setLiteral, h.aligned.blank]
  exact (resultsAgree_of_map_eq same).bind fun same => .done (h.rewire same)

/-- A settled output is equal unless the epoch serves the hidden context. -/
theorem outputValue_eq (h : Alike hidden e e') (wf : e.graph.WellFormed) {addr : OutputAddr}
    (found : (e.graph.output? addr).isSome) (settled : e.Settled addr.node)
    (visible : e.serves ≠ some hidden) : e'.graph.outputValue addr = e.graph.outputValue addr := by
  cases pure : e.graph.pureKind? addr.node with
  | none => exact h.aligned.outputValue_eq pure
  | some kind =>
    obtain ⟨node, place, isPure⟩ := Graph.pureKind?_eq_some_iff.mp pure
    have port : addr.port = Layout.result := (wf.isSome_output?_iff pure).mp found
    have value := h.matching.node place isPure (settled node kind place isPure) visible
    rw [← port] at value
    exact value

/-- Engines that serve one context are side by side. -/
theorem abreast (h : Alike hidden e e') {context : Nat} (serves : e.serves = some context) :
    Abreast e.graph (SameIf (context ≠ hidden)) (SameIf (context ≠ hidden)) e e' := by
  have visible : context ≠ hidden → e.serves ≠ some hidden := by
    intro different equal
    exact different (Option.some.inj (serves.symm.trans equal))
  exact ⟨h.aligned, rfl, h.matching.mono (fun _ _ _ same seen => same (visible seen))
    fun _ _ _ same seen => same (visible seen)⟩

end Alike

theorem Abreast.alike {hidden : Nat} {visible : Prop} {g : Graph} {e e' : Engine}
    (h : Abreast g (SameIf visible) (SameIf visible) e e')
    (seen : e.serves ≠ some hidden → visible) : Alike hidden e e' :=
  ⟨h.aligned, h.matching.mono (fun _ _ _ same serves => same (seen serves))
    fun _ _ _ same serves => same (seen serves)⟩

/-- Alike engines that can be read and run. -/
structure Paired (hidden : Nat) (e e' : Engine) : Prop where
  alike : Alike hidden e e'
  valid : e.Valid
  acyclic : e.graph.Acyclic

namespace Paired

variable {hidden : Nat} {e e' : Engine} {context context' : Context}

/-- The engines while they are read for a context. -/
theorem abreast (h : Paired hidden e e') (context : Nat) :
    (e.serve context).Valid ∧ (e.serve context).graph.Acyclic ∧
      Abreast (e.serve context).graph (SameIf (context ≠ hidden)) (SameIf (context ≠ hidden))
        (e.serve context) (e'.serve context) := by
  have frame := Graph.frame_eq (erase_serve (fun _ => false) e context)
  exact ⟨h.valid.serve context, Graph.acyclic_of_frame_eq frame.symm h.acyclic,
    (h.alike.serve h.valid context).abreast (e.serves_serve context)⟩

theorem openEpoch (h : Paired hidden e e') : Paired hidden e.openEpoch e'.openEpoch where
  alike := h.alike.openEpoch h.valid
  valid := h.valid.openEpoch.1
  acyclic := Graph.acyclic_of_frame_eq (erase_openEpoch _ e).symm h.acyclic

/-- A read goes on alike, and gives the same for any context but the hidden one. -/
theorem getValue (h : Paired hidden e e') (identity : context'.id = context.id)
    (locals : context.id ≠ hidden → context'.locals = context.locals) (addr : InputAddr) :
    (context.id ≠ hidden → (e'.getValue addr context').1 = (e.getValue addr context).1) ∧
      Paired hidden (e.getValue addr context).2 (e'.getValue addr context').2 := by
  have frame := frame_getValue e addr context
  suffices (context.id ≠ hidden → (e'.getValue addr context').1 = (e.getValue addr context).1) ∧
      Alike hidden (e.getValue addr context).2 (e'.getValue addr context').2 from
    ⟨this.1, this.2, h.valid.getValue addr context,
      Graph.acyclic_of_frame_eq frame.symm h.acyclic⟩
  have faults := resultsAgree_of_map_eq
    (Graph.map_input_eq_of_frame_eq h.alike.aligned.frame addr ())
  unfold Engine.getValue
  generalize e.graph.input addr = found at faults
  generalize e'.graph.input addr = found' at faults
  cases faults with
  | refused reason => exact ⟨fun _ => rfl, h.alike⟩
  | done _ =>
    have served := e.serves_serve context.id
    rcases h.abreast context.id with ⟨valid, acyclic, side⟩
    obtain ⟨value, after⟩ := side.read acyclic valid.wellFormed (same_matches _ locals) valid.quiet
      valid.nonneg addr
    rw [identity]
    refine ⟨fun visible => congrArg Except.ok (value visible), after.alike ?_⟩
    rintro serves rfl
    exact serves ((pulled_read _ _ _).serves.trans served)

/-- A node is brought up to date alike, and is current then. -/
theorem refresh (h : Paired hidden e e')
    (locals : context.id ≠ hidden → context'.locals = context.locals) (id : NodeId) :
    Alike hidden ((e.serve context.id).refresh context.locals id)
        ((e'.serve context.id).refresh context'.locals id) ∧
      ((e.serve context.id).refresh context.locals id).Settled id := by
  rcases h.abreast context.id with ⟨valid, acyclic, side⟩
  obtain ⟨settled, after⟩ := side.refresh acyclic valid.wellFormed (same_matches _ locals)
    valid.quiet valid.nonneg id
  refine ⟨after.alike ?_, settled⟩
  rintro serves rfl
  exact serves ((pulled_refresh _ _ _).serves.trans (e.serves_serve context.id))

/-- So does a pull of an output. -/
theorem pullOutput (h : Paired hidden e e') (identity : context'.id = context.id)
    (locals : context.id ≠ hidden → context'.locals = context.locals) (addr : OutputAddr) :
    (context.id ≠ hidden → (e'.pullOutput addr context').1 = (e.pullOutput addr context).1) ∧
      Paired hidden (e.pullOutput addr context).2 (e'.pullOutput addr context').2 := by
  have frame := frame_pullOutput e addr context
  suffices (context.id ≠ hidden →
        (e'.pullOutput addr context').1 = (e.pullOutput addr context).1) ∧
      Alike hidden (e.pullOutput addr context).2 (e'.pullOutput addr context').2 from
    ⟨this.1, this.2, h.valid.pullOutput addr context,
      Graph.acyclic_of_frame_eq frame.symm h.acyclic⟩
  have faults := resultsAgree_of_map_eq
    (Graph.map_output_eq_of_frame_eq h.alike.aligned.frame addr ())
  unfold Engine.pullOutput
  rw [outputValue_eq_map, outputValue_eq_map]
  cases found : e.graph.output addr with
  | error fault =>
    rw [found] at faults
    generalize e'.graph.output addr = found' at faults
    cases faults
    exact ⟨fun _ => rfl, h.alike⟩
  | ok output =>
    rw [found] at faults
    generalize e'.graph.output addr = found' at faults
    cases faults
    rcases h.refresh locals addr.node with ⟨alike, settled⟩
    rw [identity]
    refine ⟨?_, alike⟩
    intro visible
    have pulled := pulled_refresh context.locals addr.node (e.serve context.id)
    have kept := pulled.frame.trans (erase_serve _ e context.id)
    have there : (((e.serve context.id).refresh context.locals addr.node).graph.output?
        addr).isSome := by
      rw [Graph.isSome_output?_eq_of_frame_eq kept, Graph.output_eq_ok_iff.mp found,
        Option.isSome_some]
    have wf := Graph.wellFormed_of_frame_eq kept.symm h.valid.wellFormed
    have served := pulled.serves.trans (e.serves_serve context.id)
    have value := alike.outputValue_eq wf there settled fun equal =>
      visible (Option.some.inj (served.symm.trans equal))
    dsimp only [Except.map]
    rw [outputValue_eq_map, outputValue_eq_map, value]
    exact Graph.map_output_eq_of_frame_eq alike.aligned.frame addr _

end Paired

/-- Requests that go on alike one by one do so together. -/
theorem collect_pair {α : Type} {f : α → Engine → Except Fault Value × Engine}
    {R : Engine → Engine → Prop}
    (step : ∀ a e e', R e e' → (f a e').1 = (f a e).1 ∧ R (f a e).2 (f a e').2)
    (requests : List α) {e e' : Engine} (related : R e e') :
    (collect f requests e').1 = (collect f requests e).1 ∧
      R (collect f requests e).2 (collect f requests e').2 := by
  induction requests generalizing e e' with
  | nil => exact ⟨rfl, related⟩
  | cons a rest ih =>
    rcases step a e e' related with ⟨first, after⟩
    unfold collect
    generalize f a e = result at first after ⊢
    generalize f a e' = result' at first after ⊢
    obtain ⟨answer, e₁⟩ := result
    obtain ⟨answer', e₁'⟩ := result'
    obtain rfl : answer' = answer := first
    cases answer' with
    | error fault => exact ⟨rfl, after⟩
    | ok value =>
      rcases ih after with ⟨others, last⟩
      dsimp only at others last ⊢
      generalize collect f rest e₁ = result at others last ⊢
      generalize collect f rest e₁' = result' at others last ⊢
      obtain ⟨answers, e₂⟩ := result
      obtain ⟨answers', e₂'⟩ := result'
      obtain rfl : answers' = answers := others
      cases answers' <;> exact ⟨rfl, last⟩

namespace Paired

variable {hidden : Nat} {e e' : Engine}

/-- Requests for the engine's own context, which an epoch of their own opens. -/
theorem collectOwn {α : Type} {ask : α → Engine → Except Fault Value × Engine}
    (keeps : ∀ a f, (ask a f).2.context = f.context)
    (alike : ∀ a {f f'}, Paired hidden f f' → f'.context = f.context →
      (f.context.id ≠ hidden → (ask a f').1 = (ask a f).1) ∧
        Paired hidden (ask a f).2 (ask a f').2)
    (h : Paired hidden e e') (own : e.context.id ≠ hidden) (requests : List α) :
    (collect ask requests e'.openEpoch).1 = (collect ask requests e.openEpoch).1 ∧
      Paired hidden (collect ask requests e.openEpoch).2 (collect ask requests e'.openEpoch).2 := by
  have step : ∀ a f f', (Paired hidden f f' ∧ f.context = e.context) →
      (ask a f').1 = (ask a f).1 ∧
        (Paired hidden (ask a f).2 (ask a f').2 ∧ (ask a f).2.context = e.context) := by
    rintro a f f' ⟨paired, same⟩
    have contexts : f'.context = f.context := by rw [paired.alike.aligned.rest]
    rcases alike a paired contexts with ⟨value, after⟩
    exact ⟨value (same ▸ own), after, (keeps a f).trans same⟩
  obtain ⟨values, after, _⟩ := collect_pair step requests ⟨h.openEpoch, context_openEpoch e⟩
  exact ⟨values, after⟩

theorem getValues (h : Paired hidden e e') (own : e.context.id ≠ hidden) (addrs : List InputAddr) :
    (e'.getValues addrs).1 = (e.getValues addrs).1 ∧
      Paired hidden (e.getValues addrs).2 (e'.getValues addrs).2 := by
  refine collectOwn (fun addr f => context_getValue f addr _) ?_ h own addrs
  intro addr f f' paired contexts
  exact paired.getValue (congrArg Context.id contexts)
    (fun _ => congrArg Context.locals contexts) addr

theorem pullOutputs (h : Paired hidden e e') (own : e.context.id ≠ hidden)
    (addrs : List OutputAddr) : (e'.pullOutputs addrs).1 = (e.pullOutputs addrs).1 ∧
      Paired hidden (e.pullOutputs addrs).2 (e'.pullOutputs addrs).2 := by
  refine collectOwn (fun addr f => context_pullOutput f addr _) ?_ h own addrs
  intro addr f f' paired contexts
  exact paired.pullOutput (congrArg Context.id contexts)
    (fun _ => congrArg Context.locals contexts) addr

end Paired

end Engine

end NodeGraph
