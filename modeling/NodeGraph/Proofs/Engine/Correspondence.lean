import NodeGraph.Proofs.Engine.Alike
import NodeGraph.Proofs.Graph.Live

/-!
# Corresponding engines

Two engines correspond if their graphs do, whatever the graphs have that is not live, and if their
contexts and the contexts that their epochs serve are paired, under whatever identities. Every
operation gives the same answer on both and leaves engines that correspond
(`Engine.Corresponds.getValue` and those before and after it).
-/

namespace NodeGraph

/-- A relation `G` of graphs whose nodes `N` relates, that every change keeps and that tells apart
all that is live. -/
structure Graph.Correspondence (N : Node → Node → Prop) (G : Graph → Graph → Prop) : Prop where
  live : ∀ {n n'}, N n n' → n'.live = n.live
  nodes : ∀ {g g'}, G g g' → ∀ id, Option.Rel N (g.node? id) (g'.node? id)
  modifyNode : ∀ {g g'}, G g g' → ∀ id {f}, Node.Blind f →
    G (g.modifyNode id f) (g'.modifyNode id f)
  invalidate : ∀ {g g'}, G g g' → G g.invalidate g'.invalidate
  add : ∀ {g g'}, G g g' → ∀ n, G (g.add n).2 (g'.add n).2
  connect : ∀ {g g'}, G g g' → ∀ link, ResultsAgree G (g.connect link) (g'.connect link)
  disconnect : ∀ {g g'}, G g g' → ∀ target,
    ResultsAgree (AnswersAgree True G) (g.disconnect target) (g'.disconnect target)
  setLiteral : ∀ {g g'}, G g g' → ∀ addr value,
    ResultsAgree G (g.setLiteral addr value) (g'.setLiteral addr value)
  relabel : ∀ {g g'}, G g g' → ∀ id newId title,
    ResultsAgree G (g.relabel id newId title) (g'.relabel id newId title)

theorem Graph.Correspondence.live_eq {N : Node → Node → Prop} {G : Graph → Graph → Prop}
    (shown : Graph.Correspondence N G) {g g' : Graph} (h : G g g') : g'.live = g.live := by
  refine Graph.mapNodes_eq_iff.mpr fun id => ?_
  have nodes := shown.nodes h id
  generalize g.node? id = node at nodes ⊢
  generalize g'.node? id = node' at nodes ⊢
  cases nodes with
  | none => rfl
  | some same => exact congrArg some (shown.live same)

/-- Graphs with the same live part. -/
theorem Graph.live_correspondence :
    Graph.Correspondence (fun n n' => n'.live = n.live) fun g g' => g'.live = g.live where
  live same := same
  nodes {g g'} same id := by
    have nodes := map_node?_of_live_eq same id
    cases found : g.node? id with
    | none =>
      rw [found, Option.map_none, Option.map_eq_none_iff] at nodes
      rw [nodes]
      exact .none
    | some n =>
      rw [found, Option.map_some] at nodes
      obtain ⟨n', found', equal⟩ := Option.map_eq_some_iff.mp nodes
      rw [found']
      exact .some equal
  modifyNode same id _ blind := live_modifyNode same id blind
  invalidate same := live_invalidate same
  add same _ := live_add same rfl
  connect same link := live_connect same link
  disconnect same target :=
    (live_disconnect same target).mono fun both => ⟨fun _ => both.1, both.2⟩
  setLiteral same addr value := live_setLiteral same addr value
  relabel same id newId title := live_relabel same id newId title

/-- Graphs that are the same. -/
theorem Graph.eq_correspondence : Graph.Correspondence Eq Eq where
  live same := congrArg Node.live same.symm
  nodes {g g'} same id := by
    subst same
    cases g.node? id with
    | none => exact .none
    | some n => exact .some rfl
  modifyNode same id f _ := congrArg (Graph.modifyNode · id f) same
  invalidate same := congrArg Graph.invalidate same
  add same n := congrArg (fun g => (Graph.add g n).2) same
  connect {g g'} same link := by
    subst same
    exact .refl (fun _ => rfl) _
  disconnect {g g'} same target := by
    subst same
    exact .refl (fun _ => ⟨fun _ => rfl, rfl⟩) _
  setLiteral {g g'} same addr value := by
    subst same
    exact .refl (fun _ => rfl) _
  relabel {g g'} same id newId title := by
    subst same
    exact .refl (fun _ => rfl) _

/-- A pairing of identities that gives each one partner at most. -/
def Pairing (I : Nat → Nat → Prop) : Prop := ∀ i i' j j', I i i' → I j j' → (i = j ↔ i' = j')

theorem pairing_eq : Pairing Eq := by
  rintro i i' j j' rfl rfl
  rfl

/-- The same variables and lines, under paired identities. -/
structure Context.Corresponds (I : Nat → Nat → Prop) (c c' : Context) : Prop where
  id : I c.id c'.id
  locals : c'.locals = c.locals
  printed : c'.printed = c.printed

theorem Context.corresponds_eq_iff {c c' : Context} : c.Corresponds Eq c' ↔ c' = c := by
  constructor
  · obtain ⟨id, locals, printed⟩ := c
    obtain ⟨id', locals', printed'⟩ := c'
    rintro ⟨ids, sameLocals, samePrinted⟩
    dsimp only at ids sameLocals samePrinted
    rw [ids, sameLocals, samePrinted]
  · rintro rfl
    exact ⟨rfl, rfl, rfl⟩

namespace Engine

/-- Corresponding graphs, and contexts under paired identities; all else is the same. -/
structure Corresponds (G : Graph → Graph → Prop) (I : Nat → Nat → Prop) (e e' : Engine) :
    Prop where
  graphs : G e.graph e'.graph
  contexts : e.context.Corresponds I e'.context
  serves : Option.Rel I e.serves e'.serves
  rest : e' = { e with graph := e'.graph, context := e'.context, serves := e'.serves }

namespace Corresponds

variable {G : Graph → Graph → Prop} {I : Nat → Nat → Prop} {e e' : Engine}

theorem exists_eq (h : Corresponds G I e e') : ∃ graph context serves,
    e' = { e with graph, context, serves } ∧ G e.graph graph ∧
      e.context.Corresponds I context ∧ Option.Rel I e.serves serves :=
  ⟨_, _, _, h.rest, h.graphs, h.contexts, h.serves⟩

theorem epoch (h : Corresponds G I e e') : e'.epoch = e.epoch := by rw [h.rest]

theorem config (h : Corresponds G I e e') : e'.config = e.config := by rw [h.rest]

theorem marker (h : Corresponds G I e e') : e'.marker = e.marker := by rw [h.rest]

theorem statistics (h : Corresponds G I e e') : e'.statistics = e.statistics := by rw [h.rest]

/-- An update of what is the same on both sides. -/
theorem update (h : Corresponds G I e e') {f : Engine → Engine}
    (apart : ∀ e graph context serves,
      f { e with graph, context, serves } = { f e with graph, context, serves }) :
    Corresponds G I (f e) (f e') := by
  obtain ⟨graph, context, serves, rfl, graphs, contexts, served⟩ := h.exists_eq
  have own : f e = { f e with graph := e.graph, context := e.context, serves := e.serves } :=
    apart e e.graph e.context e.serves
  have kept : (f e).graph = e.graph ∧ (f e).context = e.context ∧ (f e).serves = e.serves := by
    rw [own]
    exact ⟨rfl, rfl, rfl⟩
  obtain ⟨graph_eq, context_eq, serves_eq⟩ := kept
  rw [apart e graph context serves]
  exact ⟨graph_eq ▸ graphs, context_eq ▸ contexts, serves_eq ▸ served, rfl⟩

theorem log (h : Corresponds G I e e') (event : Event) :
    Corresponds G I (e.log event) (e'.log event) :=
  h.update (f := fun e => e.log event) fun _ _ _ _ => rfl

theorem count (h : Corresponds G I e e') (update : Statistics → Statistics) :
    Corresponds G I (e.count update) (e'.count update) := by
  refine h.update (f := fun e => e.count update) ?_
  intro e graph context serves
  unfold Engine.count
  dsimp only
  split <;> rfl

theorem withGraph (h : Corresponds G I e e') {g g' : Graph} (graphs : G g g') :
    Corresponds G I { e with graph := g } { e' with graph := g' } := by
  obtain ⟨_, _, _, rfl, _, contexts, served⟩ := h.exists_eq
  exact ⟨graphs, contexts, served, rfl⟩

theorem withContext (h : Corresponds G I e e') {c c' : Context} (contexts : c.Corresponds I c') :
    Corresponds G I { e with context := c } { e' with context := c' } := by
  obtain ⟨_, _, _, rfl, graphs, _, served⟩ := h.exists_eq
  exact ⟨graphs, contexts, served, rfl⟩

theorem withServes (h : Corresponds G I e e') {serves serves' : Option Nat}
    (served : Option.Rel I serves serves') :
    Corresponds G I { e with serves } { e' with serves := serves' } := by
  obtain ⟨_, _, _, rfl, graphs, contexts, _⟩ := h.exists_eq
  exact ⟨graphs, contexts, served, rfl⟩

section Graphs

variable {N : Node → Node → Prop} (shown : Graph.Correspondence N G)

include shown

theorem live (h : Corresponds G I e e') : e'.graph.live = e.graph.live :=
  shown.live_eq h.graphs

theorem size (h : Corresponds G I e e') : e'.graph.size = e.graph.size :=
  Graph.size_eq_of_live_eq (h.live shown)

theorem outputValue (h : Corresponds G I e e') (addr : OutputAddr) :
    e'.outputValue addr = e.outputValue addr := by
  unfold Engine.outputValue
  rw [Graph.output_eq_of_live_eq (h.live shown)]

theorem modifyNode (h : Corresponds G I e e') (id : NodeId) {f : Node → Node}
    (blind : Node.Blind f) : Corresponds G I (e.modifyNode id f) (e'.modifyNode id f) :=
  h.withGraph (shown.modifyNode h.graphs id blind)

theorem write (h : Corresponds G I e e') (addr : OutputAddr) (value : Value) :
    Corresponds G I (e.write addr value) (e'.write addr value) :=
  h.modifyNode shown addr.node (Node.blind_modifyOutput addr.port _)

theorem invalidate (h : Corresponds G I e e') : Corresponds G I e.invalidate e'.invalidate := by
  have sizes := h.size shown
  have stale := (h.withGraph (shown.invalidate h.graphs)).withServes Option.Rel.none
  have counted := stale.count Statistics.invalidation
  unfold Engine.invalidate
  dsimp only
  rw [counted.size shown, counted.epoch]
  exact counted.log _

theorem openEpoch (h : Corresponds G I e e') : Corresponds G I e.openEpoch e'.openEpoch := by
  have begins : e'.epoch.advance e'.lastEpoch = e.epoch.advance e.lastEpoch := by rw [h.rest]
  unfold Engine.openEpoch
  rw [begins]
  generalize e.epoch.advance e.lastEpoch = advanced
  obtain ⟨kind, epoch⟩ := advanced
  have opened := h.update (f := fun e => { e with epoch }) fun _ _ _ _ => rfl
  cases kind with
  | stepped => exact opened.withServes .none
  | wrapped => exact ((opened.log .epochWrapped).count Statistics.wrap).invalidate shown

theorem serve (pairing : Pairing I) (h : Corresponds G I e e') {context context' : Nat}
    (paired : I context context') : Corresponds G I (e.serve context) (e'.serve context') := by
  have served := h.serves
  have opened : Corresponds G I (e.log (.contextChanged e.epoch.number)).openEpoch
      (e'.log (.contextChanged e'.epoch.number)).openEpoch := by
    rw [h.epoch]
    exact (h.log _).openEpoch shown
  unfold Engine.serve
  generalize e.serves = serves at served ⊢
  generalize e'.serves = serves' at served ⊢
  cases served with
  | none => exact h.withServes (.some paired)
  | @some other other' others =>
    have same := pairing _ _ _ _ others paired
    dsimp only
    by_cases equal : other = context
    · rw [if_pos equal, if_pos (same.mp equal)]
      exact h
    · rw [if_neg equal, if_neg (fun equal' => equal (same.mpr equal'))]
      exact opened.withServes (.some paired)

/-- A pull takes no notice of what is not live and of identities. -/
theorem pull (locals : Locals) : PullPair False locals locals (Corresponds G I)
    (fun _ v v' => v' = v) (fun _ v v' => v' = v) where
  glance {e e'} h id := by
    have nodes := Graph.map_node?_of_live_eq (h.live shown) id
    have seen (n : Node) : (n.kind, n.title, n.activity, e.epoch.isCurrent n.computedAt) =
        (n.live.kind, n.live.title, n.live.activity, e.epoch.isCurrent n.live.computedAt) := rfl
    unfold Engine.glance
    rw [h.epoch, funext seen]
    simpa only [Option.map_map, Function.comp_def] using
      congrArg (Option.map fun n : Node =>
        (n.kind, n.title, n.activity, e.epoch.isCurrent n.computedAt)) nodes
  peek {e e'} h addr := by
    have inputs := Graph.map_input?_of_live_eq (h.live shown) addr
    have seen (i : Input) : (i.source, e.epoch.isCurrent i.stamp) =
        (i.live.source, e.epoch.isCurrent i.live.stamp) := rfl
    unfold Engine.peek
    rw [h.epoch, funext seen]
    simpa only [Option.map_map, Function.comp_def] using
      congrArg (Option.map fun i : Input => (i.source, e.epoch.isCurrent i.stamp)) inputs
  absent _ _ := rfl
  unlinked {e e' addr input input'} h found found' _ := by
    have inputs := Graph.map_input?_of_live_eq (h.live shown) addr
    rw [found, found'] at inputs
    have literals := congrArg Input.literal (Option.some.inj inputs)
    exact literals
  cached {e e' addr input input' source} h found found' _ current := by
    have inputs := Graph.map_input?_of_live_eq (h.live shown) addr
    rw [found, found'] at inputs
    have stamps := congrArg Input.stamp (Option.some.inj inputs)
    have values := congrArg Input.cached (Option.some.inj inputs)
    change input'.stamp = input.stamp at stamps
    have trusted : input.stamp ≠ Epoch.stale := by
      intro stale
      rw [stale, Epoch.isCurrent_stale] at current
      cases current
    simpa only [Input.live, stamps, if_neg trusted] using values
  pulled {e e' addr source} h _ _ := by
    unfold Graph.outputValue
    rw [Graph.output?_eq_of_live_eq (h.live shown)]
  hit h := h.count _
  miss h := h.count _
  cycle id title h := (h.log _).count _
  store {e e' addr v v'} h reads := by
    subst reads
    unfold Engine.store
    rw [h.epoch]
    exact h.modifyNode shown addr.node (Node.blind_modifyInput addr.port (Input.blind_store _ _))
  beginComputing id h := h.modifyNode shown id fun n => by simp [Node.live, Function.comp_def]
  operate _ _ reads := PureKind.value_congr reads
  finishComputing {e e' id kind v v'} h _ computes := by
    subst computes
    unfold Engine.finishComputing
    rw [h.epoch]
    refine (h.modifyNode shown id fun n => ?_).count _
    simp [Node.live, Node.write, Node.modifyOutput, Function.comp_def]

theorem read (h : Corresponds G I e e') (locals : Locals) (addr : InputAddr) :
    (e'.read locals addr).1 = (e.read locals addr).1 ∧
      Corresponds G I (e.read locals addr).2 (e'.read locals addr).2 :=
  (pull shown locals).read (fun _ => 0) addr h (h.size shown) False.elim

theorem refresh (h : Corresponds G I e e') (locals : Locals) (id : NodeId) :
    Corresponds G I (e.refresh locals id) (e'.refresh locals id) :=
  ((pull shown locals).refresh (fun _ => 0) id h (h.size shown) False.elim).1

theorem compute (h : Corresponds G I e e') (locals : Locals) {id : NodeId} {kind : PureKind}
    (pure : e.graph.pureKind? id = some kind) (quiet : e.graph.Quiet) :
    Corresponds G I (e.compute locals e.graph.size id kind)
      (e'.compute locals e'.graph.size id kind) := by
  rw [h.size shown]
  exact ((pull shown locals).compute (fun _ => 0) e.graph.size h pure (quiet id) False.elim).1

theorem invalidateOnce (h : Corresponds G I e e') (marker : Nat) :
    (e'.invalidateOnce marker).1 = (e.invalidateOnce marker).1 ∧
      Corresponds G I (e.invalidateOnce marker).2 (e'.invalidateOnce marker).2 := by
  unfold Engine.invalidateOnce
  rw [h.marker]
  split
  · exact ⟨rfl, h⟩
  · refine ⟨rfl, (h.invalidate shown).update (f := fun e => { e with marker := some marker }) ?_⟩
    intro e graph context serves
    rfl

theorem connect (h : Corresponds G I e e') (link : Link) :
    ResultsAgree (Corresponds G I) (e.connect link) (e'.connect link) :=
  (shown.connect h.graphs link).bind fun graphs => .done ((h.withGraph graphs).invalidate shown)

theorem disconnect (h : Corresponds G I e e') (target : InputAddr) :
    ResultsAgree (AnswersAgree True (Corresponds G I)) (e.disconnect target)
      (e'.disconnect target) := by
  refine (shown.disconnect h.graphs target).bind ?_
  rintro ⟨source, g⟩ ⟨source', g'⟩ ⟨sources, graphs⟩
  exact .done ⟨sources, (h.withGraph graphs).invalidate shown⟩

theorem setLiteral (h : Corresponds G I e e') (addr : InputAddr) (value : Value) :
    ResultsAgree (Corresponds G I) (e.setLiteral addr value) (e'.setLiteral addr value) :=
  (shown.setLiteral h.graphs addr value).bind fun graphs =>
    .done ((h.withGraph graphs).invalidate shown)

section Contexts

variable (pairing : Pairing I) (h : Corresponds G I e e') {c c' : Context}

include pairing h

theorem getValue (contexts : c.Corresponds I c') (addr : InputAddr) :
    (e'.getValue addr c').1 = (e.getValue addr c).1 ∧
      Corresponds G I (e.getValue addr c).2 (e'.getValue addr c').2 := by
  have inputs := resultsAgree_of_map_eq (Graph.map_input_of_live_eq (h.live shown) addr)
  unfold Engine.getValue
  generalize e.graph.input addr = input at inputs ⊢
  generalize e'.graph.input addr = input' at inputs ⊢
  cases inputs with
  | refused fault => exact ⟨rfl, h⟩
  | done _ =>
    obtain ⟨value, after⟩ := (h.serve shown pairing contexts.id).read shown c.locals addr
    dsimp only
    rw [contexts.locals]
    exact ⟨congrArg Except.ok value, after⟩

theorem pullOutput (contexts : c.Corresponds I c') (addr : OutputAddr) :
    (e'.pullOutput addr c').1 = (e.pullOutput addr c).1 ∧
      Corresponds G I (e.pullOutput addr c).2 (e'.pullOutput addr c').2 := by
  unfold Engine.pullOutput
  rw [h.outputValue shown]
  cases e.outputValue addr with
  | error fault => exact ⟨rfl, h⟩
  | ok _ =>
    have after := (h.serve shown pairing contexts.id).refresh shown c.locals addr.node
    dsimp only
    rw [contexts.locals]
    exact ⟨after.outputValue shown addr, after⟩

theorem getValues (addrs : List InputAddr) :
    (e'.getValues addrs).1 = (e.getValues addrs).1 ∧
      Corresponds G I (e.getValues addrs).2 (e'.getValues addrs).2 :=
  collect_pair (fun addr _ _ related => related.getValue shown pairing related.contexts addr) addrs
    (h.openEpoch shown)

theorem pullOutputs (addrs : List OutputAddr) :
    (e'.pullOutputs addrs).1 = (e.pullOutputs addrs).1 ∧
      Corresponds G I (e.pullOutputs addrs).2 (e'.pullOutputs addrs).2 :=
  collect_pair (fun addr _ _ related => related.pullOutput shown pairing related.contexts addr)
    addrs (h.openEpoch shown)

end Contexts

end Graphs

end Corresponds

end Engine

end NodeGraph
