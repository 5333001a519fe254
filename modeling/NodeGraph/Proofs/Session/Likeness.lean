import NodeGraph.Proofs.Engine.Correspondence
import NodeGraph.Proofs.Run.Pair
import NodeGraph.Session.Command

/-!
# Likeness of what commands are carried out on

Two sessions that carry out the same commands are compared by relations of their graphs, engines and
contexts, and of the answers (`Likeness`). What each operation has to do with these relations is
said once, one field for an operation (`Likeness.Lawful`). What follows for the graphs that a
session holds, whatever their kinds, is said of `Sheet.Related`.
-/

namespace NodeGraph

namespace Command

/-- The context that a command uses for anything but a read. -/
def uses? : Command → Option Nat
  | .execute _ context | .copyContext context | .setLocal _ _ context | .getLocal _ context
  | .clearLocals context | .showContext context | .takePrinted context => context
  | .swapContext context => some context
  | _ => none

/-- The extra context that a command names. -/
def names? : Command → Option Nat
  | .getValue _ context => context
  | .pullOutput _ context => some context
  | command => command.uses?

/-- The command reads values or runs nodes. -/
def evaluates : Command → Bool
  | .execute .. | .executeNodes _ | .executeOutputs _ | .run | .getValue .. | .pullOutput ..
  | .getValues _ | .pullOutputs _ => true
  | _ => false

/-- The command is carried out on one graph and one context, and makes none. -/
def single : Command → Bool
  | .copyNode _ _ | .copySheet | .openSheet _ _ => false
  | .newContext | .copyContext _ | .swapContext _ => false
  | _ => true

/-- The command with other settings in place of those it gives. -/
def mapConfig (f : Config → Config) : Command → Command
  | .openSheet kind settings => .openSheet kind (f settings)
  | .setConfig settings => .setConfig (f settings)
  | command => command

end Command

theorem Session.perform_mapConfig_id (s : Session) (limit index : Nat) (command : Command) :
    s.perform limit index (command.mapConfig id) = s.perform limit index command := by
  cases command <;> rfl

/-- Results whose parts are related. -/
def Both {α β γ δ : Type} (A : α → γ → Prop) (B : β → δ → Prop) (r : α × β) (r' : γ × δ) : Prop :=
  A r.1 r'.1 ∧ B r.2 r'.2

theorem relCases {α β : Type} {R : α → β → Prop} {x : Option α} {y : Option β}
    (h : Option.Rel R x y) :
    (x = none ∧ y = none) ∨ ∃ a b, x = some a ∧ y = some b ∧ R a b := by
  cases h with
  | none => exact .inl ⟨rfl, rfl⟩
  | some h => exact .inr ⟨_, _, rfl, rfl, h⟩

/-- Arrays that views do not tell apart are related element by element. -/
theorem rel_getElem?_iff {α β γ : Type} {xs : Array α} {ys : Array β} {view : α → γ}
    {view' : β → γ} :
    (∀ index : Nat, Option.Rel (fun a b => view' b = view a) xs[index]? ys[index]?) ↔
      ys.map view' = xs.map view := by
  have elements (index : Nat) : Option.Rel (fun a b => view' b = view a) xs[index]? ys[index]? ↔
      (ys.map view')[index]? = (xs.map view)[index]? := by
    rw [Array.getElem?_map, Array.getElem?_map]
    generalize xs[index]? = a
    generalize ys[index]? = b
    cases a <;> cases b <;> simp
  constructor
  · intro related
    exact Array.ext_getElem? fun index => (elements index).mp (related index)
  · intro same index
    exact (elements index).mpr (congrArg (·[index]?) same)

/-- Graphs of one kind, related as wirings or by their engines. -/
inductive Sheet.Related (G : Graph → Graph → Prop) (R : Engine → Engine → Prop) :
    Sheet → Sheet → Prop where
  | wiring {g g' : Graph} : G g g' → Related G R (.wiring g) (.wiring g')
  | engine {e e' : Engine} : R e e' → Related G R (.engine e) (.engine e')
  | program {e e' : Engine} {entry : Option NodeId} : R e e' →
    Related G R (.program ⟨e, entry⟩) (.program ⟨e', entry⟩)

/-- Graphs that tell the same of their links, and have nodes that `N` relates. -/
structure Graph.Shows (N : Node → Node → Prop) (g g' : Graph) : Prop where
  links : g'.links = g.links
  successors : ∀ addr, g'.successors addr = g.successors addr
  nodes : ∀ id : Nat, Option.Rel N g.nodes[id]? g'.nodes[id]?

namespace Graph.Shows

variable {N : Node → Node → Prop} {g g' : Graph}

theorem refl (nodes : ∀ n, N n n) (g : Graph) : g.Shows N g where
  links := rfl
  successors _ := rfl
  nodes id := by
    cases g.nodes[id]? with
    | none => exact .none
    | some n => exact .some (nodes n)

theorem size (h : g.Shows N g') : g'.size = g.size := by
  have ends (id : Nat) : g'.size ≤ id ↔ g.size ≤ id := by
    rw [Graph.size, Graph.size, ← Array.getElem?_eq_none_iff, ← Array.getElem?_eq_none_iff]
    rcases relCases (h.nodes id) with ⟨none, none'⟩ | ⟨n, n', found, found', _⟩
    · simp [none, none']
    · simp [found, found']
  exact Nat.le_antisymm ((ends g.size).mpr le_rfl) ((ends g'.size).mp le_rfl)

theorem node (h : g.Shows N g') (id : NodeId) : ResultsAgree N (g.node id) (g'.node id) := by
  unfold Graph.node Graph.node?
  rcases relCases (h.nodes id) with ⟨none, none'⟩ | ⟨n, n', found, found', same⟩
  · rw [none, none']
    exact .refused _
  · rw [found, found']
    exact .done same

end Graph.Shows

/-- The relations by which sessions that carry out the same commands are compared. -/
structure Likeness where
  /-- Of the answers to a command. -/
  answers : Command → Except Fault Reply → Except Fault Reply → Prop
  /-- Of the nodes that graphs show. -/
  nodes : Node → Node → Prop
  /-- Of the nodes that are added. -/
  added : Node → Node → Prop
  /-- Of bare wirings. -/
  wirings : Graph → Graph → Prop
  /-- Of engines between two commands. -/
  engines : Engine → Engine → Prop
  /-- Of engines between two runs for one command. -/
  idle : Engine → Engine → Prop
  /-- Of machines between two steps of a run. -/
  running : Machine → Machine → Prop
  /-- Of the identities of contexts. -/
  identities : Nat → Nat → Prop
  /-- Of the extra contexts at a position. -/
  extras : Nat → Context → Context → Prop
  /-- The extra contexts that commands may name. -/
  named : Nat → Prop
  /-- The extra contexts that commands may use for anything but a read. -/
  used : Nat → Prop
  /-- What is known of the machines that a command finds. -/
  known : Command → Machine → Machine → Prop
  /-- The settings that are given on the second side in place of those on the first one. -/
  settings : Config → Config

namespace Likeness

variable (L : Likeness)

/-- The relation of the contexts that a command is carried out for. -/
def contexts : Option Nat → Context → Context → Prop
  | none => Context.Corresponds L.identities
  | some extra => L.extras extra

/-- The command keeps to the extra contexts that it may name and use. -/
structure Admits (command : Command) : Prop where
  named : ∀ extra, command.names? = some extra → L.named extra
  used : ∀ extra, command.uses? = some extra → L.used extra

/-- Equal answers are related, and so are answers that show related nodes and contexts. -/
structure Answers : Prop where
  same : ∀ command answer, L.answers command answer answer
  node : ∀ {n n'} id, L.nodes n n' → L.answers (.node id) (.ok (.node n)) (.ok (.node n'))
  nodes : ∀ {ns ns' : Array Node}, (∀ id : Nat, Option.Rel L.nodes ns[id]? ns'[id]?) →
    L.answers .nodes (.ok (.nodes ns)) (.ok (.nodes ns'))
  context : ∀ {c c'} context, c.Corresponds L.identities c' →
    L.answers (.showContext context) (.ok (.context c)) (.ok (.context c'))

/-- The operations of bare wirings. -/
structure Wirings : Prop where
  shows : ∀ {g g'}, L.wirings g g' → g.Shows L.nodes g'
  add : ∀ {g g' n n'}, L.wirings g g' → L.added n n' → L.wirings (g.add n).2 (g'.add n').2
  connect : ∀ {g g'}, L.wirings g g' → ∀ link,
    ResultsAgree L.wirings (g.connect link) (g'.connect link)
  disconnect : ∀ {g g'}, L.wirings g g' → ∀ target,
    ResultsAgree (AnswersAgree True L.wirings) (g.disconnect target) (g'.disconnect target)
  relabel : ∀ {g g'}, L.wirings g g' → ∀ id newId title,
    ResultsAgree L.wirings (g.relabel id newId title) (g'.relabel id newId title)

/-- The operations of engines that read nothing and run nothing. -/
structure Engines : Prop where
  shows : ∀ {e e'}, L.engines e e' → e.graph.Shows L.nodes e'.graph
  add : ∀ {e e' n n'}, L.engines e e' → L.added n n' →
    L.engines (e.addNode n).2 (e'.addNode n').2
  connect : ∀ {e e'}, L.engines e e' → ∀ link,
    ResultsAgree L.engines (e.connect link) (e'.connect link)
  disconnect : ∀ {e e'}, L.engines e e' → ∀ target,
    ResultsAgree (AnswersAgree True L.engines) (e.disconnect target) (e'.disconnect target)
  setLiteral : ∀ {e e'}, L.engines e e' → ∀ addr value,
    ResultsAgree L.engines (e.setLiteral addr value) (e'.setLiteral addr value)
  own : ∀ {e e'}, L.engines e e' → e.context.Corresponds L.identities e'.context
  withContext : ∀ {e e' c c'}, L.engines e e' → c.Corresponds L.identities c' →
    L.engines { e with context := c } { e' with context := c' }
  log : ∀ {e e'}, L.engines e e' → ∀ event, L.engines (e.log event) (e'.log event)
  openEpoch : ∀ {m m'}, L.known .openEpoch m m' → L.engines m.engine m'.engine →
    L.answers .openEpoch (.ok (.epoch m.engine.openEpoch.epoch.number))
        (.ok (.epoch m'.engine.openEpoch.epoch.number)) ∧
      L.engines m.engine.openEpoch m'.engine.openEpoch
  invalidate : ∀ {e e'}, L.engines e e' → L.engines e.invalidate e'.invalidate
  invalidateOnce : ∀ {e e'}, L.engines e e' → ∀ marker,
    (e'.invalidateOnce marker).1 = (e.invalidateOnce marker).1 ∧
      L.engines (e.invalidateOnce marker).2 (e'.invalidateOnce marker).2
  marker : ∀ {e e'}, L.engines e e' → e'.marker = e.marker
  hitRatio : ∀ {e e'}, L.engines e e' →
    L.answers .hitRatio (.ok (.ratio e.statistics.hitRatio)) (.ok (.ratio e'.statistics.hitRatio))
  resetStatistics : ∀ {e e'}, L.engines e e' → L.engines e.resetStatistics e'.resetStatistics
  config : ∀ {e e'}, L.engines e e' →
    L.answers .config (.ok (.config e.config)) (.ok (.config e'.config))
  setConfig : ∀ {e e'}, L.engines e e' → ∀ config,
    L.engines { e with config } { e' with config := L.settings config }

/-- The reads and runs of engines. -/
structure Evaluations : Prop where
  outputValue : ∀ {e e'}, L.engines e e' → ∀ addr,
    L.answers (.outputValue addr) ((e.outputValue addr).map .value)
      ((e'.outputValue addr).map .value)
  getValue : ∀ {m m' addr context}, L.known (.getValue addr context) m m' →
    L.engines m.engine m'.engine → L.contexts context m.context m'.context →
      L.answers (.getValue addr context) ((m.engine.getValue addr m.context).1.map .value)
          ((m'.engine.getValue addr m'.context).1.map .value) ∧
        L.engines (m.engine.getValue addr m.context).2 (m'.engine.getValue addr m'.context).2
  pullOutput : ∀ {m m' addr extra}, L.known (.pullOutput addr extra) m m' →
    L.engines m.engine m'.engine → L.extras extra m.context m'.context →
      L.answers (.pullOutput addr extra) ((m.engine.pullOutput addr m.context).1.map .value)
          ((m'.engine.pullOutput addr m'.context).1.map .value) ∧
        L.engines (m.engine.pullOutput addr m.context).2 (m'.engine.pullOutput addr m'.context).2
  getValues : ∀ {m m' addrs}, L.known (.getValues addrs) m m' → L.engines m.engine m'.engine →
    (m'.engine.getValues addrs).1 = (m.engine.getValues addrs).1 ∧
      L.engines (m.engine.getValues addrs).2 (m'.engine.getValues addrs).2
  pullOutputs : ∀ {m m' addrs}, L.known (.pullOutputs addrs) m m' → L.engines m.engine m'.engine →
    (m'.engine.pullOutputs addrs).1 = (m.engine.pullOutputs addrs).1 ∧
      L.engines (m.engine.pullOutputs addrs).2 (m'.engine.pullOutputs addrs).2
  runs : RunPair L.idle L.running
  ready : ∀ {m m' command}, command.evaluates = true → L.known command m m' →
    L.engines m.engine m'.engine → m.context.Corresponds L.identities m'.context → L.running m m'
  ended : ∀ {m m'}, L.running m m' →
    L.engines m.engine m'.engine ∧ m.context.Corresponds L.identities m'.context

/-- What is compared is compared again after every operation, and answers agree. -/
structure Lawful : Prop where
  answers : L.Answers
  wirings : L.Wirings
  engines : L.Engines
  evaluations : L.Evaluations
  added : ∀ n, L.added n n
  extras : ∀ {extra c c'}, L.used extra → (L.extras extra c c' ↔ c.Corresponds L.identities c')

/-- The same wirings stay the same. -/
theorem wirings_of_eq {L : Likeness} (same : L.wirings = Eq) (shown : ∀ n, L.nodes n n)
    (added : ∀ {n n'}, L.added n n' → n'.detach = n.detach) : L.Wirings where
  shows {g g'} graphs := by
    rw [same] at graphs
    subst graphs
    exact .refl shown g
  add {g g' n n'} graphs nodes := by
    rw [same] at graphs ⊢
    rw [graphs, Graph.add, Graph.add, added nodes]
  connect {g g'} graphs link := by
    rw [same] at graphs ⊢
    subst graphs
    exact .refl (fun _ => rfl) _
  disconnect {g g'} graphs target := by
    rw [same] at graphs ⊢
    subst graphs
    exact .refl (fun _ => ⟨fun _ => rfl, rfl⟩) _
  relabel {g g'} graphs id newId title := by
    rw [same] at graphs ⊢
    subst graphs
    exact .refl (fun _ => rfl) _

end Likeness

namespace Sheet.Related

section Kinds

variable {G : Graph → Graph → Prop} {R : Engine → Engine → Prop} {sheet sheet' : Sheet}

theorem refl (graphs : ∀ g, G g g) (engines : ∀ e, R e e) (sheet : Sheet) :
    sheet.Related G R sheet := by
  cases sheet with
  | wiring g => exact .wiring (graphs g)
  | engine e => exact .engine (engines e)
  | program p => exact .program (engines p.engine)

theorem mono {R' : Engine → Engine → Prop} (h : sheet.Related G R sheet')
    (engines : ∀ {e e'}, R e e' → R' e e') : sheet.Related G R' sheet' := by
  cases h with
  | wiring graphs => exact .wiring graphs
  | engine related => exact .engine (engines related)
  | program related => exact .program (engines related)

/-- Both can be evaluated, or neither can. -/
theorem engine? (h : sheet.Related G R sheet') : Option.Rel R sheet.engine? sheet'.engine? := by
  cases h with
  | wiring _ => exact .none
  | engine engines => exact .some engines
  | program engines => exact .some engines

theorem withEngine (h : sheet.Related G R sheet') {e e' : Engine} (engines : R e e') :
    (sheet.withEngine e).Related G R (sheet'.withEngine e') := by
  cases h with
  | wiring graphs => exact .wiring graphs
  | engine _ => exact .engine engines
  | program _ => exact .program engines

end Kinds

variable {L : Likeness} {sheet sheet' : Sheet} (laws : L.Lawful)
  (h : sheet.Related L.wirings L.engines sheet')

include laws h

theorem shows : sheet.graph.Shows L.nodes sheet'.graph := by
  cases h with
  | wiring graphs => exact laws.wirings.shows graphs
  | engine engines => exact laws.engines.shows engines
  | program engines => exact laws.engines.shows engines

theorem add {n n' : Node} (nodes : L.added n n') :
    (sheet'.add n').1 = (sheet.add n).1 ∧
      (sheet.add n).2.Related L.wirings L.engines (sheet'.add n').2 := by
  have ids := (h.shows laws).size
  cases h with
  | wiring graphs => exact ⟨ids, .wiring (laws.wirings.add graphs nodes)⟩
  | engine engines => exact ⟨ids, .engine (laws.engines.add engines nodes)⟩
  | program engines => exact ⟨ids, .program (laws.engines.add engines nodes)⟩

theorem connect (link : Link) :
    ResultsAgree (Related L.wirings L.engines) (sheet.connect link) (sheet'.connect link) := by
  cases h with
  | wiring graphs => exact (laws.wirings.connect graphs link).map .wiring
  | engine engines => exact (laws.engines.connect engines link).map .engine
  | program engines => exact (laws.engines.connect engines link).map .program

theorem disconnect (target : InputAddr) :
    ResultsAgree (AnswersAgree True (Related L.wirings L.engines)) (sheet.disconnect target)
      (sheet'.disconnect target) := by
  cases h with
  | wiring graphs =>
    exact (laws.wirings.disconnect graphs target).map fun both => ⟨both.1, .wiring both.2⟩
  | engine engines =>
    exact (laws.engines.disconnect engines target).map fun both => ⟨both.1, .engine both.2⟩
  | program engines =>
    exact (laws.engines.disconnect engines target).map fun both => ⟨both.1, .program both.2⟩

/-- A chain grows alike on both sides, and is refused at the same link. -/
theorem addChain {node : Node} (added : L.added node node) (output input : PortId) (count : Nat)
    (previous : Option NodeId) :
    (sheet'.addChain node output input count previous).1 =
        (sheet.addChain node output input count previous).1 ∧
      (sheet.addChain node output input count previous).2.Related L.wirings L.engines
        (sheet'.addChain node output input count previous).2 := by
  induction count generalizing sheet sheet' previous with
  | zero => exact ⟨rfl, h⟩
  | succ count ih =>
    rcases h.add laws added with ⟨ids, after⟩
    unfold Sheet.addChain
    dsimp only
    rw [ids]
    cases previous with
    | none => exact ih after _
    | some previous =>
      have linked := after.connect laws ⟨⟨previous, output⟩, ⟨(sheet.add node).1, input⟩⟩
      dsimp only
      generalize (sheet.add node).2.connect ⟨⟨previous, output⟩, ⟨(sheet.add node).1, input⟩⟩ =
        result at linked ⊢
      generalize (sheet'.add node).2.connect ⟨⟨previous, output⟩, ⟨(sheet.add node).1, input⟩⟩ =
        result' at linked ⊢
      cases linked with
      | refused reason => exact ⟨rfl, after⟩
      | done linked => exact ih linked _

end Sheet.Related

namespace Likeness.Lawful

variable {L : Likeness} (laws : L.Lawful)

include laws

theorem answer {α : Type} (command : Command) (reply : α → Except Fault Reply) {a a' : α}
    (same : a' = a) : L.answers command (reply a) (reply a') := by
  rw [same]
  exact laws.answers.same command _

/-- Contexts that may be used are the same, under related identities. -/
theorem contexts_iff {context : Option Nat} (used : ∀ extra, context = some extra → L.used extra)
    {c c' : Context} : L.contexts context c c' ↔ c.Corresponds L.identities c' := by
  cases context with
  | none => exact Iff.rfl
  | some extra => exact laws.extras (used extra rfl)

/-- Runs that are not for an extra context go on from engines as they are between commands. -/
theorem idle {e e' : Engine} {command : Command} (evaluates : command.evaluates = true)
    (known : L.known command ⟨e, e.context⟩ ⟨e', e'.context⟩) (engines : L.engines e e') :
    L.idle e e' :=
  laws.evaluations.runs.back
    (laws.evaluations.ready evaluates known engines (laws.engines.own engines))

theorem rested {e e' : Engine} (idle : L.idle e e') : L.engines e e' :=
  (laws.evaluations.ended (laws.evaluations.runs.own idle)).1

end Likeness.Lawful

end NodeGraph
