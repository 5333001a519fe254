import NodeGraph.Proofs.Run.Correspondence
import NodeGraph.Proofs.Session.Pair

/-!
# Commands to corresponding graphs

A command that names no other graph and no extra context is carried out on one graph and on the
context that belongs to it. Given to two graphs that correspond, in whatever sessions and at
whatever positions, it has answers that correspond and leaves graphs that correspond, and nothing
else in the sessions changes (`Sheet.Corresponds.perform`).
-/

namespace NodeGraph

/-- Graphs of one kind that correspond. -/
abbrev Sheet.Corresponds (G : Graph → Graph → Prop) (I : Nat → Nat → Prop) :
    Sheet → Sheet → Prop :=
  Sheet.Related G (Engine.Corresponds G I)

/-- The same answer, but for what `N` does not tell apart in nodes and for identities. -/
inductive Reply.Corresponds (N : Node → Node → Prop) (I : Nat → Nat → Prop) :
    Reply → Reply → Prop where
  | same (reply : Reply) : Corresponds N I reply reply
  | node {n n' : Node} : N n n' → Corresponds N I (.node n) (.node n')
  | nodes {ns ns' : Array Node} : (∀ id : Nat, Option.Rel N ns[id]? ns'[id]?) →
    Corresponds N I (.nodes ns) (.nodes ns')
  | context {c c' : Context} : c.Corresponds I c' → Corresponds N I (.context c) (.context c')

/-- The same fault, or answers that correspond. -/
abbrev AnswersCorrespond (N : Node → Node → Prop) (I : Nat → Nat → Prop) :
    Except Fault Reply → Except Fault Reply → Prop :=
  ResultsAgree (Reply.Corresponds N I)

theorem AnswersCorrespond.of_eq {N : Node → Node → Prop} {I : Nat → Nat → Prop}
    {answer answer' : Except Fault Reply} (same : answer' = answer) :
    AnswersCorrespond N I answer answer' := by
  rw [same]
  exact ResultsAgree.refl Reply.Corresponds.same answer

/-- A command that concerns one graph and the context that belongs to it. -/
def Command.own : Command → Bool
  | .copyNode _ _ | .copySheet | .openSheet _ _ => false
  | .newContext | .copyContext _ | .swapContext _ => false
  | .pullOutput _ _ => false
  | .execute _ context | .getValue _ context => context.isNone
  | .setLocal _ _ context | .getLocal _ context | .clearLocals context => context.isNone
  | .showContext context | .takePrinted context => context.isNone
  | _ => true

theorem Command.keepsIdentities_of_own {command : Command} (own : command.own = true) :
    command.keepsIdentities = true := by
  cases command <;> first | rfl | cases own

/-- A graph corresponds to itself, if its identities are paired with themselves. -/
theorem Sheet.Corresponds.refl {G : Graph → Graph → Prop} {I : Nat → Nat → Prop}
    (graphs : ∀ g, G g g) (ids : ∀ id, I id id) (sheet : Sheet) : sheet.Corresponds G I sheet := by
  refine Sheet.Related.refl graphs (fun e => ?_) sheet
  refine ⟨graphs _, ⟨ids _, rfl, rfl⟩, ?_, rfl⟩
  cases e.serves with
  | none => exact .none
  | some context => exact .some (ids context)

/-- Graphs that `G` relates, and contexts under identities that `I` pairs. Of the nodes that are
added, `D` says which leave graphs related; `reached` are the extra contexts that are compared. -/
def corresponding (N D : Node → Node → Prop) (G : Graph → Graph → Prop) (I : Nat → Nat → Prop)
    (reached : Nat → Prop) : Likeness where
  answers _ := AnswersCorrespond N I
  nodes := N
  added := D
  wirings := G
  engines := Engine.Corresponds G I
  idle e e' := e.Valid ∧ e.Corresponds G I e'
  running m m' := m.engine.Valid ∧ m.Corresponds G I m'
  identities := I
  extras _ := Context.Corresponds I
  named := reached
  used := reached
  known _ m _ := m.engine.Valid
  settings := id

namespace corresponding

variable {N D : Node → Node → Prop} {G : Graph → Graph → Prop} {I : Nat → Nat → Prop}
  {reached : Nat → Prop}

theorem answers : (corresponding N D G I reached).Answers where
  same _ _ := .of_eq rfl
  node _ same := .done (.node same)
  nodes same := .done (.nodes same)
  context _ contexts := .done (.context contexts)

variable (shown : Graph.Correspondence N G)

include shown

theorem shows {g g' : Graph} (graphs : G g g') : g.Shows N g' where
  links := Graph.links_eq_of_live_eq (shown.live_eq graphs)
  successors addr := by
    unfold Graph.successors
    rw [Graph.output?_eq_of_live_eq (shown.live_eq graphs)]
  nodes := shown.nodes graphs

variable (adds : ∀ {g g' n n'}, G g g' → D n n' → G (g.add n).2 (g'.add n').2)

include adds

theorem wirings : (corresponding N D G I reached).Wirings where
  shows graphs := shows shown graphs
  add graphs nodes := adds graphs nodes
  connect := shown.connect
  disconnect := shown.disconnect
  relabel := shown.relabel

theorem engines : (corresponding N D G I reached).Engines where
  shows engines := shows shown engines.graphs
  add engines nodes := engines.withGraph (adds engines.graphs nodes)
  connect engines := engines.connect shown
  disconnect engines := engines.disconnect shown
  setLiteral engines := engines.setLiteral shown
  own engines := engines.contexts
  withContext engines contexts := engines.withContext contexts
  log engines := engines.log
  openEpoch _ engines := by
    have opened := engines.openEpoch shown
    exact ⟨.of_eq (congrArg (fun epoch => Except.ok (Reply.epoch epoch.number)) opened.epoch), opened⟩
  invalidate engines := engines.invalidate shown
  invalidateOnce engines := engines.invalidateOnce shown
  marker engines := engines.marker
  hitRatio engines := .of_eq
    (congrArg (fun statistics => Except.ok (Reply.ratio statistics.hitRatio)) engines.statistics)
  resetStatistics engines := engines.update (f := Engine.resetStatistics) fun _ _ _ _ => rfl
  config engines := .of_eq (congrArg (fun config => Except.ok (Reply.config config)) engines.config)
  setConfig engines config := engines.update (f := fun e => { e with config }) fun _ _ _ _ => rfl

omit adds

theorem evaluations (pairing : Pairing I) : (corresponding N D G I reached).Evaluations where
  outputValue engines addr :=
    .of_eq (congrArg (Except.map Reply.value) (engines.outputValue shown addr))
  getValue {m m' addr context} _ engines contexts := by
    have contexts : m.context.Corresponds I m'.context := by cases context <;> exact contexts
    obtain ⟨value, after⟩ := engines.getValue shown pairing contexts addr
    exact ⟨.of_eq (congrArg (Except.map Reply.value) value), after⟩
  pullOutput {_ _ addr _} _ engines contexts := by
    obtain ⟨value, after⟩ := engines.pullOutput shown pairing contexts addr
    exact ⟨.of_eq (congrArg (Except.map Reply.value) value), after⟩
  getValues _ engines := engines.getValues shown pairing _
  pullOutputs _ engines := engines.pullOutputs shown pairing _
  runs := corresponding_runs shown pairing
  ready _ valid engines contexts := ⟨valid, contexts, engines⟩
  ended := fun ⟨_, after⟩ => ⟨after.engines, after.contexts⟩

theorem laws (pairing : Pairing I) (same : ∀ n, D n n)
    (adds : ∀ {g g' n n'}, G g g' → D n n' → G (g.add n).2 (g'.add n').2) :
    (corresponding N D G I reached).Lawful where
  answers := answers
  wirings := wirings shown adds
  engines := engines shown adds
  evaluations := evaluations shown pairing
  added := same
  extras _ := Iff.rfl

/-- The same node is added on both sides. -/
theorem laws_of_eq (pairing : Pairing I) : (corresponding N Eq G I reached).Lawful := by
  refine laws shown pairing (fun _ => rfl) fun {_ _ n n'} graphs same => ?_
  subst same
  exact shown.add graphs n

end corresponding

namespace Session

/-- Graphs that correspond were put in place at two positions, and nothing else was changed. -/
def Replaced (G : Graph → Graph → Prop) (I : Nat → Nat → Prop) (i j : Nat) (s s' t t' : Session) :
    Prop :=
  ∃ sheet sheet', t = s.setSheet i sheet ∧ t' = s'.setSheet j sheet' ∧
    sheet.Corresponds G I sheet'

/-- Outcomes of one command to the graphs at two positions: the answers correspond, graphs that
correspond were put in place, and nothing else changed. -/
def Acted (N : Node → Node → Prop) (G : Graph → Graph → Prop) (I : Nat → Nat → Prop)
    (i j : Nat) (s s' : Session) (r r' : Except Fault Reply × Session) : Prop :=
  AnswersCorrespond N I r.1 r'.1 ∧ ∃ sheet sheet', r.2 = s.setSheet i sheet ∧
    r'.2 = s'.setSheet j sheet' ∧ sheet.Corresponds G I sheet'

/-- Graphs that are put in the same places again are put back. -/
theorem replaced_pair {N : Node → Node → Prop} {G : Graph → Graph → Prop} {I : Nat → Nat → Prop}
    {s s' : Session} {i j : Nat} {sheet sheet' : Sheet} (found : s.sheets[i]? = some sheet)
    (found' : s'.sheets[j]? = some sheet') (shown : Graph.Correspondence N G)
    (pairing : Pairing I) :
    SheetPair (corresponding N Eq G I fun _ => False) (Replaced G I i j s s') i j where
  laws := corresponding.laws_of_eq shown pairing
  sheet? := by
    rintro _ _ ⟨after, after', rfl, rfl, same⟩
    rw [sheets_setSheet found, sheets_setSheet found']
    exact .some same
  setSheet := by
    rintro _ _ after after' ⟨_, _, rfl, rfl, _⟩ same
    exact ⟨after, after', setSheet_setSheet .., setSheet_setSheet .., same⟩
  extra? _ reached := reached.elim
  setExtra _ reached := reached.elim

/-- A command to a graph that is not there is refused. -/
theorem perform_of_missing {s : Session} {index : Nat} (missing : s.sheets[index]? = none)
    (limit : Nat) {command : Command} (own : command.own = true) :
    s.perform limit index command = .error .notOffered := by
  have without (act : Engine → Option (Except Fault Reply × Engine)) :
      s.onEngineWithin index act = .error .notOffered := by
    unfold onEngineWithin
    rw [missing]
  have machines (act : Machine → Option (Except Fault Reply × Machine)) {context : Option Nat}
      (none : context.isNone = true) : s.onMachine index context act = .error .notOffered := by
    rw [Option.isNone_iff_eq_none.mp none]
    exact without _
  cases command with dsimp only [perform]
  | copyNode | copySheet | openSheet | newContext | copyContext | swapContext | pullOutput =>
    cases own
  | execute | getValue | setLocal | getLocal | clearLocals | showContext | takePrinted =>
    exact machines _ own
  | executeNodes | executeOutputs => exact without _
  | setLiteral | outputValue | getValues | pullOutputs | openEpoch | invalidate | invalidateOnce
  | marker | hitRatio | resetStatistics | setConfig | config =>
    rw [onEngine_eq_within]
    exact without _
  | add | connect | disconnect => rw [change, missing]
  | links | successors | size | node | nodes => rw [ask, missing]
  | setEntry | entry | run => rw [onProgram, missing]
  | addChain | relabel => rw [missing]

end Session

theorem Command.single_of_own {command : Command} (own : command.own = true) :
    command.single = true := by
  cases command <;> first | rfl | cases own

/-- Such a command names no extra context. -/
theorem Likeness.admits_of_own (L : Likeness) {command : Command} (own : command.own = true) :
    L.Admits command := by
  have names : command.names? = none := by
    cases command <;> first | exact Option.isNone_iff_eq_none.mp own | rfl | cases own
  have uses : command.uses? = none := by
    cases command <;> first | exact Option.isNone_iff_eq_none.mp own | rfl | cases own
  constructor
  · intro extra named
    rw [names] at named
    cases named
  · intro extra used
    rw [uses] at used
    cases used

/-- The command goes on alike on both graphs. -/
theorem Sheet.Corresponds.perform {N : Node → Node → Prop} {G : Graph → Graph → Prop}
    {I : Nat → Nat → Prop} {s s' : Session} {i j : Nat} {sheet sheet' : Sheet}
    (h : sheet.Corresponds G I sheet') (found : s.sheets[i]? = some sheet)
    (found' : s'.sheets[j]? = some sheet') (shown : Graph.Correspondence N G) (pairing : Pairing I)
    (valid : ∀ e, sheet.engine? = some e → e.Valid) (limit : Nat) {command : Command}
    (own : command.own = true) :
    ResultsAgree (Session.Acted N G I i j s s') (s.perform limit i command)
      (s'.perform limit j command) := by
  have before : Session.Replaced G I i j s s' s s' :=
    ⟨sheet, sheet', (Session.setSheet_self found).symm, (Session.setSheet_self found').symm, h⟩
  rw [← s'.perform_mapConfig_id]
  refine (Session.replaced_pair found found' shown pairing).perform limit before
    (Command.single_of_own own) (Likeness.admits_of_own _ own) fun m m' there _ _ => ?_
  rw [Session.engine?, found] at there
  exact valid m.engine there

end NodeGraph
