import NodeGraph.Proofs.Engine.Repeatable
import NodeGraph.Proofs.Session.Identity
import NodeGraph.Proofs.Session.Isolation

/-!
# Reads that are repeated in a session

A read that gave a value for a context gives it again, in the same epoch and without running a
node, for as long as no command opens an epoch, changes the wiring or serves another context
(`Session.Reachable.reads_repeat`). Reads for the same context, also of what does not exist, changes
to its variables, new nodes and refused changes of the wiring are no such commands
(`Command.Calm`). Between two of them the input is held with the value (`Session.Answered`).
-/

namespace NodeGraph

/-- The commands that leave alone what was read for a context: reads for the same context, new
nodes, questions, and changes to what no pull looks at. -/
def Command.Calm (context : Option Nat) : Command → Prop
  | .getValue _ other => other = context
  | .pullOutput _ other => some other = context
  | .add _ | .copyNode _ _ | .links | .successors _ | .size | .node _ | .nodes | .copySheet
  | .openSheet _ _ | .setEntry _ | .entry | .outputValue _ | .marker | .hitRatio
  | .resetStatistics | .setConfig _ | .config | .newContext | .copyContext _ | .setLocal _ _ _
  | .getLocal _ _ | .clearLocals _ | .showContext _ | .takePrinted _ => True
  | _ => False

/-- The commands that change the wiring or a literal, unless they are refused. -/
def Command.Rewires : Command → Prop
  | .connect _ | .disconnect _ | .setLiteral _ _ => True
  | _ => False

/-- The engine of the graph, if it has one, is left undisturbed. -/
def Sheet.Spares (sheet sheet' : Sheet) : Prop :=
  ∀ e, sheet.engine? = some e → ∃ e', sheet'.engine? = some e' ∧ e.Undisturbed e'

theorem Sheet.spares_withEngine {sheet : Sheet} {e e' : Engine} (has : sheet.engine? = some e)
    (undisturbed : e.Undisturbed e') : sheet.Spares (sheet.withEngine e') := by
  intro other there
  obtain rfl := Option.some.inj (has.symm.trans there)
  cases sheet with
  | wiring g => cases has
  | engine _ => exact ⟨e', rfl, undisturbed⟩
  | program p => exact ⟨e', rfl, undisturbed⟩

theorem Sheet.spares_add (sheet : Sheet) (node : Node) : sheet.Spares (sheet.add node).2 := by
  intro e has
  cases sheet with
  | wiring g => cases has
  | engine _ =>
    obtain rfl := Option.some.inj has
    exact ⟨_, rfl, Engine.undisturbed_addNode _ node⟩
  | program p =>
    obtain rfl := Option.some.inj has
    exact ⟨_, rfl, Engine.undisturbed_addNode _ node⟩

namespace Session

/-- The place of the context that is named in a command on a graph. -/
def Place.named (index : Nat) : Option Nat → Place
  | none => .own index
  | some position => .extra position

/-- The sessions that commands lead to which leave alone what was read on a graph for a context. -/
inductive Undisturbed (index : Nat) (context : Option Nat) (s : Session) : Session → Prop where
  | refl : Undisturbed index context s s
  | calm {s' s'' : Session} {limit : Nat} {command : Command} {reply : Except Fault Reply} :
    Undisturbed index context s s' → command.Calm context →
    s'.perform limit index command = .ok (reply, s'') → Undisturbed index context s s''
  | refused {s' s'' : Session} {limit : Nat} {command : Command} {fault : Fault} :
    Undisturbed index context s s' → command.Rewires →
    s'.perform limit index command = .ok (.error fault, s'') → Undisturbed index context s s''
  /-- A copy of a node of whatever graph is added to this one. -/
  | copied {s' s'' : Session} {limit other : Nat} {id : NodeId} {reply : Except Fault Reply} :
    Undisturbed index context s s' →
    s'.perform limit other (.copyNode id index) = .ok (reply, s'') →
    Undisturbed index context s s''

/-- The graph at a position has read the input for the context at a place, in this epoch and with
this value. -/
def Answered (s : Session) (index : Nat) (place : Place) (addr : InputAddr) (value : Value)
    (epoch : Epoch) : Prop :=
  ∃ e id, s.engine? index = some e ∧ s.identity? place = some id ∧ e.Answered id addr value ∧
    e.epoch = epoch

/-- The engine at a position is left undisturbed, and the context at a place keeps its identity. -/
structure Spares (index : Nat) (place : Place) (s s' : Session) : Prop where
  engine : ∀ e, s.engine? index = some e → ∃ e', s'.engine? index = some e' ∧ e.Undisturbed e'
  identity : ∀ id, s.identity? place = some id → s'.identity? place = some id

variable {s s' : Session} {index other : Nat} {place : Place} {sheet sheet' : Sheet}
  {context : Option Nat} {reply : Except Fault Reply}

theorem Answered.spared {addr : InputAddr} {value : Value} {epoch : Epoch}
    (h : s.Answered index place addr value epoch) (spares : Spares index place s s') :
    s'.Answered index place addr value epoch := by
  obtain ⟨e, id, there, named, answered, now⟩ := h
  obtain ⟨e', there', undisturbed⟩ := spares.engine e there
  exact ⟨e', id, there', spares.identity id named, answered.undisturbed undisturbed,
    undisturbed.steady.epoch.trans now⟩

/-- The identity of the context that a command names. -/
theorem identity?_named : s.identity? (.named index context) =
    (s.context? index context).map (·.id) := by
  cases context with
  | none =>
    show s.sheets[index]?.bind Sheet.identity? =
      ((s.sheets[index]?.bind Sheet.engine?).map (·.context)).map (·.id)
    cases s.sheets[index]? with
    | none => rfl
    | some sheet => rw [Option.map_map]; rfl
  | some extra => rfl

namespace Spares

theorem refl (index : Nat) (place : Place) (s : Session) : Spares index place s s :=
  ⟨fun e there => ⟨e, there, .refl e⟩, fun _ named => named⟩

/-- A graph is exchanged for one whose engine was left undisturbed. -/
theorem setSheet (found : s.sheets[other]? = some sheet) (spared : sheet.Spares sheet')
    (same : sheet'.identity? = sheet.identity?) :
    Spares index place s (s.setSheet other sheet') := by
  refine ⟨fun e there => ?_, fun id named => ?_⟩
  · obtain ⟨below, _⟩ := Array.getElem?_eq_some_iff.mp found
    by_cases equal : other = index
    · subst equal
      have has : sheet.engine? = some e := by rwa [Session.engine?, found] at there
      obtain ⟨e', has', undisturbed⟩ := spared e has
      exact ⟨e', by simp [Session.engine?, Session.setSheet, below, has'], undisturbed⟩
    · refine ⟨e, ?_, .refl e⟩
      rw [← there]
      simp [Session.engine?, Session.setSheet, equal]
  · exact ((sameIdentities_setSheet found same).same place).trans named

theorem withEngine {e e' : Engine} (found : s.sheets[other]? = some sheet)
    (has : sheet.engine? = some e) (undisturbed : e.Undisturbed e')
    (same : e'.context.id = e.context.id) :
    Spares index place s (s.setSheet other (sheet.withEngine e')) := by
  refine setSheet found (Sheet.spares_withEngine has undisturbed) ?_
  rw [Sheet.identity?_withEngine has, Sheet.identity?, has, same]
  rfl

theorem onEngine {act : Engine → Except Fault Reply × Engine}
    (keeps : ∀ e, e.Undisturbed (act e).2 ∧ (act e).2.context.id = e.context.id)
    (performed : s.onEngine other act = .ok (reply, s')) : Spares index place s s' := by
  obtain ⟨sheet, e, found, has, _, rfl⟩ := onEngine_eq_ok_iff.mp performed
  exact withEngine found has (keeps e).1 (keeps e).2

/-- What is done for a context leaves the engine undisturbed and the identity where it is. -/
theorem onMachine {act : Machine → Option (Except Fault Reply × Machine)}
    (keeps : ∀ m reply m', s.engine? other = some m.engine →
      s.identity? (.named other context) = some m.context.id → act m = some (reply, m') →
      m'.context.id = m.context.id ∧ m'.engine.context.id = m.engine.context.id ∧
        m.engine.Undisturbed m'.engine)
    (performed : s.onMachine other context act = .ok (reply, s')) : Spares index place s s' := by
  cases context with
  | none =>
    obtain ⟨sheet, e, m', found, has, acted, rfl⟩ := onMachine_own_eq_ok_iff.mp performed
    have there := engine?_eq_some found has
    have named : s.identity? (.named other none) = some e.context.id := by
      rw [identity?_named, context?_own there, Option.map_some]
    obtain ⟨identity, _, undisturbed⟩ := keeps ⟨e, e.context⟩ _ m' there named acted
    exact withEngine found has (undisturbed.trans (.of_graph_eq rfl rfl rfl)) identity
  | some extra =>
    obtain ⟨sheet, e, c, m', found, has, there, acted, rfl⟩ :=
      onMachine_extra_eq_ok_iff.mp performed
    have named : s.identity? (.named other (some extra)) = some c.id := by
      rw [identity?_named, Session.context?, there, Option.map_some]
    obtain ⟨identity, own, undisturbed⟩ :=
      keeps ⟨e, c⟩ _ m' (engine?_eq_some found has) named acted
    have spares : Spares index place s (s.setSheet other (sheet.withEngine m'.engine)) :=
      withEngine found has undisturbed own
    have same := SameIdentities.setContext
      (s := s.setSheet other (sheet.withEngine m'.engine)) there identity
    exact ⟨spares.engine, fun id named => (same.same place).trans (spares.identity id named)⟩

/-- Changes to a context are no matter of any engine. -/
theorem onContext {act : Context → Reply × Context} (keeps : ∀ c, (act c).2.id = c.id)
    (performed : s.onContext other context act = .ok (reply, s')) : Spares index place s s' := by
  refine onMachine ?_ performed
  intro m _ m' _ _ acted
  obtain ⟨-, rfl⟩ := Prod.mk.inj (Option.some.inj acted)
  exact ⟨keeps m.context, rfl, .refl m.engine⟩

theorem change {act : Sheet → Except Fault (Reply × Sheet)}
    (keeps : ∀ sheet reply sheet', act sheet = .ok (reply, sheet') →
      sheet.Spares sheet' ∧ sheet'.identity? = sheet.identity?)
    (performed : s.change other act = .ok (reply, s')) : Spares index place s s' := by
  obtain ⟨sheet, found, ⟨_, _, _, rfl⟩ | ⟨answer, sheet', acted, _, rfl⟩⟩ :=
    change_eq_ok_iff.mp performed
  · exact refl index place s'
  · exact setSheet found (keeps sheet _ sheet' acted).1 (keeps sheet _ sheet' acted).2

theorem copyNode {id : NodeId} {target : Nat}
    (performed : s.copyNode other id target = .ok (reply, s')) : Spares index place s s' := by
  obtain ⟨sheet, sheet', _, there, ⟨_, _, _, rfl⟩ | ⟨node, _, _, rfl⟩⟩ :=
    copyNode_eq_ok_iff.mp performed
  · exact refl index place s'
  · exact setSheet there (sheet'.spares_add node) (sheet'.identity?_add node)

theorem setEntry (limit : Nat) {id : NodeId}
    (performed : s.perform limit other (.setEntry id) = .ok (reply, s')) :
    Spares index place s s' := by
  obtain ⟨p, found, ⟨_, _, _, rfl⟩ | ⟨_, _, _, rfl⟩⟩ := setEntry_eq_ok_iff.mp performed
  · exact setSheet found (fun e has => ⟨e, has, .refl e⟩) rfl
  · exact setSheet found (fun e has => ⟨e, has, .refl e⟩) rfl

/-- What is added at the end has no place that was taken. -/
theorem push {sheet : Sheet} (sheets : s'.sheets = s.sheets.push sheet)
    (contexts : s'.contexts = s.contexts) : Spares index place s s' := by
  have kept {position : Nat} {old : Sheet} (found : s.sheets[position]? = some old) :
      s'.sheets[position]? = some old := by
    obtain ⟨below, _⟩ := Array.getElem?_eq_some_iff.mp found
    rw [sheets, Array.getElem?_push, if_neg (Nat.ne_of_lt below), found]
  refine ⟨fun e there => ⟨e, ?_, .refl e⟩, fun id named => ?_⟩
  · obtain ⟨old, found, has⟩ := Option.bind_eq_some_iff.mp there
    exact engine?_eq_some (kept found) has
  · cases place with
    | own position =>
      obtain ⟨old, found, has⟩ := Option.bind_eq_some_iff.mp named
      rw [identity?, kept found]
      exact has
    | extra position => rwa [identity?, contexts]

theorem addContext (locals : Locals) (printed : Array String) :
    Spares index place s (s.addContext locals printed).2 := by
  refine ⟨fun e there => ⟨e, there, .refl e⟩, fun id named => ?_⟩
  cases place with
  | own position => exact named
  | extra position =>
    obtain ⟨c, found, rfl⟩ := Option.map_eq_some_iff.mp named
    obtain ⟨below, _⟩ := Array.getElem?_eq_some_iff.mp found
    simp only [identity?, Session.addContext, Array.getElem?_push, if_neg (Nat.ne_of_lt below),
      found, Option.map_some]

end Spares

section Answered

variable {addr : InputAddr} {value : Value} {epoch : Epoch} {limit : Nat} {command : Command}

/-- The engine that a command reads for the context has served it. -/
theorem Answered.serves (h : s.Answered index place addr value epoch) {m : Machine}
    (there : s.engine? index = some m.engine) (named : s.identity? place = some m.context.id) :
    m.engine.serves = some m.context.id := by
  obtain ⟨e, id, there', named', answered, _⟩ := h
  obtain rfl := Option.some.inj (there'.symm.trans there)
  rw [answered.serves, ← named', named]

/-- A calm command leaves the answer as it is. -/
theorem Answered.calm (h : s.Answered index (.named index context) addr value epoch)
    (calm : command.Calm context)
    (performed : s.perform limit index command = .ok (reply, s')) :
    s'.Answered index (.named index context) addr value epoch := by
  refine h.spared ?_
  cases command with dsimp only [Session.perform] at performed
  | getValue other named =>
    obtain rfl : named = context := calm
    refine .onMachine ?_ performed
    intro m _ m' there named acted
    obtain ⟨-, rfl⟩ := Prod.mk.inj (Option.some.inj acted)
    exact ⟨rfl, congrArg Context.id (m.engine.context_getValue other m.context),
      Engine.undisturbed_getValue (h.serves there named) other⟩
  | pullOutput other named =>
    obtain rfl : some named = context := calm
    refine .onMachine ?_ performed
    intro m _ m' there named acted
    obtain ⟨-, rfl⟩ := Prod.mk.inj (Option.some.inj acted)
    exact ⟨rfl, congrArg Context.id (m.engine.context_pullOutput other m.context),
      Engine.undisturbed_pullOutput (h.serves there named) other⟩
  | add node =>
    refine .change ?_ performed
    intro sheet _ sheet' acted
    obtain ⟨-, rfl⟩ := Prod.mk.inj (Except.ok.inj acted)
    exact ⟨sheet.spares_add node, sheet.identity?_add node⟩
  | copyNode id target => exact .copyNode performed
  | links | successors _ | size | node _ | nodes =>
    obtain ⟨_, rfl⟩ := ask_eq_ok_iff.mp performed
    exact .refl index _ s'
  | copySheet =>
    split at performed
    · cases performed
    · obtain ⟨-, rfl⟩ := Prod.mk.inj (Except.ok.inj performed)
      exact .push rfl rfl
  | openSheet kind config =>
    obtain ⟨-, rfl⟩ := Prod.mk.inj (Except.ok.inj performed)
    exact .push rfl rfl
  | setEntry id => exact .setEntry limit performed
  | entry =>
    obtain ⟨p, p', found, acted, rfl⟩ := onProgram_eq_ok_iff.mp performed
    obtain ⟨-, rfl⟩ := Prod.mk.inj (Option.some.inj acted)
    exact .setSheet found (fun e has => ⟨e, has, .refl e⟩) rfl
  | outputValue _ | marker | hitRatio | config =>
    exact .onEngine (fun e => ⟨.refl e, rfl⟩) performed
  | resetStatistics | setConfig _ =>
    exact .onEngine (fun e => ⟨.of_graph_eq rfl rfl rfl, rfl⟩) performed
  | newContext =>
    obtain ⟨-, rfl⟩ := Prod.mk.inj (Except.ok.inj performed)
    exact .addContext _ _
  | copyContext _ =>
    split at performed
    · cases performed
    · obtain ⟨-, rfl⟩ := Prod.mk.inj (Except.ok.inj performed)
      exact .addContext _ _
  | setLocal _ _ _ | getLocal _ _ | clearLocals _ | showContext _ | takePrinted _ =>
    exact .onContext (fun _ => rfl) performed
  | _ => exact calm.elim

/-- A change of the wiring that is refused is not made. -/
theorem Answered.refused {fault : Fault} (h : s.Answered index place addr value epoch)
    (rewires : command.Rewires)
    (performed : s.perform limit index command = .ok (.error fault, s')) :
    s'.Answered index place addr value epoch := by
  refine h.spared ?_
  cases command with dsimp only [Session.perform] at performed
  | connect _ | disconnect _ =>
    obtain ⟨_, _, ⟨_, _, _, rfl⟩ | ⟨_, _, _, made, _⟩⟩ := change_eq_ok_iff.mp performed
    · exact .refl index place s'
    · cases made
  | setLiteral target literal =>
    obtain ⟨sheet, e, found, has, refused, rfl⟩ := onEngine_eq_ok_iff.mp performed
    cases set : e.setLiteral target literal with
    | error fault => exact .withEngine found has (.refl e) rfl
    | ok e' =>
      rw [set] at refused
      cases refused
  | _ => exact rewires.elim

/-- Nothing that leaves alone what was read touches the answer. -/
theorem Undisturbed.answered (after : s.Undisturbed index context s')
    (h : s.Answered index (.named index context) addr value epoch) :
    s'.Answered index (.named index context) addr value epoch := by
  induction after with
  | refl => exact h
  | calm _ calm performed ih => exact ih.calm calm performed
  | refused _ rewires performed ih => exact ih.refused rewires performed
  | copied _ performed ih => exact ih.spared (.copyNode performed)

/-- The engine that was put into a graph. -/
theorem engine?_withEngine {e : Engine} (found : s.sheets[index]? = some sheet)
    (has : sheet.engine? = some e) (e' : Engine) :
    (s.setSheet index (sheet.withEngine e')).engine? index = some e' := by
  obtain ⟨below, _⟩ := Array.getElem?_eq_some_iff.mp found
  simp only [Session.engine?, Session.setSheet, Array.getElem?_setIfInBounds_self_of_lt below,
    Option.bind_some]
  cases sheet with
  | wiring g => cases has
  | engine _ => rfl
  | program p => rfl

/-- A read that gave a value has answered it. -/
theorem answered_of_getValue (valid : s.Holds Engine.Valid)
    (read : s.perform limit index (.getValue addr context) = .ok (.ok (.value value), s')) :
    ∃ e', s'.engine? index = some e' ∧
      s'.Answered index (.named index context) addr value e'.epoch := by
  have given {e : Engine} {c : Context}
      (gave : (e.getValue addr c).1.map Reply.value = .ok (.value value)) :
      (e.getValue addr c).1 = .ok value := by
    obtain ⟨_, answered, equal⟩ := map_eq_ok gave
    obtain rfl := Reply.value.inj equal
    exact answered
  dsimp only [Session.perform] at read
  cases context with
  | none =>
    obtain ⟨sheet, e, m', found, has, acted, rfl⟩ := onMachine_own_eq_ok_iff.mp read
    obtain ⟨gave, rfl⟩ := Prod.mk.inj (Option.some.inj acted)
    have after := engine?_withEngine found has
      { (e.getValue addr e.context).2 with context := e.context }
    have answered := Engine.answered_getValue (valid.engine? (engine?_eq_some found has))
      (given gave)
    refine ⟨_, after, _, _, after, ?_, answered.undisturbed (.of_graph_eq rfl rfl rfl), rfl⟩
    rw [identity?_named, context?_own after]
    rfl
  | some extra =>
    obtain ⟨sheet, e, c, m', found, has, place, acted, rfl⟩ := onMachine_extra_eq_ok_iff.mp read
    obtain ⟨gave, rfl⟩ := Prod.mk.inj (Option.some.inj acted)
    obtain ⟨below, _⟩ := Array.getElem?_eq_some_iff.mp place
    have after := engine?_withEngine found has (e.getValue addr c).2
    have answered := Engine.answered_getValue (valid.engine? (engine?_eq_some found has))
      (given gave)
    refine ⟨_, after, _, _, after, ?_, answered, rfl⟩
    simp [identity?_named, Session.context?, below]

/-- What was answered is answered again; at most a hit is counted. -/
theorem Answered.getValue (h : s.Answered index (.named index context) addr value epoch)
    (limit : Nat) : ∃ s' e e',
      s.perform limit index (.getValue addr context) = .ok (.ok (.value value), s') ∧
      s.engine? index = some e ∧ e.epoch = epoch ∧ s'.engine? index = some e' ∧
      (e' = e ∨ e' = e.count Statistics.hit) := by
  obtain ⟨e, id, there, named, answered, now⟩ := h
  rw [identity?_named] at named
  obtain ⟨c, place, same⟩ := Option.map_eq_some_iff.mp named
  obtain ⟨sheet, found, has⟩ := Option.bind_eq_some_iff.mp there
  obtain ⟨e', read, after⟩ : ∃ e', e.getValue addr c = (.ok value, e') ∧
      (e' = e ∨ e' = e.count Statistics.hit) := by
    rcases answered.getValue_eq same with read | read
    · exact ⟨_, read, .inl rfl⟩
    · exact ⟨_, read, .inr rfl⟩
  have there' := engine?_withEngine found has e'
  dsimp only [Session.perform]
  cases context with
  | none =>
    obtain rfl : e.context = c := Option.some.inj ((context?_own there).symm.trans place)
    have own : e'.context = e.context := by rw [← e.context_getValue addr e.context, read]
    refine ⟨_, e, e', onMachine_own_eq_ok_iff.mpr ⟨sheet, e, ⟨e', e'.context⟩, found, has, ?_, rfl⟩,
      there, now, there', after⟩
    simp only [read, own]
    rfl
  | some extra =>
    refine ⟨_, e, e', onMachine_extra_eq_ok_iff.mpr ⟨sheet, e, c, ⟨e', c⟩, found, has, place, ?_,
      rfl⟩, there, now, there', after⟩
    simp only [read]
    rfl

end Answered

/-- A read that gave a value for a context gives the same value again, whatever was done in between
that leaves alone what was read; and the epoch stays, and no node is run. -/
theorem Reachable.reads_repeat {s s₁ s₂ : Session} (reachable : s.Reachable) {limit index : Nat}
    {addr : InputAddr} {context : Option Nat} {value : Value}
    (read : s.perform limit index (.getValue addr context) = .ok (.ok (.value value), s₁))
    (after : s₁.Undisturbed index context s₂) :
    ∃ s₃ e₁ e₂ e₃,
      s₂.perform limit index (.getValue addr context) = .ok (.ok (.value value), s₃) ∧
      s₁.engine? index = some e₁ ∧ s₂.engine? index = some e₂ ∧ s₃.engine? index = some e₃ ∧
      e₂.epoch = e₁.epoch ∧ e₃.epoch = e₂.epoch ∧ e₃.graph = e₂.graph ∧
      e₃.statistics.evaluations = e₂.statistics.evaluations := by
  obtain ⟨e₁, there, answered⟩ := answered_of_getValue (reachable.holds valid_invariant) read
  obtain ⟨s₃, e₂, e₃, again, there₂, epoch, there₃, same | same⟩ :=
    (after.answered answered).getValue limit
  · exact ⟨s₃, e₁, e₂, e₃, again, there, there₂, there₃, epoch, by rw [same], by rw [same],
      by rw [same]⟩
  · refine ⟨s₃, e₁, e₂, e₃, again, there, there₂, there₃, epoch, ?_, ?_, ?_⟩
    · rw [same, Engine.epoch_count]
    · rw [same, Engine.graph_count]
    · rw [same, Engine.count]
      split <;> rfl

/-- Calm commands leave alone what was read, also those that are refused. -/
theorem Undisturbed.script {s s' : Session} {context : Option Nat}
    (h : s.Undisturbed 0 context s') (limit : Nat) {commands : List Command}
    (calm : ∀ command ∈ commands, command.Calm context) :
    s.Undisturbed 0 context (s'.script limit commands) := by
  induction commands generalizing s' with
  | nil => exact h
  | cons command rest ih =>
    have others := fun other member => calm other (List.mem_cons_of_mem command member)
    unfold Session.script
    split
    next performed => exact ih (h.calm (calm command List.mem_cons_self) performed) others
    next => exact ih h others

/-- An order that gave a value, which is displayed so. -/
theorem exists_of_displayed {s : Session} {order : Order} {text : String}
    (shown : displayed (order, s.perform order.limit order.index order.command) = some text) :
    ∃ value, s.perform order.limit order.index order.command =
      .ok (.ok (.value value), s.after order) ∧ value.display = text := by
  unfold Session.after
  generalize s.perform order.limit order.index order.command = outcome at shown ⊢
  unfold displayed at shown
  split at shown
  next gave =>
    obtain ⟨_, rfl⟩ := Prod.mk.inj gave
    exact ⟨_, rfl, Option.some.inj shown⟩
  next => cases shown

/-- The local variable `x`, which is 5, and a sum of it and of the sum itself. -/
def accumulating : Session :=
  script 0 [.openSheet .engine {}, .add (Node.getLocal "x"),
    .add (Node.ofKind (.pure (.binary (.arithmetic .add)))), .connect ⟨⟨0, 0⟩, ⟨1, 0⟩⟩,
    .connect ⟨⟨1, 0⟩, ⟨1, 1⟩⟩, .newContext, .setLocal "x" (.int 5) (some 0)] {}

/-- The sum is read again after the variable was changed, but in the same epoch. -/
theorem reads_repeat_accumulating :
    let read : Order := ⟨0, 0, .getValue ⟨1, 1⟩ (some 0)⟩
    let between := [.setLocal "x" (.int 7) (some 0), .getValue ⟨1, 0⟩ (some 0),
      .getValue ⟨9, 0⟩ (some 0), .pullOutput ⟨0, 0⟩ 0, .add (Node.getLocal "y")]
    let s₂ := (accumulating.after read).script 0 between
    accumulating.Reachable ∧ (accumulating.after read).Undisturbed 0 (some 0) s₂ ∧
      ∃ value s₃, value.display = "5" ∧
        accumulating.perform 0 0 read.command = .ok (.ok (.value value), accumulating.after read) ∧
        s₂.perform 0 0 read.command = .ok (.ok (.value value), s₃) := by
  intro read between s₂
  have reachable : accumulating.Reachable := Reachable.empty.script 0 (by decide +kernel)
  have undisturbed : (accumulating.after read).Undisturbed 0 (some 0) s₂ :=
    Undisturbed.refl.script 0 (by simp [between, Command.Calm])
  have shown : displayed (read, accumulating.perform 0 0 read.command) = some "5" := by
    decide +kernel
  obtain ⟨value, first, display⟩ := exists_of_displayed shown
  obtain ⟨s₃, _, _, _, again, _⟩ := Reachable.reads_repeat reachable first undisturbed
  exact ⟨reachable, undisturbed, value, s₃, display, first, again⟩

end Session

end NodeGraph
