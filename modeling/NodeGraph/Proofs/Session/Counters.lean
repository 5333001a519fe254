import NodeGraph.Proofs.Engine.Misses
import NodeGraph.Proofs.Run.Course
import NodeGraph.Proofs.Session.Identity
import NodeGraph.Proofs.Session.Numbers

/-!
# The counters of a session

Every command leads every engine of the session along a course of moves, and only few commands do
more than open epochs, make things stale and read (`Session.Permits`). So the laws of courses hold
of every graph of every session: the counts of evaluations agree, a run opens as many epochs as it
makes steps, the numbers of epochs start again no more often than everything is made stale, and
within an epoch no connected input is missed twice (`Session.Attainable.counters`).
-/

namespace NodeGraph

namespace Engine

variable {permits : Move → Prop} {e e' : Engine}

/-- From one engine to the other on a course of moves that are permitted. -/
def Gets (permits : Move → Prop) (e e' : Engine) : Prop := ∃ openings, e.Goes permits openings e'

namespace Gets

variable {e'' : Engine}

theorem refl (e : Engine) : e.Gets permits e := ⟨0, .refl e⟩

theorem of_moves {move : Move} (moves : e.Moves move e') (permitted : permits move) :
    e.Gets permits e' := ⟨_, .of_moves moves permitted⟩

theorem trans (h : e.Gets permits e') (h' : e'.Gets permits e'') : e.Gets permits e'' := by
  obtain ⟨first, goes⟩ := h
  obtain ⟨others, goes'⟩ := h'
  exact ⟨first + others, goes.trans goes'⟩

theorem mono {allows : Move → Prop} (h : e.Gets permits e')
    (sub : ∀ move, permits move → allows move) : e.Gets allows e' := by
  obtain ⟨openings, goes⟩ := h
  exact ⟨openings, goes.mono sub⟩

/-- What is beside the graph is changed. -/
theorem beside (stays : permits .stays) (e : Engine) (context : Context) (marker : Option Nat)
    (journal : Array Event) : e.Gets permits { e with context, marker, journal } :=
  of_moves (.beside context marker journal) stays

end Gets

/-- A context is served in this epoch or in a new one. -/
theorem gets_serve (e : Engine) (context : Nat) : e.Gets Move.Evaluates (e.serve context) := by
  unfold serve
  split
  next unserved => exact .of_moves (.serves context unserved) trivial
  next other serves =>
    split
    · exact .refl e
    · have logged : e.Gets Move.Evaluates (e.log (.contextChanged e.epoch.number)) :=
        .beside trivial e e.context e.marker _
      have opened := logged.trans (.of_moves .opens trivial)
      exact opened.trans (.of_moves (.serves context (serves_openEpoch _)) trivial)

theorem gets_getValue (e : Engine) (addr : InputAddr) (context : Context) :
    e.Gets Move.Evaluates (e.getValue addr context).2 := by
  unfold getValue
  split
  · exact .refl e
  · exact (gets_serve e context.id).trans (.of_moves (.reads context.locals addr) trivial)

theorem gets_pullOutput (e : Engine) (addr : OutputAddr) (context : Context) :
    e.Gets Move.Evaluates (e.pullOutput addr context).2 := by
  unfold pullOutput
  split
  · exact .refl e
  · exact (gets_serve e context.id).trans (.of_moves (.refreshes context.locals addr.node) trivial)

/-- What requests do after a new epoch was opened for them. -/
theorem gets_collect {α : Type} {f : α → Engine → Except Fault Value × Engine}
    (goes : ∀ a (e : Engine), e.Gets Move.Evaluates (f a e).2) (requests : List α) (e : Engine) :
    e.Gets Move.Evaluates (collect f requests e.openEpoch).2 := by
  have opened : e.Gets Move.Evaluates e.openEpoch := .of_moves .opens trivial
  exact EngineInvariant.collect (P := fun e' => e.Gets Move.Evaluates e')
    (fun a e' before => before.trans (goes a e')) requests opened

/-- A run of the engine, for whatever context, also when its first node is missing. -/
theorem gets_execute {limit : Nat} {m m' : Machine} {start : NodeId} {result : Except Fault NodeId}
    (valid : m.engine.Valid) (executed : m.execute limit start = some (result, m')) :
    m.engine.Gets Move.Evaluates m'.engine := by
  cases result with
  | ok last => exact ⟨_, Machine.goes_of_execute valid executed⟩
  | error fault =>
    unfold Machine.execute at executed
    split at executed
    · obtain ⟨-, rfl⟩ := Prod.mk.inj (Option.some.inj executed)
      exact .refl _
    · obtain ⟨_, _, result⟩ := Option.map_eq_some_iff.mp executed
      cases result

theorem gets_executeOwn {limit : Nat} {start : NodeId} {result : Except Fault NodeId}
    (valid : e.Valid) (executed : e.execute limit start = some (result, e')) :
    e'.Valid ∧ e.Gets Move.Evaluates e' := by
  refine ⟨(works_executeOwn valid executed).1, ?_⟩
  obtain ⟨⟨result, m⟩, ended, equal⟩ := Option.map_eq_some_iff.mp executed
  obtain ⟨-, rfl⟩ := Prod.mk.inj equal
  have ran := gets_execute (m := ⟨e, e.context⟩) valid ended
  exact ran.trans (.beside trivial _ m.context _ _)

/-- Runs after which others may follow. -/
theorem gets_executeAfter {limit : Nat} {first : Engine} : ∀ {e e' : Engine} {start : NodeId}
    {result : Except Fault NodeId}, (e.Valid ∧ first.Gets Move.Evaluates e) →
      e.execute limit start = some (result, e') → e'.Valid ∧ first.Gets Move.Evaluates e' := by
  rintro e e' start result ⟨valid, before⟩ executed
  rcases gets_executeOwn valid executed with ⟨valid, gets⟩
  exact ⟨valid, before.trans gets⟩

end Engine

/-- The engine of the sheet, if it has one, goes a permitted course. -/
def Sheet.Gets (permits : Move → Prop) (sheet sheet' : Sheet) : Prop :=
  Option.Rel (Engine.Gets permits) sheet.engine? sheet'.engine?

namespace Sheet

variable {permits : Move → Prop} {sheet sheet' sheet'' : Sheet}

namespace Gets

theorem refl (sheet : Sheet) : sheet.Gets permits sheet := by
  cases sheet with
  | wiring g => exact .none
  | engine e => exact .some (.refl e)
  | program p => exact .some (.refl p.engine)

theorem trans (h : sheet.Gets permits sheet') (h' : sheet'.Gets permits sheet'') :
    sheet.Gets permits sheet'' := by
  unfold Gets at h h' ⊢
  generalize sheet.engine? = before at h ⊢
  generalize sheet'.engine? = between at h h'
  generalize sheet''.engine? = after at h' ⊢
  cases h with
  | none => exact h'
  | some first =>
    cases h' with
    | some others => exact .some (first.trans others)

theorem withEngine {e e' : Engine} (has : sheet.engine? = some e) (gets : e.Gets permits e') :
    sheet.Gets permits (sheet.withEngine e') := by
  rw [Gets, has, engine?_withEngine has]
  exact .some gets

end Gets

theorem gets_add (sheet : Sheet) (node : Node) (adds : permits (.adds node)) :
    sheet.Gets permits (sheet.add node).2 := by
  cases sheet with
  | wiring g => exact .none
  | engine e => exact .some (.of_moves (.adds node) adds)
  | program p => exact .some (.of_moves (.adds node) adds)

theorem gets_connect {link : Link} (connected : sheet.connect link = .ok sheet')
    (invalidates : permits .invalidates) : sheet.Gets permits sheet' := by
  cases sheet with
  | wiring g =>
    obtain ⟨g', _, rfl⟩ := map_eq_ok connected
    exact .none
  | engine e =>
    obtain ⟨e', changed, rfl⟩ := map_eq_ok connected
    exact .some (.of_moves (.connects changed) invalidates)
  | program p =>
    obtain ⟨e', changed, rfl⟩ := map_eq_ok connected
    exact .some (.of_moves (.connects changed) invalidates)

theorem gets_disconnect {target : InputAddr} {source : Option OutputAddr}
    (disconnected : sheet.disconnect target = .ok (source, sheet'))
    (invalidates : permits .invalidates) : sheet.Gets permits sheet' := by
  cases sheet with
  | wiring g =>
    obtain ⟨⟨_, g'⟩, _, equal⟩ := map_eq_ok disconnected
    obtain ⟨rfl, rfl⟩ := Prod.mk.inj equal
    exact .none
  | engine e =>
    obtain ⟨⟨_, e'⟩, changed, equal⟩ := map_eq_ok disconnected
    obtain ⟨rfl, rfl⟩ := Prod.mk.inj equal
    exact .some (.of_moves (.disconnects changed) invalidates)
  | program p =>
    obtain ⟨⟨_, e'⟩, changed, equal⟩ := map_eq_ok disconnected
    obtain ⟨rfl, rfl⟩ := Prod.mk.inj equal
    exact .some (.of_moves (.disconnects changed) invalidates)

theorem gets_addChain (sheet : Sheet) (node : Node) (output input : PortId) (count : Nat)
    (previous : Option NodeId) (adds : permits (.adds node)) (invalidates : permits .invalidates) :
    sheet.Gets permits (sheet.addChain node output input count previous).2 := by
  induction count generalizing sheet previous with
  | zero => exact .refl sheet
  | succ count ih =>
    have added := gets_add sheet node adds
    unfold Sheet.addChain
    dsimp only
    cases previous with
    | none => exact added.trans (ih _ _)
    | some previous =>
      dsimp only
      split
      · exact added
      next connected => exact (added.trans (gets_connect connected invalidates)).trans (ih _ _)

end Sheet

namespace Session

variable {s s' : Session} {index : Nat} {reply : Except Fault Reply}

/-- The command adds the node to the graph at a position. -/
def Brings (s : Session) (index : Nat) (command : Command) (position : Nat) (node : Node) : Prop :=
  match command with
  | .add other | .addChain other _ _ _ => index = position ∧ node = other
  | .copyNode id target => target = position ∧
    ∃ sheet, s.sheets[index]? = some sheet ∧ sheet.graph.node? id = some node
  | _ => False

/-- The moves that the engine at a position may make while the command is carried out. -/
def Permits (s : Session) (index : Nat) (command : Command) (position : Nat) : Move → Prop
  | .opens | .invalidates | .stays => True
  | .adds node => s.Brings index command position node
  | .resets => index = position ∧ command = .resetStatistics
  | .configures config => index = position ∧ command = .setConfig config

/-- The sheet has an empty graph that nothing was counted for, or is a copy of another one. -/
def New (s : Session) (sheet : Sheet) : Prop :=
  ∀ e, sheet.engine? = some e → e.graph = {} ∧ e.statistics = {} ∨
    ∃ position other, s.engine? position = some other ∧ e = { other with context := e.context }

/-- Every engine goes a course of moves that are permitted at its position, and graphs are only
added that are new. -/
structure Gets (permits : Nat → Move → Prop) (s s' : Session) : Prop where
  sheets : ∀ (position : Nat) (sheet : Sheet), s.sheets[position]? = some sheet →
    ∃ sheet', s'.sheets[position]? = some sheet' ∧ sheet.Gets (permits position) sheet'
  added : ∀ (position : Nat) (sheet : Sheet), s.sheets[position]? = none →
    s'.sheets[position]? = some sheet → s.New sheet

namespace Gets

variable {permits : Nat → Move → Prop}

theorem of_sheets (sheets : s'.sheets = s.sheets) : s.Gets permits s' where
  sheets position sheet found := ⟨sheet, by rwa [sheets], .refl sheet⟩
  added position sheet missing found := by
    rw [sheets, missing] at found
    cases found

theorem setSheet {sheet sheet' : Sheet} (found : s.sheets[index]? = some sheet)
    (gets : sheet.Gets (permits index) sheet') (contexts : Array Context) :
    s.Gets permits { s.setSheet index sheet' with contexts } where
  sheets position other place := by
    by_cases same : index = position
    · subst same
      obtain rfl := Option.some.inj (found.symm.trans place)
      obtain ⟨below, _⟩ := Array.getElem?_eq_some_iff.mp found
      exact ⟨sheet', Array.getElem?_setIfInBounds_self_of_lt below, gets⟩
    · exact ⟨other, (Array.getElem?_setIfInBounds_ne same).trans place, .refl other⟩
  added position other missing place := by
    have beyond := Array.getElem?_eq_none_iff.mp missing
    obtain ⟨below, _⟩ := Array.getElem?_eq_some_iff.mp place
    rw [show (s.setSheet index sheet').sheets = s.sheets.setIfInBounds index sheet' from rfl,
      Array.size_setIfInBounds] at below
    exact absurd below (Nat.not_lt.mpr beyond)

/-- A graph that is added changes none of those that are there. -/
theorem push {sheet : Sheet} (new : s.New sheet) (sheets : s'.sheets = s.sheets.push sheet) :
    s.Gets permits s' where
  sheets position other place := by
    obtain ⟨below, _⟩ := Array.getElem?_eq_some_iff.mp place
    refine ⟨other, ?_, .refl other⟩
    rw [sheets, Array.getElem?_push, if_neg (Nat.ne_of_lt below), place]
  added position other missing place := by
    rw [sheets, Array.getElem?_push] at place
    split at place
    · obtain rfl := Option.some.inj place
      exact new
    · rw [missing] at place
      cases place

theorem onEngineWithin {act : Engine → Option (Except Fault Reply × Engine)}
    (goes : ∀ (e : Engine) reply e', s.engine? index = some e → act e = some (reply, e') →
      e.Gets (permits index) e')
    (performed : s.onEngineWithin index act = .ok (reply, s')) : s.Gets permits s' := by
  obtain ⟨sheet, e, e', found, has, acted, rfl⟩ := onEngineWithin_eq_ok_iff.mp performed
  exact setSheet found (.withEngine has (goes e _ e' (engine?_eq_some found has) acted)) _

theorem onEngine {act : Engine → Except Fault Reply × Engine}
    (goes : ∀ e : Engine, e.Gets (permits index) (act e).2)
    (performed : s.onEngine index act = .ok (reply, s')) : s.Gets permits s' := by
  obtain ⟨sheet, e, found, has, _, rfl⟩ := onEngine_eq_ok_iff.mp performed
  exact setSheet found (.withEngine has (goes e)) _

theorem onMachine {context : Option Nat} {act : Machine → Option (Except Fault Reply × Machine)}
    (stays : permits index .stays)
    (goes : ∀ m reply m', s.engine? index = some m.engine → act m = some (reply, m') →
      m.engine.Gets (permits index) m'.engine)
    (performed : s.onMachine index context act = .ok (reply, s')) : s.Gets permits s' := by
  cases context with
  | none =>
    obtain ⟨sheet, e, m', found, has, acted, rfl⟩ := onMachine_own_eq_ok_iff.mp performed
    have ran := goes ⟨e, e.context⟩ _ m' (engine?_eq_some found has) acted
    have back := ran.trans (.beside stays m'.engine m'.context m'.engine.marker m'.engine.journal)
    exact setSheet found (.withEngine has back) _
  | some extra =>
    obtain ⟨sheet, e, c, m', found, has, place, acted, rfl⟩ :=
      onMachine_extra_eq_ok_iff.mp performed
    have ran := goes ⟨e, c⟩ _ m' (engine?_eq_some found has) acted
    exact setSheet found (.withEngine has ran) _

theorem onContext {context : Option Nat} {act : Context → Reply × Context}
    (stays : permits index .stays)
    (performed : s.onContext index context act = .ok (reply, s')) : s.Gets permits s' := by
  refine onMachine stays ?_ performed
  intro m reply m' _ acted
  obtain ⟨-, rfl⟩ := Prod.mk.inj (Option.some.inj acted)
  exact .refl _

theorem onProgram {act : Program → Option (Except Fault Reply × Program)}
    (goes : ∀ p reply p', s.engine? index = some p.engine → act p = some (reply, p') →
      p.engine.Gets (permits index) p'.engine)
    (performed : s.onProgram index act = .ok (reply, s')) : s.Gets permits s' := by
  obtain ⟨p, p', found, acted, rfl⟩ := onProgram_eq_ok_iff.mp performed
  have gets : Sheet.Gets (permits index) (.program p) (.program p') :=
    .some (goes p _ p' (engine?_eq_some found rfl) acted)
  exact setSheet found gets _

theorem change {act : Sheet → Except Fault (Reply × Sheet)}
    (goes : ∀ (sheet : Sheet) reply sheet', act sheet = .ok (reply, sheet') →
      sheet.Gets (permits index) sheet')
    (performed : s.change index act = .ok (reply, s')) : s.Gets permits s' := by
  obtain ⟨sheet, found, ⟨_, _, _, rfl⟩ | ⟨answer, sheet', acted, _, rfl⟩⟩ :=
    change_eq_ok_iff.mp performed
  · exact of_sheets rfl
  · exact setSheet found (goes sheet _ sheet' acted) _

theorem relabel (limit : Nat) {id : NodeId} {newId : Option NodeId} {title : Option String}
    (performed : s.perform limit index (.relabel id newId title) = .ok (reply, s')) :
    s.Gets permits s' := by
  obtain ⟨g, found, ⟨_, _, _, rfl⟩ | ⟨g', _, _, rfl⟩⟩ := relabel_eq_ok_iff.mp performed
  · exact of_sheets rfl
  · have gets : Sheet.Gets (permits index) (.wiring g) (.wiring g') := .none
    exact setSheet found gets s.contexts

theorem setEntry (limit : Nat) {id : NodeId}
    (performed : s.perform limit index (.setEntry id) = .ok (reply, s')) : s.Gets permits s' := by
  obtain ⟨p, found, ⟨_, _, _, rfl⟩ | ⟨_, _, _, rfl⟩⟩ := setEntry_eq_ok_iff.mp performed
  · exact setSheet found (.refl _) s.contexts
  · have gets : Sheet.Gets (permits index) (.program p) (.program { p with entry := some id }) :=
      .some (.refl p.engine)
    exact setSheet found gets s.contexts

end Gets

theorem permits_of_evaluates {command : Command} {position : Nat} (move : Move)
    (evaluates : move.Evaluates) : s.Permits index command position move := by
  cases move with
  | opens => trivial
  | stays => trivial
  | _ => exact evaluates.elim

/-- Every command leads every engine along a course of permitted moves. -/
theorem gets_perform (valid : ∀ {e}, s.engine? index = some e → e.Valid) {limit : Nat}
    {command : Command}
    (performed : s.perform limit index command = .ok (reply, s')) :
    s.Gets (s.Permits index command) s' := by
  have evaluates {e e' : Engine} (gets : e.Gets Move.Evaluates e') :
      e.Gets (s.Permits index command index) e' := gets.mono permits_of_evaluates
  cases command with dsimp only [Session.perform] at performed
  | add node =>
    refine .change ?_ performed
    intro sheet _ sheet' acted
    obtain ⟨-, rfl⟩ := Prod.mk.inj (Except.ok.inj acted)
    exact sheet.gets_add node ⟨rfl, rfl⟩
  | addChain node count output input =>
    split at performed
    · cases performed
    next sheet found =>
      obtain ⟨-, rfl⟩ := Prod.mk.inj (Except.ok.inj performed)
      exact .setSheet found (sheet.gets_addChain node _ _ _ _ ⟨rfl, rfl⟩ trivial) _
  | copyNode id target =>
    obtain ⟨sheet, other, found, there, ⟨_, _, _, rfl⟩ | ⟨node, place, _, rfl⟩⟩ :=
      copyNode_eq_ok_iff.mp performed
    · exact .of_sheets rfl
    · exact .setSheet there
        (other.gets_add node ⟨rfl, sheet, found, Graph.node_eq_ok_iff.mp place⟩) _
  | connect link =>
    refine .change ?_ performed
    intro sheet _ sheet' acted
    obtain ⟨after, connected, equal⟩ := map_eq_ok acted
    obtain ⟨-, rfl⟩ := Prod.mk.inj equal
    exact Sheet.gets_connect connected trivial
  | disconnect target =>
    refine .change ?_ performed
    intro sheet _ sheet' acted
    obtain ⟨⟨source, after⟩, disconnected, equal⟩ := map_eq_ok acted
    obtain ⟨-, rfl⟩ := Prod.mk.inj equal
    exact Sheet.gets_disconnect disconnected trivial
  | setLiteral addr value =>
    refine .onEngine ?_ performed
    intro e
    cases set : e.setLiteral addr value with
    | error fault => exact .refl e
    | ok e' => exact .of_moves (.sets set) trivial
  | links | successors addr | size | node id | nodes =>
    obtain ⟨_, rfl⟩ := ask_eq_ok_iff.mp performed
    exact .of_sheets rfl
  | relabel id newId title => exact .relabel limit performed
  | copySheet =>
    split at performed
    · cases performed
    next sheet found =>
      obtain ⟨-, rfl⟩ := Prod.mk.inj (Except.ok.inj performed)
      refine .push ?_ rfl
      intro e copied
      cases has : sheet.engine? with
      | none => simp [has] at copied
      | some other =>
        rw [has] at copied
        rw [← Option.some.inj ((Sheet.engine?_withEngine has _).symm.trans copied)]
        exact .inr ⟨index, other, engine?_eq_some found has, rfl⟩
  | openSheet kind config =>
    obtain ⟨-, rfl⟩ := Prod.mk.inj (Except.ok.inj performed)
    refine .push ?_ rfl
    intro e has
    cases kind with
    | wiring => cases has
    | engine | program =>
      obtain rfl := Option.some.inj has
      exact .inl ⟨rfl, rfl⟩
  | execute start context =>
    refine .onMachine trivial ?_ performed
    intro m _ m' there acted
    obtain ⟨⟨result, after⟩, executed, equal⟩ := Option.map_eq_some_iff.mp acted
    obtain ⟨-, rfl⟩ := Prod.mk.inj equal
    exact evaluates (Engine.gets_execute (valid there) executed)
  | executeNodes ids =>
    refine .onEngineWithin ?_ performed
    intro e _ e' there acted
    obtain ⟨⟨result, after⟩, executed, equal⟩ := Option.map_eq_some_iff.mp acted
    obtain ⟨-, rfl⟩ := Prod.mk.inj equal
    exact evaluates (Engine.executeNodes_keeps
      (P := fun e' => e'.Valid ∧ e.Gets Move.Evaluates e') ⟨valid there, .refl e⟩
      Engine.gets_executeAfter executed).2
  | executeOutputs addrs =>
    refine .onEngineWithin ?_ performed
    intro e _ e' there acted
    obtain ⟨⟨result, after⟩, executed, equal⟩ := Option.map_eq_some_iff.mp acted
    obtain ⟨-, rfl⟩ := Prod.mk.inj equal
    exact evaluates (Engine.executeOutputs_keeps
      (P := fun e' => e'.Valid ∧ e.Gets Move.Evaluates e') ⟨valid there, .refl e⟩
      Engine.gets_executeAfter executed).2
  | setEntry id => exact .setEntry limit performed
  | entry =>
    refine .onProgram ?_ performed
    intro p _ p' _ acted
    obtain ⟨-, rfl⟩ := Prod.mk.inj (Option.some.inj acted)
    exact .refl _
  | run =>
    refine .onProgram ?_ performed
    intro p _ p' there acted
    obtain ⟨⟨result, after⟩, ran, equal⟩ := Option.map_eq_some_iff.mp acted
    obtain ⟨-, rfl⟩ := Prod.mk.inj equal
    unfold Program.run at ran
    split at ran
    · obtain ⟨-, rfl⟩ := Prod.mk.inj (Option.some.inj ran)
      exact .beside trivial _ _ _ _
    · obtain ⟨⟨result, e⟩, executed, equal⟩ := Option.map_eq_some_iff.mp ran
      obtain ⟨-, rfl⟩ := Prod.mk.inj equal
      exact evaluates (Engine.gets_executeOwn (valid there) executed).2
  | getValue addr context =>
    refine .onMachine trivial ?_ performed
    intro m _ m' _ acted
    obtain ⟨-, rfl⟩ := Prod.mk.inj (Option.some.inj acted)
    exact evaluates (m.engine.gets_getValue addr m.context)
  | outputValue addr => exact .onEngine (fun e => .refl e) performed
  | pullOutput addr context =>
    refine .onMachine trivial ?_ performed
    intro m _ m' _ acted
    obtain ⟨-, rfl⟩ := Prod.mk.inj (Option.some.inj acted)
    exact evaluates (m.engine.gets_pullOutput addr m.context)
  | getValues addrs =>
    exact .onEngine (fun e => evaluates (Engine.gets_collect
      (fun addr e => e.gets_getValue addr e.context) addrs e)) performed
  | pullOutputs addrs =>
    exact .onEngine (fun e => evaluates (Engine.gets_collect
      (fun addr e => e.gets_pullOutput addr e.context) addrs e)) performed
  | openEpoch =>
    refine .onEngine (fun e => ?_) performed
    exact .of_moves .opens trivial
  | invalidate =>
    refine .onEngine (fun e => ?_) performed
    exact .of_moves .invalidates trivial
  | invalidateOnce marker =>
    refine .onEngine ?_ performed
    intro e
    unfold Engine.invalidateOnce
    split
    · exact .refl e
    · exact (Engine.Gets.of_moves .invalidates trivial).trans (.beside trivial _ _ _ _)
  | marker | hitRatio | config => exact .onEngine (fun e => .refl e) performed
  | resetStatistics =>
    refine .onEngine (fun e => ?_) performed
    exact .of_moves .resets ⟨rfl, rfl⟩
  | setConfig config =>
    refine .onEngine (fun e => ?_) performed
    exact .of_moves (.configures config) ⟨rfl, rfl⟩
  | newContext =>
    obtain ⟨-, rfl⟩ := Prod.mk.inj (Except.ok.inj performed)
    exact .of_sheets rfl
  | copyContext context =>
    split at performed
    · cases performed
    · obtain ⟨-, rfl⟩ := Prod.mk.inj (Except.ok.inj performed)
      exact .of_sheets rfl
  | swapContext extra =>
    obtain ⟨sheet, e, c, found, has, _, _, rfl⟩ := swapContext_eq_ok_iff.mp performed
    exact .setSheet found (.withEngine has (.beside trivial e c e.marker e.journal)) _
  | setLocal name value context | getLocal name context | clearLocals context
  | showContext context | takePrinted context => exact .onContext trivial performed

theorem gets_takeJournal (s : Session) (index : Nat) (permits : Nat → Move → Prop)
    (stays : permits index .stays) : s.Gets permits (s.takeJournal index).2 := by
  unfold Session.takeJournal
  split
  · exact .of_sheets rfl
  next sheet found =>
    split
    · exact .of_sheets rfl
    next e has =>
      exact .setSheet found (.withEngine has (.beside stays e e.context e.marker #[])) s.contexts

namespace Gets

variable {permits : Nat → Move → Prop} {position : Nat} {e e' : Engine}

theorem engine? (h : s.Gets permits s') (there : s.engine? position = some e) :
    ∃ e', s'.engine? position = some e' ∧ e.Gets (permits position) e' := by
  obtain ⟨sheet, found, has⟩ := Option.bind_eq_some_iff.mp there
  obtain ⟨sheet', found', gets⟩ := h.sheets position sheet found
  rw [Sheet.Gets, has] at gets
  generalize has' : sheet'.engine? = after at gets
  cases gets with
  | some gets => exact ⟨_, engine?_eq_some found' has', gets⟩

/-- An engine was there before, or it is new. -/
theorem cases (h : s.Gets permits s') (there : s'.engine? position = some e') :
    (∃ e, s.engine? position = some e ∧ e.Gets (permits position) e') ∨
      (e'.graph = {} ∧ e'.statistics = {} ∨
        ∃ position other, s.engine? position = some other ∧
          e' = { other with context := e'.context }) := by
  obtain ⟨sheet', found', has'⟩ := Option.bind_eq_some_iff.mp there
  cases found : s.sheets[position]? with
  | none => exact .inr (h.added position sheet' found found' e' has')
  | some sheet =>
    obtain ⟨after, place, gets⟩ := h.sheets position sheet found
    obtain rfl := Option.some.inj (found'.symm.trans place)
    rw [Sheet.Gets, has'] at gets
    generalize has : sheet.engine? = before at gets
    cases gets with
    | some gets => exact .inl ⟨_, engine?_eq_some found has, gets⟩

end Gets

theorem engine?_setEngine {sheet : Sheet} {e : Engine} (found : s.sheets[index]? = some sheet)
    (has : sheet.engine? = some e) (e' : Engine) (position : Nat) :
    (s.setSheet index (sheet.withEngine e')).engine? position =
      if index = position then some e' else s.engine? position := by
  obtain ⟨below, _⟩ := Array.getElem?_eq_some_iff.mp found
  unfold Session.engine? Session.setSheet
  by_cases same : index = position
  · subst same
    simp [below, Sheet.engine?_withEngine has]
  · simp [same]

/-- Where the counter is placed, nothing is counted. -/
theorem engine?_placeEpoch {position : Nat} {e' : Engine} {number : Int}
    (there : (s.placeEpoch index number).engine? position = some e') :
    ∃ e, s.engine? position = some e ∧ e'.statistics = e.statistics := by
  unfold Session.placeEpoch at there
  split at there
  · exact ⟨e', there, rfl⟩
  next sheet found =>
    split at there
    · exact ⟨e', there, rfl⟩
    next e has =>
      rw [engine?_setEngine found has] at there
      split at there
      next same =>
        subst same
        obtain rfl := Option.some.inj there
        exact ⟨e, engine?_eq_some found has, rfl⟩
      · exact ⟨e', there, rfl⟩

theorem Attainable.valid (attainable : s.Attainable) {position : Nat} {e : Engine}
    (there : s.engine? position = some e) : e.Valid ∧ e.InRange := by
  obtain ⟨sheet, found, has⟩ := Option.bind_eq_some_iff.mp there
  exact (attainable.holds position sheet found).of_engine? has

/-- No graph of a session has started its numbers again more often than it was made stale. -/
theorem Attainable.wraps_le (attainable : s.Attainable) {position : Nat} {e : Engine}
    (there : s.engine? position = some e) : e.statistics.wraps ≤ e.statistics.invalidations := by
  have gets {s s' : Session} {permits : Nat → Move → Prop} (gets : s.Gets permits s')
      (ih : ∀ {position e}, s.engine? position = some e →
        e.statistics.wraps ≤ e.statistics.invalidations)
      {position : Nat} {e : Engine} (there : s'.engine? position = some e) :
      e.statistics.wraps ≤ e.statistics.invalidations := by
    rcases gets.cases there with
      ⟨before, found, _, moves, course, _⟩ | ⟨_, new⟩ | ⟨position, other, found, copied⟩
    · exact course.wraps_le (ih found)
    · rw [new]
    · have same := congrArg Engine.statistics copied
      dsimp only at same
      rw [same]
      exact ih found
  induction attainable generalizing position e with
  | empty => simp [Session.engine?] at there
  | perform reached laid performed ih =>
    exact gets (gets_perform (fun found => (reached.valid found).1) performed) ih there
  | takeJournal index _ ih =>
    exact gets (gets_takeJournal _ index (fun _ _ => True) trivial) ih there
  | placeEpoch _ _ _ _ ih =>
    obtain ⟨before, found, same⟩ := engine?_placeEpoch there
    rw [same]
    exact ih found

/-- The sessions in which the graph at a position is one that counts and was never reset, built from
nodes that never ran. -/
inductive Counted : Nat → Session → Prop where
  | opened {s : Session} {kind : SheetKind} {config : Config} : s.Attainable → kind ≠ .wiring →
    config.collectStatistics = true → Counted s.sheets.size (s.openSheet kind config).2
  | copied {s : Session} {position : Nat} {sheet : Sheet} : Counted position s →
    s.sheets[position]? = some sheet → Counted s.sheets.size (s.copySheet sheet).2
  | perform {s s' : Session} {limit index position : Nat} {command : Command}
      {reply : Except Fault Reply} : Counted position s → command.LaidOut →
    s.perform limit index command = .ok (reply, s') →
    (∀ move, s.Permits index command position move → move.Counts ∧ move.brought = 0) →
    Counted position s'
  | takeJournal {s : Session} {position : Nat} (index : Nat) : Counted position s →
    Counted position (s.takeJournal index).2

theorem Counted.attainable {position : Nat} (counted : Counted position s) : s.Attainable := by
  induction counted with
  | @opened s kind config attainable _ _ =>
    have laid : (Command.openSheet kind config).LaidOut := fun node member => by cases member
    exact @Attainable.perform s _ 0 0 _ (.ok (.index s.sheets.size)) attainable laid rfl
  | @copied s position sheet _ found ih =>
    have laid : Command.copySheet.LaidOut := fun node member => by cases member
    exact ih.perform laid (perform_copySheet found 0)
  | perform _ laid performed _ ih => exact ih.perform laid performed
  | takeJournal index _ ih => exact ih.takeJournal index

/-- The graph counts, and its nodes have run as often as was counted. -/
def Agrees (s : Session) (position : Nat) : Prop :=
  ∃ e, s.engine? position = some e ∧ e.config.collectStatistics = true ∧
    e.statistics.evaluations = e.graph.evaluationCount

/-- Where nothing is reset and no runs are brought along, the counts go on agreeing. -/
theorem Gets.agrees {permits : Nat → Move → Prop} (gets : s.Gets permits s') {position : Nat}
    (counts : ∀ move, permits position move → move.Counts ∧ move.brought = 0)
    (agrees : s.Agrees position) : s'.Agrees position := by
  obtain ⟨e, there, collects, equal⟩ := agrees
  obtain ⟨e', there', _, moves, course, permitted, _⟩ := gets.engine? there
  have counting : ∀ move ∈ moves, move.Counts ∧ move.brought = 0 :=
    fun move member => counts move (permitted move member)
  have law := course.evaluations_eq counting collects
  refine ⟨e', there', course.collects (fun move member => (counting move member).1) collects, ?_⟩
  omega

/-- In such a graph the nodes have run as often as was counted. -/
theorem Counted.agrees {position : Nat} (counted : Counted position s) : s.Agrees position := by
  induction counted with
  | @opened s kind config attainable evaluates collects =>
    cases kind with
    | wiring => exact absurd rfl evaluates
    | engine => exact ⟨_, engine?_eq_some Array.getElem?_push_size rfl, collects, rfl⟩
    | program => exact ⟨_, engine?_eq_some Array.getElem?_push_size rfl, collects, rfl⟩
  | @copied s position sheet counted found ih =>
    obtain ⟨e, there, collects, equal⟩ := ih
    obtain ⟨other, place, has⟩ := Option.bind_eq_some_iff.mp there
    obtain rfl := Option.some.inj (found.symm.trans place)
    exact ⟨_, engine?_copySheet s has, collects, equal⟩
  | @perform s s' _ index position command _ counted _ performed counts ih =>
    have gets := gets_perform (fun found => (counted.attainable.valid found).1) performed
    exact gets.agrees counts ih
  | @takeJournal s position index _ ih =>
    have gets := gets_takeJournal s index (fun _ move => move = .stays) rfl
    refine gets.agrees (fun move stays => ?_) ih
    subst stays
    exact ⟨trivial, rfl⟩

/-- The command neither adds a node to the graph at a position nor resets or configures it. -/
structure Neutral (s : Session) (index : Nat) (command : Command) (position : Nat) : Prop where
  brings : ∀ node, ¬ s.Brings index command position node
  resets : index = position → command ≠ .resetStatistics
  configures : index = position → ∀ config, command ≠ .setConfig config

theorem Neutral.counts {command : Command} {position : Nat}
    (neutral : s.Neutral index command position) {move : Move}
    (permitted : s.Permits index command position move) : move.Counts ∧ move.brought = 0 := by
  cases move with
  | opens | invalidates | stays => exact ⟨trivial, rfl⟩
  | adds node => exact absurd permitted (neutral.brings node)
  | resets => exact absurd permitted.2 (neutral.resets permitted.1)
  | configures config => exact absurd permitted.2 (neutral.configures permitted.1 config)

/-- The counters of every graph add up. Its numbers start again no more often than it is made stale.
If it counts, was never reset and was built from nodes that never ran, then its nodes have run as
often as was counted; and every command but those that add nodes to it, reset or configure it keeps
the difference of the two. A run that ends opens one epoch for each of its steps. And whatever is
done to the graph, no connected input is missed twice within an epoch, while the pure nodes are
wired without cycles: the misses are as many as the inputs that become current. -/
theorem Attainable.counters (attainable : s.Attainable) {position : Nat} {e : Engine}
    (there : s.engine? position = some e) :
    e.statistics.wraps ≤ e.statistics.invalidations ∧
    (s.Counted position → e.statistics.evaluations = e.graph.evaluationCount) ∧
    (∀ {limit index : Nat} {command : Command} {reply : Except Fault Reply} {s' : Session},
      s.perform limit index command = .ok (reply, s') →
      ∃ e' moves, s'.engine? position = some e' ∧ e.Course moves e' ∧
        (∀ move ∈ moves, s.Permits index command position move) ∧
        (e.config.collectStatistics = true → s.Neutral index command position →
          e'.statistics.evaluations + e.graph.evaluationCount =
            e.statistics.evaluations + e'.graph.evaluationCount)) ∧
    (∀ {limit : Nat} {c : Context} {start last : NodeId} {m' : Machine},
      Machine.execute limit ⟨e, c⟩ start = some (.ok last, m') →
      ∃ moves, e.Course moves m'.engine ∧ (∀ move ∈ moves, move = .opens ∨ move = .stays) ∧
        (moves.map Move.openings).sum = (Run.visits limit (Run.start ⟨e, c⟩ start)).length ∧
        m'.engine.epoch.number =
          (e.epoch.number + (Run.visits limit (Run.start ⟨e, c⟩ start)).length) % 2 ^ 63) ∧
    (∀ {before within : List Move} {e₁ e₂ : Engine}, e.Course before e₁ → e₁.Course within e₂ →
      (∀ move ∈ within, move.Lingers) → e₁.config.collectStatistics = true →
      e₂.graph.Acyclic → ∃ missed, Engine.Misses missed e₁ e₂) := by
  obtain ⟨valid, range⟩ := attainable.valid there
  have numbered : e.Numbered := ⟨range.last, valid.nonneg, range.le⟩
  refine ⟨attainable.wraps_le there, fun counted => ?_, fun performed => ?_, fun executed => ?_,
    fun first course lingers collects acyclic => ?_⟩
  · obtain ⟨other, found, _, equal⟩ := counted.agrees
    obtain rfl := Option.some.inj (there.symm.trans found)
    exact equal
  · have gets := gets_perform (fun found => (attainable.valid found).1) performed
    obtain ⟨e', found, _, moves, course, permitted, _⟩ := gets.engine? there
    refine ⟨e', moves, found, course, permitted, fun collects neutral => ?_⟩
    exact course.evaluations_eq (fun move member => neutral.counts (permitted move member)) collects
  · obtain ⟨moves, course, evaluates, count⟩ := Machine.goes_of_execute valid executed
    refine ⟨moves, course, fun move member => ?_, count, ?_⟩
    · have kind := evaluates move member
      cases move with
      | opens => exact .inl rfl
      | stays => exact .inr rfl
      | _ => exact kind.elim
    · rw [← count]
      exact (course.numbered numbered).2
  · exact course.misses lingers acyclic (first.numbered numbered).1.nonneg collects

/-- A run of one step after the last number of the counter. -/
theorem counters_exhausted : ∃ e m', Engine.exhausted.engine? 0 = some e ∧
    e.epoch.number = Epoch.lastNumber ∧
    Machine.execute 9 ⟨e, e.context⟩ 1 = some (.ok 1, m') ∧ m'.engine.epoch.number = 0 := by
  have opened : (Session.script 0 [.openSheet .engine {}] {}).Attainable :=
    Attainable.empty.script 0 (by decide +kernel)
  have placed := @Attainable.placeEpoch _ 0 _ opened (by decide +kernel) (by decide +kernel)
    (Int.le_refl Epoch.lastNumber)
  have attainable : Engine.exhausted.Attainable := placed.script 0 (by decide +kernel)
  have there : (Engine.exhausted.engine? 0).isSome = true := by decide +kernel
  obtain ⟨e, has⟩ := Option.isSome_iff_exists.mp there
  have runs : ∀ e ∈ Engine.exhausted.engine? 0, e.epoch.number = Epoch.lastNumber ∧
      (Machine.execute 9 ⟨e, e.context⟩ 1).map (·.1.toOption) = some (some 1) ∧
      (Run.visits 9 (Run.start ⟨e, e.context⟩ 1)).length = 1 := by
    decide +kernel
  obtain ⟨number, ran, steps⟩ := runs e has
  obtain ⟨⟨result, m'⟩, executed, ended⟩ := Option.map_eq_some_iff.mp ran
  obtain rfl : result = .ok 1 := eq_ok_of_toOption ended
  obtain ⟨_, _, _, _, after⟩ := (attainable.counters has).2.2.2.1 executed
  refine ⟨e, m', has, number, executed, ?_⟩
  rw [after, number, steps]
  decide

end Session

end NodeGraph
