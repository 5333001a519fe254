import Mathlib.Logic.Equiv.Basic
import NodeGraph.Proofs.Session.Invariant

/-!
# Identities of contexts

Every context of a session has an identity of its own, whether it belongs to a graph or is an extra
one. A command leaves the identities where they are, exchanges two of them, or gives out the next
one (`Session.Identified.perform`).
-/

namespace NodeGraph

/-- The identity of the context that belongs to a graph. -/
def Sheet.identity? (s : Sheet) : Option Nat := s.engine?.map (·.context.id)

theorem Sheet.identity?_withEngine {sheet : Sheet} {e : Engine} (has : sheet.engine? = some e)
    (e' : Engine) : (sheet.withEngine e').identity? = some e'.context.id := by
  cases sheet with
  | wiring g => cases has
  | engine e => rfl
  | program p => rfl

/-- The command neither gives out identities nor exchanges them. -/
def Command.keepsIdentities : Command → Bool
  | .copySheet | .openSheet _ _ | .newContext | .copyContext _ | .swapContext _ => false
  | _ => true

namespace Session

/-- Where a context is. -/
inductive Place where
  /-- With a graph. -/
  | own (sheet : Nat)
  /-- Among the extra contexts. -/
  | extra (position : Nat)
deriving DecidableEq

/-- The identity of the context at a place. -/
def identity? (s : Session) : Place → Option Nat
  | .own index => s.sheets[index]?.bind Sheet.identity?
  | .extra position => s.contexts[position]?.map (·.id)

/-- No two contexts have one identity, and the next one is new. -/
structure Identified (s : Session) : Prop where
  distinct : ∀ {p q id}, s.identity? p = some id → s.identity? q = some id → p = q
  below : ∀ {p id}, s.identity? p = some id → id < s.nextContext

/-- All contexts have the identities they had. -/
structure SameIdentities (s s' : Session) : Prop where
  same : ∀ p, s'.identity? p = s.identity? p
  next : s'.nextContext = s.nextContext

variable {s s' : Session} {index : Nat} {reply : Except Fault Reply}

theorem Identified.of_same (h : s.Identified) (kept : SameIdentities s s') : s'.Identified where
  distinct {p q id} at_p at_q := by
    rw [kept.same] at at_p at_q
    exact h.distinct at_p at_q
  below {p id} found := by
    rw [kept.same] at found
    rw [kept.next]
    exact h.below found

/-- One place has the next identity, or none. -/
theorem Identified.add (h : s.Identified) (new : Place)
    (others : ∀ p, p ≠ new → s'.identity? p = s.identity? p)
    (own : ∀ id, s'.identity? new = some id → id = s.nextContext)
    (next : s'.nextContext = s.nextContext + 1) : s'.Identified where
  distinct {p q id} at_p at_q := by
    by_cases hp : p = new
    · by_cases hq : q = new
      · rw [hp, hq]
      · rw [hp] at at_p
        rw [others q hq] at at_q
        have below := h.below at_q
        have equal := own id at_p
        omega
    · rw [others p hp] at at_p
      by_cases hq : q = new
      · rw [hq] at at_q
        have below := h.below at_p
        have equal := own id at_q
        omega
      · rw [others q hq] at at_q
        exact h.distinct at_p at_q
  below {p id} found := by
    rw [next]
    by_cases hp : p = new
    · rw [hp] at found
      have equal := own id found
      omega
    · rw [others p hp] at found
      have below := h.below found
      omega

theorem identity?_setSheet {sheet sheet' : Sheet} (found : s.sheets[index]? = some sheet)
    (p : Place) : (s.setSheet index sheet').identity? p =
      if p = .own index then sheet'.identity? else s.identity? p := by
  cases p with
  | own other =>
    obtain ⟨below, _⟩ := Array.getElem?_eq_some_iff.mp found
    by_cases equal : index = other
    · subst equal
      simp [identity?, setSheet, below]
    · have different : Place.own other ≠ .own index := fun same => equal (Place.own.inj same).symm
      simp [identity?, setSheet, equal, different]
  | extra position =>
    rw [if_neg Place.noConfusion]
    rfl

theorem sameIdentities_setSheet {sheet sheet' : Sheet} (found : s.sheets[index]? = some sheet)
    (same : sheet'.identity? = sheet.identity?) : SameIdentities s (s.setSheet index sheet') := by
  refine ⟨?_, rfl⟩
  intro p
  rw [identity?_setSheet found]
  split
  case isTrue equal =>
    subst equal
    rw [same, identity?, found]
    rfl
  case isFalse => rfl

theorem engine?_eq_some {sheet : Sheet} {e : Engine} (found : s.sheets[index]? = some sheet)
    (has : sheet.engine? = some e) : s.engine? index = some e := by
  rw [Session.engine?, found]
  exact has

/-- The engine of a copy differs in the identity of its context only. -/
theorem engine?_copySheet (s : Session) {sheet : Sheet} {e : Engine}
    (has : sheet.engine? = some e) : (s.copySheet sheet).2.engine? s.sheets.size =
      some { e with context := { e.context with id := s.nextContext } } := by
  refine engine?_eq_some ?_ (Sheet.engine?_withEngine has _)
  rw [Session.copySheet, has]
  exact Array.getElem?_push_size

theorem identity?_own (s : Session) (index : Nat) :
    s.identity? (.own index) = (s.engine? index).map (·.context.id) := by
  rw [identity?, Session.engine?, Option.map_bind]
  rfl

theorem context?_own {e : Engine} (there : s.engine? index = some e) :
    s.context? index none = some e.context := by
  have bound : s.sheets[index]?.bind Sheet.engine? = some e := there
  rw [Session.context?, bound]
  rfl

namespace SameIdentities

theorem refl (s : Session) : SameIdentities s s := ⟨fun _ => rfl, rfl⟩

theorem setEngine {sheet : Sheet} {e e' : Engine} (found : s.sheets[index]? = some sheet)
    (has : sheet.engine? = some e) (same : e'.context.id = e.context.id) :
    SameIdentities s (s.setSheet index (sheet.withEngine e')) := by
  apply sameIdentities_setSheet found
  rw [Sheet.identity?_withEngine has, Sheet.identity?, has, same]
  rfl

theorem onEngine {act : Engine → Except Fault Reply × Engine}
    (keeps : ∀ e, (act e).2.context.id = e.context.id)
    (performed : s.onEngine index act = .ok (reply, s')) : SameIdentities s s' := by
  obtain ⟨sheet, e, found, has, _, rfl⟩ := onEngine_eq_ok_iff.mp performed
  exact setEngine found has (keeps e)

theorem onEngineWithin {act : Engine → Option (Except Fault Reply × Engine)}
    (keeps : ∀ e reply e', s.engine? index = some e → act e = some (reply, e') →
      e'.context.id = e.context.id)
    (performed : s.onEngineWithin index act = .ok (reply, s')) : SameIdentities s s' := by
  obtain ⟨sheet, e, e', found, has, acted, rfl⟩ := onEngineWithin_eq_ok_iff.mp performed
  exact setEngine found has (keeps e _ e' (engine?_eq_some found has) acted)

/-- A context is put back in its place. -/
theorem setContext {extra : Nat} {c c' : Context} (place : s.contexts[extra]? = some c)
    (same : c'.id = c.id) :
    SameIdentities s { s with contexts := s.contexts.setIfInBounds extra c' } := by
  refine ⟨?_, rfl⟩
  intro p
  cases p with
  | own other => rfl
  | extra other =>
    obtain ⟨below, placed⟩ := Array.getElem?_eq_some_iff.mp place
    by_cases equal : extra = other
    · subst equal
      simp [identity?, below, placed, same]
    · simp [identity?, equal]

theorem trans {s₁ s₂ s₃ : Session} (first : SameIdentities s₁ s₂)
    (second : SameIdentities s₂ s₃) : SameIdentities s₁ s₃ :=
  ⟨fun p => (second.same p).trans (first.same p), second.next.trans first.next⟩

theorem onMachine {context : Option Nat} {act : Machine → Option (Except Fault Reply × Machine)}
    (keeps : ∀ m reply m', s.engine? index = some m.engine → act m = some (reply, m') →
      m'.context.id = m.context.id ∧ m'.engine.context.id = m.engine.context.id)
    (performed : s.onMachine index context act = .ok (reply, s')) : SameIdentities s s' := by
  cases context with
  | none =>
    obtain ⟨sheet, e, m', found, has, acted, rfl⟩ := onMachine_own_eq_ok_iff.mp performed
    exact setEngine found has (keeps ⟨e, e.context⟩ _ m' (engine?_eq_some found has) acted).1
  | some extra =>
    obtain ⟨sheet, e, c, m', found, has, place, acted, rfl⟩ :=
      onMachine_extra_eq_ok_iff.mp performed
    rcases keeps ⟨e, c⟩ _ m' (engine?_eq_some found has) acted with ⟨context, own⟩
    exact (setEngine found has own).trans (setContext place context)

theorem onContext {context : Option Nat} {act : Context → Reply × Context}
    (keeps : ∀ c, (act c).2.id = c.id)
    (performed : s.onContext index context act = .ok (reply, s')) : SameIdentities s s' := by
  refine onMachine ?_ performed
  intro m reply m' _ acted
  obtain ⟨-, rfl⟩ := Prod.mk.inj (Option.some.inj acted)
  exact ⟨keeps m.context, rfl⟩

theorem onProgram {act : Program → Option (Except Fault Reply × Program)}
    (keeps : ∀ p reply p', s.engine? index = some p.engine → act p = some (reply, p') →
      p'.engine.context.id = p.engine.context.id)
    (performed : s.onProgram index act = .ok (reply, s')) : SameIdentities s s' := by
  obtain ⟨p, p', found, acted, rfl⟩ := onProgram_eq_ok_iff.mp performed
  apply sameIdentities_setSheet found
  exact congrArg some (keeps p _ p' (engine?_eq_some found rfl) acted)

theorem ask {answer : Sheet → Except Fault Reply}
    (performed : s.ask index answer = .ok (reply, s')) : SameIdentities s s' := by
  obtain ⟨_, rfl⟩ := ask_eq_ok_iff.mp performed
  exact refl s'

theorem change {act : Sheet → Except Fault (Reply × Sheet)}
    (keeps : ∀ sheet reply sheet', act sheet = .ok (reply, sheet') →
      sheet'.identity? = sheet.identity?)
    (performed : s.change index act = .ok (reply, s')) : SameIdentities s s' := by
  obtain ⟨sheet, found, ⟨_, _, _, rfl⟩ | ⟨answer, sheet', acted, _, rfl⟩⟩ :=
    change_eq_ok_iff.mp performed
  · exact refl s'
  · exact sameIdentities_setSheet found (keeps sheet _ sheet' acted)

theorem relabel (limit : Nat) {id : NodeId} {newId : Option NodeId} {title : Option String}
    (performed : s.perform limit index (.relabel id newId title) = .ok (reply, s')) :
    SameIdentities s s' := by
  obtain ⟨g, found, ⟨_, _, _, rfl⟩ | ⟨g', _, _, rfl⟩⟩ := relabel_eq_ok_iff.mp performed
  · exact refl s'
  · exact sameIdentities_setSheet found rfl

theorem setEntry (limit : Nat) {id : NodeId}
    (performed : s.perform limit index (.setEntry id) = .ok (reply, s')) :
    SameIdentities s s' := by
  obtain ⟨p, found, ⟨_, _, _, rfl⟩ | ⟨_, _, _, rfl⟩⟩ := setEntry_eq_ok_iff.mp performed
  · exact sameIdentities_setSheet found rfl
  · exact sameIdentities_setSheet found rfl

end SameIdentities

end Session

namespace Engine

variable {e e' : Engine}

theorem context_connect {link : Link} (connected : e.connect link = .ok e') :
    e'.context = e.context := by
  obtain ⟨graph, _, rfl⟩ := Engine.connect_eq_ok_iff.mp connected
  exact context_invalidate _

theorem context_disconnect {target : InputAddr} {source : Option OutputAddr}
    (disconnected : e.disconnect target = .ok (source, e')) : e'.context = e.context := by
  obtain ⟨graph, _, rfl⟩ := Engine.disconnect_eq_ok_iff.mp disconnected
  exact context_invalidate _

theorem context_setLiteral {addr : InputAddr} {value : Value}
    (set : e.setLiteral addr value = .ok e') : e'.context = e.context := by
  obtain ⟨graph, _, rfl⟩ := Engine.setLiteral_eq_ok_iff.mp set
  exact context_invalidate _

theorem context_collect {α : Type} {f : α → Engine → Except Fault Value × Engine}
    (keeps : ∀ a e, (f a e).2.context = e.context) (requests : List α) (e : Engine) :
    (collect f requests e).2.context = e.context :=
  EngineInvariant.collect (P := fun e' => e'.context = e.context)
    (fun a e' same => (keeps a e').trans same) requests rfl

/-- A run for the engine's own context leaves it in its place. -/
theorem works_executeOwn {limit : Nat} {start : NodeId} {result : Except Fault NodeId}
    (valid : e.Valid) (executed : e.execute limit start = some (result, e')) :
    e'.Valid ∧ e'.graph.frame = e.graph.frame ∧ e'.context.id = e.context.id := by
  obtain ⟨⟨result, m⟩, ended, equal⟩ := Option.map_eq_some_iff.mp executed
  obtain ⟨-, rfl⟩ := Prod.mk.inj equal
  rcases Machine.works_execute (m := ⟨e, e.context⟩) valid ended with ⟨valid, works⟩
  exact ⟨valid.of_eq rfl rfl rfl, works.frame, works.identity⟩

/-- What runs for the engine's own context keep. -/
theorem identity_keeps {limit : Nat} {id : Nat} : ∀ {e e' : Engine} {start : NodeId}
    {result : Except Fault NodeId}, (e.Valid ∧ e.context.id = id) →
      e.execute limit start = some (result, e') → e'.Valid ∧ e'.context.id = id := by
  rintro e e' start result ⟨valid, same⟩ executed
  rcases works_executeOwn valid executed with ⟨valid, _, kept⟩
  exact ⟨valid, kept.trans same⟩

end Engine

namespace Sheet

variable {sheet sheet' : Sheet}

theorem identity?_add (sheet : Sheet) (node : Node) :
    (sheet.add node).2.identity? = sheet.identity? := by
  cases sheet <;> rfl

theorem identity?_connect {link : Link} (connected : sheet.connect link = .ok sheet') :
    sheet'.identity? = sheet.identity? := by
  cases sheet with
  | wiring g =>
    obtain ⟨g', _, rfl⟩ := map_eq_ok connected
    rfl
  | engine e =>
    obtain ⟨e', changed, rfl⟩ := map_eq_ok connected
    exact congrArg (fun c : Context => some c.id) (Engine.context_connect changed)
  | program p =>
    obtain ⟨e', changed, rfl⟩ := map_eq_ok connected
    exact congrArg (fun c : Context => some c.id) (Engine.context_connect changed)

theorem identity?_disconnect {target : InputAddr} {source : Option OutputAddr}
    (disconnected : sheet.disconnect target = .ok (source, sheet')) :
    sheet'.identity? = sheet.identity? := by
  cases sheet with
  | wiring g =>
    obtain ⟨⟨_, g'⟩, _, equal⟩ := map_eq_ok disconnected
    obtain ⟨-, rfl⟩ := Prod.mk.inj equal
    rfl
  | engine e =>
    obtain ⟨⟨_, e'⟩, changed, equal⟩ := map_eq_ok disconnected
    obtain ⟨-, rfl⟩ := Prod.mk.inj equal
    exact congrArg (fun c : Context => some c.id) (Engine.context_disconnect changed)
  | program p =>
    obtain ⟨⟨_, e'⟩, changed, equal⟩ := map_eq_ok disconnected
    obtain ⟨-, rfl⟩ := Prod.mk.inj equal
    exact congrArg (fun c : Context => some c.id) (Engine.context_disconnect changed)

theorem identity?_addChain (sheet : Sheet) (node : Node) (output input : PortId) (count : Nat)
    (previous : Option NodeId) :
    (sheet.addChain node output input count previous).2.identity? = sheet.identity? := by
  induction count generalizing sheet previous with
  | zero => rfl
  | succ count ih =>
    have added := identity?_add sheet node
    unfold Sheet.addChain
    dsimp only
    cases previous with
    | none => exact (ih _ _).trans added
    | some previous =>
      dsimp only
      split
      · exact added
      next connected => exact (ih _ _).trans ((identity?_connect connected).trans added)

end Sheet

namespace Session

variable {s s' : Session} {index : Nat} {reply : Except Fault Reply}

/-- A graph is added with a context that has the next identity, or with none. -/
theorem Identified.push (h : s.Identified) {sheet : Sheet}
    (own : ∀ id, sheet.identity? = some id → id = s.nextContext)
    (sheets : s'.sheets = s.sheets.push sheet) (contexts : s'.contexts = s.contexts)
    (next : s'.nextContext = s.nextContext + 1) : s'.Identified := by
  refine h.add (.own s.sheets.size) (fun p different => ?_) (fun id found => ?_) next
  · cases p with
    | own other =>
      have unequal : other ≠ s.sheets.size := fun equal => different (congrArg Place.own equal)
      simp only [identity?, sheets, Array.getElem?_push, if_neg unequal]
    | extra other => simp only [identity?, contexts]
  · simp only [identity?, sheets, Array.getElem?_push_size, Option.bind_some] at found
    exact own id found

/-- A context is added with the next identity. -/
theorem Identified.addContext (h : s.Identified) (locals : Locals) (printed : Array String) :
    (s.addContext locals printed).2.Identified := by
  refine h.add (.extra s.contexts.size) (fun p different => ?_) (fun id found => ?_) rfl
  · cases p with
    | own other => rfl
    | extra other =>
      have unequal : other ≠ s.contexts.size := fun equal => different (congrArg Place.extra equal)
      simp only [identity?, Session.addContext, Array.getElem?_push, if_neg unequal]
  · simp only [identity?, Session.addContext, Array.getElem?_push_size, Option.map_some] at found
    exact (Option.some.inj found).symm

/-- What two places name is exchanged. -/
theorem Identified.exchange (h : s.Identified) {p q : Place}
    (moved : ∀ r, s'.identity? r = s.identity? (Equiv.swap p q r))
    (next : s'.nextContext = s.nextContext) : s'.Identified := by
  constructor
  · intro r t id at_r at_t
    rw [moved] at at_r at_t
    exact (Equiv.swap _ _).injective (h.distinct at_r at_t)
  · intro r id at_r
    rw [moved] at at_r
    rw [next]
    exact h.below at_r

/-- Two contexts are exchanged. -/
theorem Identified.swapContext (h : s.Identified) {extra : Nat}
    (performed : s.swapContext index extra = .ok (reply, s')) : s'.Identified := by
  obtain ⟨sheet, e, c, found, has, place, _, rfl⟩ := swapContext_eq_ok_iff.mp performed
  obtain ⟨below, _⟩ := Array.getElem?_eq_some_iff.mp place
  have own : s.identity? (.own index) = some e.context.id := by
    rw [identity?, found, Option.bind_some, Sheet.identity?, has]
    rfl
  have other : s.identity? (.extra extra) = some c.id := by
    rw [identity?, place]
    rfl
  refine @Identified.exchange _ _ h (.own index) (.extra extra) ?_ rfl
  intro p
  have sheets := @identity?_setSheet s index sheet (sheet.withEngine { e with context := c }) found p
  by_cases first : p = .own index
  · subst first
    rw [if_pos rfl, Sheet.identity?_withEngine has] at sheets
    rw [Equiv.swap_apply_left, other]
    exact sheets
  · by_cases second : p = .extra extra
    · subst second
      rw [Equiv.swap_apply_right, own]
      simp [identity?, below]
    · rw [Equiv.swap_apply_of_ne_of_ne first second]
      rw [if_neg first] at sheets
      cases p with
      | own other => exact sheets
      | extra position =>
        have unequal : extra ≠ position := fun equal => second (congrArg Place.extra equal.symm)
        simp [identity?, unequal]

/-- The engine of a graph is valid if all are. -/
theorem Holds.engine? {P : Engine → Prop} (h : s.Holds P) {e : Engine}
    (there : s.engine? index = some e) : P e := by
  obtain ⟨sheet, found, has⟩ := Option.bind_eq_some_iff.mp there
  exact (h index sheet found).of_engine? has

/-- Such a command leaves all identities where they are. -/
theorem SameIdentities.perform (valid : s.Holds Engine.Valid) {limit : Nat} {command : Command}
    (keeps : command.keepsIdentities = true)
    (performed : s.perform limit index command = .ok (reply, s')) : SameIdentities s s' := by
  cases command with dsimp only [Session.perform] at performed
  | add node =>
    refine .change ?_ performed
    intro sheet _ sheet' acted
    obtain ⟨-, rfl⟩ := Prod.mk.inj (Except.ok.inj acted)
    exact sheet.identity?_add node
  | addChain node count output input =>
    split at performed
    · cases performed
    next sheet found =>
      obtain ⟨-, rfl⟩ := Prod.mk.inj (Except.ok.inj performed)
      exact sameIdentities_setSheet found (sheet.identity?_addChain _ _ _ _ _)
  | copyNode id target =>
    obtain ⟨sheet, other, _, there, ⟨_, _, _, rfl⟩ | ⟨node, _, _, rfl⟩⟩ :=
      copyNode_eq_ok_iff.mp performed
    · exact .refl _
    · exact sameIdentities_setSheet there (other.identity?_add node)
  | connect link =>
    refine .change ?_ performed
    intro sheet _ sheet' acted
    obtain ⟨after, connected, equal⟩ := map_eq_ok acted
    obtain ⟨-, rfl⟩ := Prod.mk.inj equal
    exact Sheet.identity?_connect connected
  | disconnect target =>
    refine .change ?_ performed
    intro sheet _ sheet' acted
    obtain ⟨⟨source, after⟩, disconnected, equal⟩ := map_eq_ok acted
    obtain ⟨-, rfl⟩ := Prod.mk.inj equal
    exact Sheet.identity?_disconnect disconnected
  | setLiteral addr value =>
    refine .onEngine ?_ performed
    intro e
    cases set : e.setLiteral addr value with
    | error fault => rfl
    | ok e' => exact congrArg Context.id (Engine.context_setLiteral set)
  | links | successors addr | size | node id | nodes => exact .ask performed
  | relabel id newId title => exact .relabel limit performed
  | execute start context =>
    refine .onMachine ?_ performed
    intro m _ m' there acted
    obtain ⟨⟨result, after⟩, executed, equal⟩ := Option.map_eq_some_iff.mp acted
    obtain ⟨-, rfl⟩ := Prod.mk.inj equal
    rcases Machine.works_execute (valid.engine? there) executed with ⟨_, works⟩
    exact ⟨works.identity, congrArg Context.id (Engine.context_eq_of_settings works.settings)⟩
  | executeNodes ids =>
    refine .onEngineWithin ?_ performed
    intro e _ e' there acted
    obtain ⟨⟨result, after⟩, executed, equal⟩ := Option.map_eq_some_iff.mp acted
    obtain ⟨-, rfl⟩ := Prod.mk.inj equal
    exact (Engine.executeNodes_keeps (P := fun e' => e'.Valid ∧ e'.context.id = e.context.id)
      ⟨valid.engine? there, rfl⟩ Engine.identity_keeps executed).2
  | executeOutputs addrs =>
    refine .onEngineWithin ?_ performed
    intro e _ e' there acted
    obtain ⟨⟨result, after⟩, executed, equal⟩ := Option.map_eq_some_iff.mp acted
    obtain ⟨-, rfl⟩ := Prod.mk.inj equal
    exact (Engine.executeOutputs_keeps (P := fun e' => e'.Valid ∧ e'.context.id = e.context.id)
      ⟨valid.engine? there, rfl⟩ Engine.identity_keeps executed).2
  | setEntry id => exact .setEntry limit performed
  | entry =>
    refine .onProgram ?_ performed
    intro p _ p' _ acted
    obtain ⟨-, rfl⟩ := Prod.mk.inj (Option.some.inj acted)
    rfl
  | run =>
    refine .onProgram ?_ performed
    intro p _ p' there acted
    obtain ⟨⟨result, after⟩, ran, equal⟩ := Option.map_eq_some_iff.mp acted
    obtain ⟨-, rfl⟩ := Prod.mk.inj equal
    unfold Program.run at ran
    split at ran
    · obtain ⟨-, rfl⟩ := Prod.mk.inj (Option.some.inj ran)
      rfl
    · obtain ⟨⟨result, e⟩, executed, equal⟩ := Option.map_eq_some_iff.mp ran
      obtain ⟨-, rfl⟩ := Prod.mk.inj equal
      exact (Engine.works_executeOwn (valid.engine? there) executed).2.2
  | getValue addr context =>
    refine .onMachine ?_ performed
    intro m _ m' _ acted
    obtain ⟨-, rfl⟩ := Prod.mk.inj (Option.some.inj acted)
    exact ⟨rfl, congrArg Context.id (m.engine.context_getValue addr m.context)⟩
  | outputValue addr => exact .onEngine (fun _ => rfl) performed
  | pullOutput addr context =>
    refine .onMachine ?_ performed
    intro m _ m' _ acted
    obtain ⟨-, rfl⟩ := Prod.mk.inj (Option.some.inj acted)
    exact ⟨rfl, congrArg Context.id (m.engine.context_pullOutput addr m.context)⟩
  | getValues addrs =>
    refine .onEngine (fun e => congrArg Context.id ?_) performed
    exact (Engine.context_collect (fun addr e => e.context_getValue addr e.context) addrs _).trans
      e.context_openEpoch
  | pullOutputs addrs =>
    refine .onEngine (fun e => congrArg Context.id ?_) performed
    exact (Engine.context_collect (fun addr e => e.context_pullOutput addr e.context) addrs _).trans
      e.context_openEpoch
  | openEpoch =>
    exact .onEngine (fun e => congrArg Context.id e.context_openEpoch) performed
  | invalidate =>
    exact .onEngine (fun e => congrArg Context.id e.context_invalidate) performed
  | invalidateOnce marker =>
    refine .onEngine ?_ performed
    intro e
    unfold Engine.invalidateOnce
    split
    · rfl
    · exact congrArg Context.id e.context_invalidate
  | marker | hitRatio | config | resetStatistics | setConfig config =>
    exact .onEngine (fun _ => rfl) performed
  | setLocal name value context | getLocal name context | clearLocals context
  | showContext context | takePrinted context =>
    exact .onContext (fun _ => rfl) performed
  | copySheet => cases keeps
  | openSheet _ _ => cases keeps
  | newContext => cases keeps
  | copyContext _ => cases keeps
  | swapContext _ => cases keeps

/-- After every command, every context still has an identity of its own. -/
theorem Identified.perform (h : s.Identified) (valid : s.Holds Engine.Valid) {limit : Nat}
    {command : Command} (performed : s.perform limit index command = .ok (reply, s')) :
    s'.Identified := by
  by_cases keeps : command.keepsIdentities = true
  · exact h.of_same (.perform valid keeps performed)
  · cases command with dsimp only [Session.perform] at performed
    | copySheet =>
      split at performed
      · cases performed
      next sheet found =>
        obtain ⟨-, rfl⟩ := Prod.mk.inj (Except.ok.inj performed)
        refine h.push ?_ rfl rfl rfl
        intro id own
        cases has : sheet.engine? with
        | none => simp [Sheet.identity?, has] at own
        | some e =>
          rw [has, Sheet.identity?_withEngine has] at own
          exact (Option.some.inj own).symm
    | openSheet kind config =>
      obtain ⟨-, rfl⟩ := Prod.mk.inj (Except.ok.inj performed)
      refine h.push ?_ rfl rfl rfl
      intro id own
      cases kind with
      | wiring => cases own
      | engine => exact (Option.some.inj own).symm
      | program => exact (Option.some.inj own).symm
    | newContext =>
      obtain ⟨-, rfl⟩ := Prod.mk.inj (Except.ok.inj performed)
      exact h.addContext _ _
    | copyContext context =>
      split at performed
      · cases performed
      · obtain ⟨-, rfl⟩ := Prod.mk.inj (Except.ok.inj performed)
        exact h.addContext _ _
    | swapContext extra => exact h.swapContext performed
    | _ => exact absurd rfl keeps

/-- So it is in every session that commands lead to. -/
theorem Reachable.identified (reachable : s.Reachable) : s.Identified := by
  induction reachable with
  | empty =>
    have nowhere : ∀ p, identity? {} p = none := by
      intro p
      cases p <;> simp [identity?]
    constructor
    · intro p q id at_p
      rw [nowhere] at at_p
      cases at_p
    · intro p id at_p
      rw [nowhere] at at_p
      cases at_p
  | perform reached laid performed h => exact h.perform (reached.holds valid_invariant) performed
  | @takeJournal s index reached h =>
    unfold Session.takeJournal
    split
    · exact h
    next sheet found =>
      split
      · exact h
      next e has => exact h.of_same (.setEngine found has rfl)

end Session

end NodeGraph
