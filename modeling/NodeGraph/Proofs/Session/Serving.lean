import NodeGraph.Proofs.Session.Separate

/-!
# Contexts that epochs serve

No operation makes up an identity: an engine that names contexts of some set only does so after
every operation for a context of the set (`Engine.Names`). So the context that an epoch serves is
one that the session has given an identity (`Session.Reachable.named`).
-/

namespace NodeGraph

/-- The identities of a set, each paired with itself. -/
def Among (known : Nat → Prop) (i i' : Nat) : Prop := known i ∧ i' = i

theorem pairing_among (known : Nat → Prop) : Pairing (Among known) := by
  rintro i i' j j' ⟨_, rfl⟩ ⟨_, rfl⟩
  rfl

namespace Engine

/-- The contexts that an engine names are in a set: its own and the one that the epoch serves. -/
structure Names (known : Nat → Prop) (e : Engine) : Prop where
  own : known e.context.id
  serves : ∀ {context}, e.serves = some context → known context

variable {known : Nat → Prop} {e e' : Engine}

theorem Names.corresponds (h : e.Names known) : e.Corresponds Eq (Among known) e := by
  refine ⟨rfl, ⟨⟨h.own, rfl⟩, rfl, rfl⟩, ?_, rfl⟩
  cases serves : e.serves with
  | none => exact .none
  | some context => exact .some ⟨h.serves serves, rfl⟩

theorem Corresponds.names (h : e.Corresponds Eq (Among known) e') : e.Names known := by
  refine ⟨h.contexts.id.1, fun {context} serves => ?_⟩
  have served := h.serves
  rw [serves] at served
  generalize e'.serves = serves' at served
  cases served with
  | some among => exact among.1

theorem names_of_unserved (own : known e.context.id) (unserved : e.serves = none) :
    e.Names known := by
  refine ⟨own, fun {context} serves => ?_⟩
  rw [unserved] at serves
  cases serves

theorem Names.mono {known' : Nat → Prop} (h : e.Names known) (more : ∀ id, known id → known' id) :
    e.Names known' :=
  ⟨more _ h.own, fun serves => more _ (h.serves serves)⟩

end Engine

namespace Sheet

variable {known : Nat → Prop} {sheet : Sheet}

theorem corresponds_of_names (h : ∀ e, sheet.engine? = some e → e.Names known) :
    sheet.Corresponds Eq (Among known) sheet := by
  cases sheet with
  | wiring g => exact .wiring rfl
  | engine e => exact .engine (h e rfl).corresponds
  | program p => exact .program (h p.engine rfl).corresponds

theorem Corresponds.names {sheet' : Sheet} (h : sheet.Corresponds Eq (Among known) sheet')
    {e : Engine} (has : sheet.engine? = some e) : e.Names known := by
  have engines := h.engine?
  rw [has] at engines
  generalize sheet'.engine? = e' at engines
  cases engines with
  | some h => exact h.names

end Sheet

namespace Session

variable {known : Nat → Prop} {s s' : Session} {index : Nat}

/-- Commands to graphs and their own contexts name no other contexts. -/
theorem names_afterAll (valid : s.Holds Engine.Valid)
    (named : ∀ e, s.engine? index = some e → e.Names known) {orders : List Order}
    (own : OwnOrders orders) {e : Engine} (there : (s.afterAll orders).engine? index = some e) :
    e.Names known := by
  induction orders generalizing s with
  | nil => exact named e there
  | cons order rest ih =>
    obtain ⟨first, laid⟩ := own.head
    refine ih (valid_after valid laid) (fun e there => ?_) own.tail there
    obtain ⟨after, placed, has⟩ := Option.bind_eq_some_iff.mp there
    by_cases here : order.index = index
    -- An engine that corresponds to itself along the set does so after the order.
    · subst here
      have sheets : Option.Rel (Sheet.Corresponds Eq (Among known)) s.sheets[order.index]?
          s.sheets[order.index]? := by
        cases found : s.sheets[order.index]? with
        | none => exact .none
        | some sheet =>
          exact .some (Sheet.corresponds_of_names fun e has => named e (engine?_eq_some found has))
      have kept : Option.Rel (Sheet.Corresponds Eq (Among known))
          (s.after order).sheets[order.index]? (s.after order).sheets[order.index]? :=
        (seen_corresponds Graph.eq_correspondence (pairing_among known) valid
          sheets first).2
      rw [placed] at kept
      cases kept with
      | some same => exact same.names has
    · rw [sheets_after_of_ne valid first here] at placed
      exact named e (engine?_eq_some placed has)

/-- The engines of a session name contexts of the session only. -/
def Named (s : Session) : Prop :=
  ∀ index e, s.engine? index = some e → e.Names (· < s.nextContext)

namespace Named

/-- A graph is put in its place. -/
theorem setSheet (h : s.Named) {sheet : Sheet}
    (named : ∀ e, sheet.engine? = some e → e.Names (· < s.nextContext)) :
    (s.setSheet index sheet).Named := by
  intro other e there
  obtain ⟨after, placed, has⟩ := Option.bind_eq_some_iff.mp there
  rw [Session.setSheet, Array.getElem?_setIfInBounds] at placed
  split at placed
  · split at placed
    · obtain rfl := Option.some.inj placed
      exact named e has
    · cases placed
  · exact h _ e (engine?_eq_some placed has)

/-- A graph is added, and an identity is given out. -/
theorem push (h : s.Named) {sheet : Sheet}
    (named : ∀ e, sheet.engine? = some e → e.Names (· < s.nextContext + 1)) : Named
      { s with sheets := s.sheets.push sheet, nextContext := s.nextContext + 1 } := by
  intro other e there
  obtain ⟨after, placed, has⟩ := Option.bind_eq_some_iff.mp there
  rw [Array.getElem?_push] at placed
  split at placed
  · obtain rfl := Option.some.inj placed
    exact named e has
  · exact (h _ e (engine?_eq_some placed has)).mono fun id below => Nat.lt_succ_of_lt below

theorem addContext (h : s.Named) (locals : Locals) (printed : Array String) :
    (s.addContext locals printed).2.Named := by
  intro other e there
  exact (h _ e there).mono fun id below => Nat.lt_succ_of_lt below

end Named

/-- Sessions that correspond along the identities that were given out before the next one. -/
structure Along (next : Nat) (s s' : Session) : Prop where
  sheets : ∀ index : Nat,
    Option.Rel (Sheet.Corresponds Eq (Among (· < next))) s.sheets[index]? s'.sheets[index]?
  sheetCount : s'.sheets.size = s.sheets.size
  contexts : ∀ extra : Nat,
    Option.Rel (Context.Corresponds (Among (· < next))) s.contexts[extra]? s'.contexts[extra]?
  contextCount : s'.contexts.size = s.contexts.size
  next : s.nextContext = next

/-- Graphs and contexts that are put back keep to these identities. -/
theorem along_pair (next index : Nat) :
    SheetPair (corresponding Eq Eq Eq (Among (· < next)) fun _ => True) (Along next) index
      index where
  laws := corresponding.laws_of_eq Graph.eq_correspondence (pairing_among _)
  sheet? h := h.sheets index
  setSheet {s s' sheet sheet'} h put := by
    refine { h with sheets := ?_, sheetCount := ?_ }
    · exact rel_setIfInBounds (R := fun _ => Sheet.Corresponds Eq (Among (· < next))) h.sheets
        h.sheetCount put
    · simp [Session.setSheet, h.sheetCount]
  extra? h _ := h.contexts _
  setExtra {s s' extra c c'} h _ put := by
    refine { h with contexts := ?_, contextCount := ?_ }
    · exact rel_setIfInBounds (R := fun _ => Context.Corresponds (Among (· < next))) h.contexts
        h.contextCount put
    · simp [h.contextCount]

/-- A session corresponds to itself if its engines name its own contexts. -/
theorem Named.along (h : s.Named) (identified : s.Identified) : s.Along s.nextContext s where
  sheets other := by
    cases found : s.sheets[other]? with
    | none => exact .none
    | some sheet =>
      exact .some (Sheet.corresponds_of_names fun e has => h other e (engine?_eq_some found has))
  sheetCount := rfl
  contexts extra := by
    cases place : s.contexts[extra]? with
    | none => exact .none
    | some c =>
      have below : c.id < s.nextContext := by
        refine identified.below (p := .extra extra) ?_
        rw [identity?, place]
        rfl
      exact .some ⟨⟨below, rfl⟩, rfl, rfl⟩
  contextCount := rfl
  next := rfl

theorem Along.named {next : Nat} (h : Along next s s') : s.Named := by
  intro other e there
  obtain ⟨sheet, found, has⟩ := Option.bind_eq_some_iff.mp there
  have sheets := h.sheets other
  rw [found] at sheets
  generalize s'.sheets[other]? = sheet' at sheets
  rw [h.next]
  cases sheets with
  | some related => exact Sheet.Corresponds.names related has

namespace Named

/-- After every command, the engines name contexts of the session only. -/
theorem perform (h : s.Named) (identified : s.Identified) (valid : s.Holds Engine.Valid)
    {limit : Nat} {command : Command} {reply : Except Fault Reply}
    (performed : s.perform limit index command = .ok (reply, s')) : s'.Named := by
  have pair := along_pair s.nextContext index
  cases single : command.single with
  | true =>
    have alongside := pair.perform limit (h.along identified) single
      ⟨fun _ _ => trivial, fun _ _ => trivial⟩ fun m m' there _ _ => valid.engine? there
    rw [performed] at alongside
    generalize s.perform limit index _ = outcome at alongside
    cases alongside with
    | done both => exact Along.named both.2
  | false =>
    cases command with dsimp only [Session.perform] at performed
    | copyNode id target =>
      obtain ⟨sheet, other, _, there, ⟨_, _, _, rfl⟩ | ⟨node, _, _, rfl⟩⟩ :=
        copyNode_eq_ok_iff.mp performed
      · exact h
      · refine h.setSheet fun e has => ?_
        have named := Sheet.corresponds_of_names fun e has => h _ e (engine?_eq_some there has)
        exact Sheet.Corresponds.names (named.add pair.laws (pair.laws.added node)).2 has
    | copySheet =>
      split at performed
      · cases performed
      next sheet found =>
        obtain ⟨-, rfl⟩ := Prod.mk.inj (Except.ok.inj performed)
        refine h.push fun e has => ?_
        cases had : sheet.engine? with
        | none =>
          rw [had] at has
          exact absurd (had.symm.trans has) (by simp)
        | some e' =>
          rw [had] at has
          obtain rfl := Option.some.inj ((Sheet.engine?_withEngine had _).symm.trans has)
          have named := h _ e' (engine?_eq_some found had)
          exact ⟨Nat.lt_succ_self _, fun serves => Nat.lt_succ_of_lt (named.serves serves)⟩
    | openSheet kind config =>
      obtain ⟨-, rfl⟩ := Prod.mk.inj (Except.ok.inj performed)
      refine h.push fun e has => ?_
      cases kind with
      | wiring => cases has
      | engine =>
        obtain rfl := Option.some.inj has
        exact Engine.names_of_unserved (Nat.lt_succ_self _) rfl
      | program =>
        obtain rfl := Option.some.inj has
        exact Engine.names_of_unserved (Nat.lt_succ_self _) rfl
    | newContext =>
      obtain ⟨-, rfl⟩ := Prod.mk.inj (Except.ok.inj performed)
      exact h.addContext _ _
    | copyContext context =>
      split at performed
      · cases performed
      · obtain ⟨-, rfl⟩ := Prod.mk.inj (Except.ok.inj performed)
        exact h.addContext _ _
    | swapContext extra =>
      obtain ⟨sheet, e, c, found, has, place, -, rfl⟩ := swapContext_eq_ok_iff.mp performed
      have below : c.id < s.nextContext := by
        refine identified.below (p := .extra extra) ?_
        rw [identity?, place]
        rfl
      have swapped : (s.setSheet index (sheet.withEngine { e with context := c })).Named := by
        refine h.setSheet fun e' has' => ?_
        obtain rfl := Option.some.inj ((Sheet.engine?_withEngine has _).symm.trans has')
        exact ⟨below, fun serves => (h _ e (engine?_eq_some found has)).serves serves⟩
      exact fun other e there => swapped other e there
    | _ => cases single

end Named

/-- So the context that an epoch serves, and the own context of a graph, were given their identities
by the session. -/
theorem Reachable.named (reachable : s.Reachable) : s.Named := by
  induction reachable with
  | empty =>
    intro index e there
    simp [engine?] at there
  | perform reached laid performed h =>
    exact h.perform reached.identified (reached.holds valid_invariant) performed
  | @takeJournal s index reached h =>
    unfold Session.takeJournal
    split
    · exact h
    next sheet found =>
      split
      · exact h
      next e has =>
        refine h.setSheet fun e' has' => ?_
        obtain rfl := Option.some.inj ((Sheet.engine?_withEngine has _).symm.trans has')
        have named := h _ e (engine?_eq_some found has)
        exact ⟨named.own, named.serves⟩

end Session

end NodeGraph
