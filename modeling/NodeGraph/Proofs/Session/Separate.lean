import NodeGraph.Proofs.Session.Correspondence
import NodeGraph.Proofs.Session.Isolation

/-!
# Graphs side by side

Commands that concern one graph and the context that belongs to it leave every other graph and every
extra context as they are (`Session.after_eq_setSheet`). So what such commands show of one graph
depends neither on the rest of the session nor on what is done to other graphs in between
(`Session.seenAt_corresponds`, `Session.seenAt_eq_alone`).
-/

namespace NodeGraph

/-- Graphs that correspond and differ in no identity are the same. -/
theorem Sheet.Corresponds.eq {sheet sheet' : Sheet} (h : sheet.Corresponds Eq Eq sheet') :
    sheet' = sheet := by
  have engines {e e' : Engine} (h : e.Corresponds Eq Eq e') : e' = e := by
    obtain ⟨graph, context, serves, rfl, graphs, contexts, served⟩ := h.exists_eq
    obtain rfl := Context.corresponds_eq_iff.mp contexts
    obtain rfl : serves = e.serves := by
      rcases relCases served with ⟨none, none'⟩ | ⟨i, i', some, some', same⟩
      · rw [none, none']
      · rw [some, some', same]
    rw [← graphs]
  cases h with
  | wiring same => rw [same]
  | engine h => rw [engines h]
  | program h => rw [engines h]

theorem Reply.Corresponds.eq {reply reply' : Reply} (h : reply.Corresponds Eq Eq reply') :
    reply' = reply := by
  cases h with
  | same => rfl
  | node same => rw [same]
  | nodes same =>
    refine congrArg Reply.nodes (Array.ext_getElem? fun id => ?_)
    rcases relCases (same id) with ⟨none, none'⟩ | ⟨n, n', found, found', equal⟩
    · rw [none, none']
    · rw [found, found', equal]
  | context h => rw [Context.corresponds_eq_iff.mp h]

namespace Session

/-- What an outcome shows of one graph: the answer, and the graph after it. -/
abbrev Seen := Except Refusal (Except Fault Reply × Option Sheet)

/-- What an outcome shows of the graph at a position. -/
def seen (index : Nat) (outcome : Outcome) : Seen :=
  outcome.map fun r => (r.1, r.2.sheets[index]?)

/-- What the outcomes of the commands to the graph at a position show of it. -/
def seenAt (s : Session) (index : Nat) (orders : List Order) : List Seen :=
  ((s.history orders).filter fun entry => entry.1.index = index).map fun entry => seen index entry.2

/-- The session after orders that are carried out one after the other. -/
def afterAll (s : Session) (orders : List Order) : Session := orders.foldl after s

/-- The same command, to the graph at another position. -/
def Order.placed (order : Order) (index : Nat) : Order := { order with index }

/-- The orders to the graph at a position are these, sent there. -/
def Sends (orders : List Order) (index : Nat) (alone : List Order) : Prop :=
  (orders.filter fun order => order.index = index) = alone.map fun order => order.placed index

/-- Commands that each concern one graph and its own context. -/
def OwnOrders (orders : List Order) : Prop :=
  ∀ order ∈ orders, order.command.own = true ∧ order.command.LaidOut

instance (orders : List Order) : Decidable (OwnOrders orders) :=
  inferInstanceAs (Decidable (∀ order ∈ orders, _ ∧ _))

theorem OwnOrders.head {order : Order} {rest : List Order} (own : OwnOrders (order :: rest)) :
    order.command.own = true ∧ order.command.LaidOut := own order List.mem_cons_self

theorem OwnOrders.tail {order : Order} {rest : List Order} (own : OwnOrders (order :: rest)) :
    OwnOrders rest := fun other member => own other (List.mem_cons_of_mem order member)

/-- Answers and graphs that correspond are seen. -/
abbrev SeenAlike (N : Node → Node → Prop) (G : Graph → Graph → Prop) (I : Nat → Nat → Prop) :
    Seen → Seen → Prop :=
  ResultsAgree (Both (AnswersCorrespond N I) (Option.Rel (Sheet.Corresponds G I)))

theorem SeenAlike.eq {seen seen' : Seen} (h : SeenAlike Eq Eq Eq seen seen') : seen' = seen := by
  cases h with
  | refused => rfl
  | @done r r' both =>
    obtain ⟨answer, sheet⟩ := r
    obtain ⟨answer', sheet'⟩ := r'
    obtain ⟨answers, sheets⟩ := both
    have sameAnswer : answer' = answer := by
      cases answers with
      | refused => rfl
      | done replies => rw [replies.eq]
    have sameSheet : sheet' = sheet := by
      cases sheets with
      | none => rfl
      | some same => rw [same.eq]
    rw [sameAnswer, sameSheet]

section Lists

variable {s : Session} {order : Order} {rest : List Order} {index : Nat}

theorem seenAt_cons_self (here : order.index = index) : s.seenAt index (order :: rest) =
    seen index (s.perform order.limit order.index order.command) ::
      (s.after order).seenAt index rest := by
  simp [seenAt, history, here]

theorem seenAt_cons_of_ne (elsewhere : order.index ≠ index) :
    s.seenAt index (order :: rest) = (s.after order).seenAt index rest := by
  simp [seenAt, history, elsewhere]

theorem sends_cons_self (here : order.index = index) {alone : List Order} :
    Sends (order :: rest) index alone ↔
      ∃ first later, alone = first :: later ∧ first.placed index = order ∧
        Sends rest index later := by
  have kept : decide (order.index = index) = true := decide_eq_true here
  unfold Sends
  simp only [List.filter_cons, kept, if_true]
  rw [eq_comm, List.map_eq_cons_iff]
  simp only [eq_comm]

theorem sends_cons_of_ne (elsewhere : order.index ≠ index) {alone : List Order} :
    Sends (order :: rest) index alone ↔ Sends rest index alone := by
  have dropped : decide (order.index = index) = false := decide_eq_false elsewhere
  unfold Sends
  simp only [List.filter_cons, dropped, Bool.false_eq_true, if_false]

/-- Orders stay such when they are sent to another graph. -/
theorem ownOrders_placed {orders alone : List Order} (own : OwnOrders orders)
    (same : Sends orders index alone) (other : Nat) :
    OwnOrders (alone.map fun order => order.placed other) := by
  unfold Sends at same
  intro order member
  obtain ⟨sent, among, rfl⟩ := List.mem_map.mp member
  have there : sent.placed index ∈ orders := by
    refine List.mem_of_mem_filter (p := fun order => order.index = index) ?_
    rw [same]
    exact List.mem_map_of_mem among
  have first := own _ there
  exact first

theorem sends_placed (alone : List Order) (index : Nat) :
    Sends (alone.map fun order => order.placed index) index alone := by
  refine List.filter_eq_self.mpr fun order member => ?_
  obtain ⟨order, _, rfl⟩ := List.mem_map.mp member
  exact decide_eq_true rfl

end Lists

variable {N : Node → Node → Prop} {G : Graph → Graph → Prop} {I : Nat → Nat → Prop}
  {s s' : Session} {i j : Nat}

/-- Such a command puts a graph in the place of the one it is given to. -/
theorem after_eq_setSheet (valid : s.Holds Engine.Valid) {order : Order}
    (own : order.command.own = true) : ∃ sheet, s.after order = s.setSheet order.index sheet := by
  unfold after
  cases found : s.sheets[order.index]? with
  | none =>
    rw [perform_of_missing found order.limit own]
    exact ⟨.wiring {}, (setSheet_of_missing found _).symm⟩
  | some sheet =>
    have acted := (Sheet.Corresponds.refl (fun _ => rfl) (fun _ => rfl) sheet).perform found found
      Graph.eq_correspondence pairing_eq (fun e has => valid.engine? (engine?_eq_some found has))
      order.limit own
    generalize s.perform order.limit order.index order.command = outcome at acted ⊢
    cases acted with
    | refused => exact ⟨sheet, (setSheet_self found).symm⟩
    | done acted =>
      obtain ⟨-, sheet, -, equal, -⟩ := acted
      exact ⟨sheet, equal⟩

/-- So all else stays as it is. -/
theorem sheets_after_of_ne (valid : s.Holds Engine.Valid) {order : Order}
    (own : order.command.own = true) {other : Nat} (elsewhere : order.index ≠ other) :
    (s.after order).sheets[other]? = s.sheets[other]? := by
  obtain ⟨sheet, equal⟩ := after_eq_setSheet valid own
  rw [equal, setSheet, Array.getElem?_setIfInBounds_ne elsewhere]

theorem after_eq {order : Order} {answer : Except Fault Reply}
    (performed : s.perform order.limit order.index order.command = .ok (answer, s')) :
    s.after order = s' := by
  rw [after, performed]

theorem afterAll_cons (s : Session) (order : Order) (rest : List Order) :
    s.afterAll (order :: rest) = (s.after order).afterAll rest := rfl

/-- Commands to other graphs leave a graph as it is, and commands to graphs leave the extra contexts
as they are. -/
theorem afterAll_separate (valid : s.Holds Engine.Valid) {orders : List Order}
    (own : OwnOrders orders) : (s.afterAll orders).contexts = s.contexts ∧
      (s.afterAll orders).nextContext = s.nextContext ∧ ∀ other : Nat,
        (∀ order ∈ orders, order.index ≠ other) →
          (s.afterAll orders).sheets[other]? = s.sheets[other]? := by
  induction orders generalizing s with
  | nil => exact ⟨rfl, rfl, fun _ _ => rfl⟩
  | cons order rest ih =>
    obtain ⟨first, laid⟩ := own.head
    obtain ⟨contexts, next, sheets⟩ := ih (valid_after valid laid) own.tail
    obtain ⟨sheet, equal⟩ := after_eq_setSheet valid first
    rw [afterAll_cons]
    refine ⟨contexts.trans (by rw [equal]; rfl), next.trans (by rw [equal]; rfl), ?_⟩
    intro other elsewhere
    rw [sheets other fun order member => elsewhere order (List.mem_cons_of_mem _ member)]
    exact sheets_after_of_ne valid first (elsewhere order List.mem_cons_self)

theorem valid_afterAll (valid : s.Holds Engine.Valid) {orders : List Order}
    (own : OwnOrders orders) : (s.afterAll orders).Holds Engine.Valid := by
  induction orders generalizing s with
  | nil => exact valid
  | cons order rest ih =>
    exact ih (valid_after valid own.head.2) own.tail

/-- All contexts keep their identities. -/
theorem sameIdentities_afterAll (valid : s.Holds Engine.Valid) {orders : List Order}
    (own : OwnOrders orders) : SameIdentities s (s.afterAll orders) := by
  induction orders generalizing s with
  | nil => exact .refl s
  | cons order rest ih =>
    obtain ⟨first, laid⟩ := own.head
    have kept : SameIdentities s (s.after order) := by
      unfold after
      cases performed : s.perform order.limit order.index order.command with
      | error refusal => exact .refl s
      | ok r => exact .perform valid (Command.keepsIdentities_of_own first) performed
    exact kept.trans (ih (valid_after valid laid) own.tail)

/-- One command to graphs that correspond. -/
theorem seen_corresponds (shown : Graph.Correspondence N G) (pairing : Pairing I)
    (valid : s.Holds Engine.Valid)
    (sheets : Option.Rel (Sheet.Corresponds G I) s.sheets[i]? s'.sheets[j]?) {order : Order}
    (own : order.command.own = true) :
    SeenAlike N G I (seen i (s.perform order.limit i order.command))
        (seen j (s'.perform order.limit j order.command)) ∧
      Option.Rel (Sheet.Corresponds G I) (s.after (order.placed i)).sheets[i]?
        (s'.after (order.placed j)).sheets[j]? := by
  unfold after Order.placed
  dsimp only
  rcases relCases sheets with ⟨missing, missing'⟩ | ⟨sheet, sheet', found, found', h⟩
  · rw [perform_of_missing missing _ own, perform_of_missing missing' _ own]
    exact ⟨.refused _, sheets⟩
  have acted := h.perform found found' shown pairing
    (fun e has => valid.engine? (engine?_eq_some found has)) order.limit own
  generalize s.perform order.limit i order.command = outcome at acted ⊢
  generalize s'.perform order.limit j order.command = outcome' at acted ⊢
  cases acted with
  | refused refusal => exact ⟨.refused refusal, sheets⟩
  | @done r r' acted =>
    obtain ⟨answer, t⟩ := r
    obtain ⟨answer', t'⟩ := r'
    obtain ⟨answers, after, after', equal, equal', same⟩ := acted
    dsimp only at equal equal'
    subst equal equal'
    have put : Option.Rel (Sheet.Corresponds G I) (s.setSheet i after).sheets[i]?
        (s'.setSheet j after').sheets[j]? := by
      rw [sheets_setSheet found, sheets_setSheet found']
      exact .some same
    exact ⟨.done ⟨answers, put⟩, put⟩

/-- What is seen of a graph among others corresponds to what is seen of a graph to which the same
commands are given alone, if the two graphs correspond. -/
theorem seenAt_corresponds (shown : Graph.Correspondence N G) (pairing : Pairing I)
    (valid : s.Holds Engine.Valid)
    (sheets : Option.Rel (Sheet.Corresponds G I) s.sheets[i]? s'.sheets[j]?)
    {orders alone : List Order} (own : OwnOrders orders)
    (same : Sends orders i alone) :
    List.Forall₂ (SeenAlike N G I) (s.seenAt i orders)
      (s'.seenAt j (alone.map fun order => order.placed j)) := by
  induction orders generalizing s s' alone with
  | nil =>
    obtain rfl := List.map_eq_nil_iff.mp same.symm
    exact .nil
  | cons order rest ih =>
    obtain ⟨first, laid⟩ := own.head
    have validAfter := valid_after valid laid
    by_cases here : order.index = i
    · obtain ⟨order, later, rfl, rfl, others⟩ := (sends_cons_self here).mp same
      obtain ⟨seenFirst, after⟩ := seen_corresponds shown pairing valid sheets first
      have there : (order.placed j).index = j := rfl
      rw [seenAt_cons_self here, List.map_cons, seenAt_cons_self there]
      exact .cons seenFirst (ih validAfter after own.tail others)
    -- An order to another graph is not seen, and this one stays as it is.
    · rw [seenAt_cons_of_ne here]
      refine ih validAfter ?_ own.tail ((sends_cons_of_ne here).mp same)
      rw [sheets_after_of_ne valid first here]
      exact sheets

/-- What is seen of a graph is what is seen of it when the commands to other graphs are left out. -/
theorem seenAt_eq_alone (valid : s.Holds Engine.Valid) {orders alone : List Order}
    (own : OwnOrders orders)
    (same : Sends orders i alone) :
    s.seenAt i orders = s.seenAt i (alone.map fun order => order.placed i) := by
  have sheets : Option.Rel (Sheet.Corresponds Eq Eq) s.sheets[i]? s.sheets[i]? := by
    cases s.sheets[i]? with
    | none => exact .none
    | some sheet => exact .some (.refl (fun _ => rfl) (fun _ => rfl) sheet)
  have alike := seenAt_corresponds Graph.eq_correspondence pairing_eq valid sheets own same
  exact List.forall₂_eq_eq_eq ▸ alike.imp fun _ _ h => h.eq.symm

end Session

end NodeGraph
