import NodeGraph.Proofs.Session.Discarding
import NodeGraph.Proofs.Session.Serving

/-!
# Copies of graphs

A graph and its copy go on alike and apart from each other (`Session.Reachable.sheet_copies`). The
copy has a context with another identity, but remembers for which context values were read in the
graph, so the two may differ in one thing: what is current for the graph's own context is not
current for that of the copy. They go on alike as soon as this is discarded, because nothing that
opens an epoch or makes everything stale depends on the context that was served before
(`Session.perform_withServes`).
-/

namespace NodeGraph

namespace Engine

/-- A copy of an engine, whose context has an identity of its own. -/
def copied (e : Engine) (id : Nat) : Engine := { e with context := { e.context with id } }

/-- A read for the engine's own context opens an epoch, in which nothing is current yet. -/
def ReadsAnew (e : Engine) : Prop :=
  ∃ opened : Engine, opened.epoch = (e.epoch.advance e.lastEpoch).2 ∧ opened.Fresh ∧
    ∀ addr, (e.graph.input? addr).isSome → e.getValue addr e.context =
      (.ok (opened.read e.context.locals addr).1, (opened.read e.context.locals addr).2)

theorem readsAnew {e : Engine} (valid : e.Valid) {context : Nat} (serves : e.serves = some context)
    (other : context ≠ e.context.id) : e.ReadsAnew := by
  have different : e.serves ≠ some e.context.id := by
    rw [serves]
    exact fun same => other (Option.some.inj same)
  refine ⟨e.serve e.context.id, ?_, valid.fresh_serve different, fun addr there => ?_⟩
  · unfold serve
    rw [serves]
    dsimp only
    rw [if_neg other]
    exact epoch_openEpoch _
  · obtain ⟨input, found⟩ := Option.isSome_iff_exists.mp there
    unfold getValue
    rw [Graph.input_eq_ok_iff.mpr found]

end Engine

/-- Two identities are exchanged, and all others are what they are. -/
def Exchanged (own copy : Nat) (i i' : Nat) : Prop := i' = Equiv.swap own copy i

theorem pairing_exchanged (own copy : Nat) : Pairing (Exchanged own copy) := by
  rintro i i' j j' rfl rfl
  exact (Equiv.apply_eq_iff_eq _).symm

namespace Session

variable {s s' : Session} {index limit : Nat} {sheet : Sheet} {e : Engine}
  {answer : Except Fault Reply}

section Copies

variable {i j : Nat} {original copy : Sheet} {c : Engine} {own new : Nat} {serves : Option Nat}

/-- The command discards everything, and the graphs correspond but for the contexts that their
epochs serve before it. -/
theorem perform_of_discards (valid : s.Holds Engine.Valid) (found : s.sheets[i]? = some original)
    (found' : s.sheets[j]? = some (copy.withEngine { c with serves }))
    (has : original.engine? = some e) (has' : copy.engine? = some c)
    (h : original.Corresponds Eq (Exchanged own new) copy) {command : Command}
    (ownCommand : command.own = true) (performed : s.perform limit i command = .ok (answer, s'))
    (discards : command.discards e.graph answer = true) :
    ∃ answer' t, s.perform limit j command = .ok (answer', t) ∧
      AnswersCorrespond Eq (Exchanged own new) answer answer' ∧
        Option.Rel (Sheet.Corresponds Eq (Exchanged own new)) s'.sheets[i]? t.sheets[j]? := by
  have placed := sheets_setSheet found' copy
  -- The command is carried out on the copy as if its epoch served what corresponds.
  have acted := h.perform found placed Graph.eq_correspondence (pairing_exchanged own new)
    (fun e has => valid.engine? (engine?_eq_some found has)) limit ownCommand
  rw [performed] at acted
  cases copied : (s.setSheet j copy).perform limit j command with
  | error refusal =>
    rw [copied] at acted
    cases acted
  | ok r =>
    obtain ⟨answer', t⟩ := r
    rw [copied] at acted
    obtain ⟨answers, after, after', rfl, equal, same⟩ : Acted Eq Eq (Exchanged own new) i j s
        (s.setSheet j copy) (answer, s') (answer', t) := by
      cases acted with
      | done acted => exact acted
    dsimp only at answers equal
    have discards' : command.discards c.graph answer' = true := by
      have engines := h.engine?
      rw [has, has'] at engines
      cases engines with
      | some engines => rw [Command.discards_congr _ _ answers, ← engines.graphs, discards]
    have again := perform_withServes placed has' ownCommand copied discards' serves
    rw [setSheet_setSheet, setSheet_self found'] at again
    refine ⟨answer', t, again, answers, ?_⟩
    rw [equal, sheets_setSheet found, sheets_setSheet placed]
    exact .some same

/-- The first command discards everything, and the others follow on graphs that correspond. -/
theorem seenAt_of_discards (valid : s.Holds Engine.Valid) (found : s.sheets[i]? = some original)
    (found' : s.sheets[j]? = some (copy.withEngine { c with serves }))
    (has : original.engine? = some e) (has' : copy.engine? = some c)
    (h : original.Corresponds Eq (Exchanged own new) copy) {first : Order} {rest : List Order}
    (ownOrders : OwnOrders ((first :: rest).map fun order => order.placed i))
    (performed : s.perform first.limit i first.command = .ok (answer, s'))
    (discards : first.command.discards e.graph answer = true) :
    List.Forall₂ (SeenAlike Eq Eq (Exchanged own new))
      (s.seenAt i ((first :: rest).map fun order => order.placed i))
      (s.seenAt j ((first :: rest).map fun order => order.placed j)) := by
  obtain ⟨firstOwn, laid⟩ := ownOrders.head
  obtain ⟨answer', t, performed', answers, afterwards⟩ :=
    perform_of_discards valid found found' has has' h firstOwn performed discards
  have here : (first.placed i).index = i := rfl
  have there : (first.placed j).index = j := rfl
  have next : s.after (first.placed i) = s' := after_eq performed
  have next' : s.after (first.placed j) = t := after_eq performed'
  have validNext : s'.Holds Engine.Valid := next ▸ valid_after valid laid
  have others := seenAt_corresponds Graph.eq_correspondence (pairing_exchanged own new) validNext
    afterwards ownOrders.tail (sends_placed rest i)
  have shown : SeenAlike Eq Eq (Exchanged own new) (seen i (.ok (answer, s')))
      (seen j (.ok (answer', t))) := .done ⟨answers, afterwards⟩
  rw [List.map_cons, List.map_cons, seenAt_cons_self here, seenAt_cons_self there, next, next']
  rw [← performed, ← performed'] at shown
  exact .cons shown others

end Copies

/-- The first command to the graph at a position discards what was read before. -/
def BeginsAnew (s : Session) (index : Nat) (g : Graph) (alone : List Order) : Prop :=
  ∃ first rest answer after, alone = first :: rest ∧
    s.perform first.limit index first.command = .ok (answer, after) ∧
      first.command.discards g answer = true

theorem copySheet_eq (s : Session) (has : sheet.engine? = some e) :
    s.copySheet sheet = (s.sheets.size,
      { s with
        sheets := s.sheets.push (sheet.withEngine (e.copied s.nextContext))
        nextContext := s.nextContext + 1 }) := by
  unfold copySheet
  rw [has]
  rfl

/-- The graph corresponds to its copy, if the epoch serves what corresponds. -/
theorem exchanged_copied (has : sheet.engine? = some e) (next : Nat) :
    sheet.Corresponds Eq (Exchanged e.context.id next)
      (sheet.withEngine { e.copied next with
        serves := e.serves.map (Equiv.swap e.context.id next) }) := by
  have engines : e.Corresponds Eq (Exchanged e.context.id next)
      { e.copied next with serves := e.serves.map (Equiv.swap e.context.id next) } := by
    refine ⟨rfl, ⟨(Equiv.swap_apply_left _ _).symm, rfl, rfl⟩, ?_, rfl⟩
    cases e.serves with
    | none => exact .none
    | some context => exact .some rfl
  cases sheet with
  | wiring g => cases has
  | engine _ =>
    obtain rfl := Option.some.inj has
    exact .engine engines
  | program p =>
    obtain rfl := Option.some.inj has
    exact .program engines

/-- Only the identity of the graph's own context becomes another one. -/
theorem map_swap_serves (named : e.Names (· < s.nextContext))
    (foreign : e.serves ≠ some e.context.id) :
    e.serves.map (Equiv.swap e.context.id s.nextContext) = e.serves := by
  cases serves : e.serves with
  | none => rfl
  | some context =>
    have below := named.serves serves
    have other : context ≠ e.context.id := by
      rintro rfl
      exact foreign serves
    rw [Option.map_some, Equiv.swap_apply_of_ne_of_ne other (Nat.ne_of_lt below)]

section Reachable

variable (reachable : s.Reachable) (found : s.sheets[index]? = some sheet)

include reachable found

theorem reachable_copySheet : (s.copySheet sheet).2.Reachable := by
  have laid : Command.copySheet.LaidOut := fun node member => by cases member
  exact reachable.perform laid (perform_copySheet found 0)

variable (has : sheet.engine? = some e)

include has

/-- What is seen of the graph is seen of its copy. -/
theorem seenAt_copySheet {alone orders orders' : List Order} (own : OwnOrders orders)
    (own' : OwnOrders orders') (same : Sends orders index alone)
    (same' : Sends orders' s.sheets.size alone)
    (anew : e.serves = some e.context.id → (s.copySheet sheet).2.BeginsAnew index e.graph alone) :
    List.Forall₂ (SeenAlike Eq Eq (Exchanged e.context.id s.nextContext))
      ((s.copySheet sheet).2.seenAt index orders)
      ((s.copySheet sheet).2.seenAt s.sheets.size orders') := by
  have valid := (reachable_copySheet reachable found).holds valid_invariant
  have named := reachable.named index e (engine?_eq_some found has)
  have corresponds := exchanged_copied has s.nextContext
  obtain ⟨below, _⟩ := Array.getElem?_eq_some_iff.mp found
  have original : (s.copySheet sheet).2.sheets[index]? = some sheet := by
    rw [copySheet_eq s has, Array.getElem?_push, if_neg (Nat.ne_of_lt below), found]
  have copy : (s.copySheet sheet).2.sheets[s.sheets.size]? =
      some (sheet.withEngine (e.copied s.nextContext)) := by
    rw [copySheet_eq s has, Array.getElem?_push_size]
  rw [seenAt_eq_alone valid own' same']
  by_cases bound : e.serves = some e.context.id
  -- The graph serves its own context and the copy a foreign one, until both discard what was read.
  · obtain ⟨first, rest, answer, after, rfl, performed, discards⟩ := anew bound
    rw [seenAt_eq_alone valid own same]
    have unmapped : e.copied s.nextContext =
        { { e.copied s.nextContext with
            serves := e.serves.map (Equiv.swap e.context.id s.nextContext) } with
          serves := e.serves } := rfl
    rw [unmapped, ← Sheet.withEngine_withEngine] at copy
    exact seenAt_of_discards valid original copy has (Sheet.engine?_withEngine has _) corresponds
      (ownOrders_placed own same index) performed discards
  -- The context that is served is neither of the two whose identities are exchanged.
  · rw [map_swap_serves named bound] at corresponds
    refine seenAt_corresponds Graph.eq_correspondence (pairing_exchanged _ _) valid ?_ own same
    rw [original, copy]
    exact .some corresponds

/-- While the epoch of the copy serves the context that it served before, a read for the copy's own
context opens a new one. -/
theorem readsAnew_copySheet {context : Nat} (bound : e.serves = some context) {orders : List Order}
    (own : OwnOrders orders) :
    ∃ c, ((s.copySheet sheet).2.afterAll orders).engine? s.sheets.size = some c ∧
      c.context.id = s.nextContext ∧
        ((c.serves = some context ∧ c.ReadsAnew) ∨ (c.serves = none ∧ c.Fresh) ∨
          c.serves = some s.nextContext) := by
  have valid := (reachable_copySheet reachable found).holds valid_invariant
  have below := (reachable.named index e (engine?_eq_some found has)).serves bound
  have copy := engine?_copySheet s has
  have place : ((s.copySheet sheet).2.afterAll orders).identity? (.own s.sheets.size) =
      some s.nextContext := by
    rw [(sameIdentities_afterAll valid own).same, identity?_own, copy]
    rfl
  rw [identity?_own] at place
  obtain ⟨c, there, identity⟩ := Option.map_eq_some_iff.mp place
  have validEngine := (valid_afterAll valid own).engine? there
  have named : ∀ e', (s.copySheet sheet).2.engine? s.sheets.size = some e' →
      e'.Names fun id => id = context ∨ id = s.nextContext := by
    intro e' there
    obtain rfl := Option.some.inj (copy.symm.trans there)
    refine ⟨.inr rfl, fun serves => .inl ?_⟩
    exact Option.some.inj (serves.symm.trans bound)
  have names := names_afterAll valid named own there
  refine ⟨c, there, identity, ?_⟩
  cases serves : c.serves with
  | none => exact .inr (.inl ⟨rfl, validEngine.unserved serves⟩)
  | some served =>
    rcases names.serves serves with rfl | rfl
    · exact .inl ⟨rfl, Engine.readsAnew validEngine serves (identity ▸ Nat.ne_of_lt below)⟩
    · exact .inr (.inr rfl)

end Reachable

/-- A graph and its copy, among others and whatever commands are given to these in between:
* the same commands show the same of both, but that the identities of their contexts are exchanged,
  if the epoch does not serve the graph's own context or the first command discards what was read;
* commands to either of them leave the other as it is, and all else in the session;
* a context that the epoch served is not the copy's own one. As long as the copy is bound to it, a
  read for the copy's own context opens a new epoch, in which nothing is current; from then on the
  copy serves its own context or, with nothing current again, none. -/
theorem Reachable.sheet_copies {s : Session} (reachable : s.Reachable) {index : Nat} {sheet : Sheet}
    {e : Engine} (found : s.sheets[index]? = some sheet) (has : sheet.engine? = some e) :
    let own := e.context.id
    let new := s.nextContext
    let copy := (s.copySheet sheet).1
    let t := (s.copySheet sheet).2
    (∀ {alone orders orders' : List Order}, OwnOrders orders → OwnOrders orders' →
        Sends orders index alone → Sends orders' copy alone →
          (e.serves = some own → t.BeginsAnew index e.graph alone) →
            List.Forall₂ (SeenAlike Eq Eq (Exchanged own new)) (t.seenAt index orders)
              (t.seenAt copy orders')) ∧
      (∀ {orders : List Order}, OwnOrders orders → (t.afterAll orders).contexts = t.contexts ∧
        (t.afterAll orders).nextContext = t.nextContext ∧ ∀ other : Nat,
          (∀ order ∈ orders, order.index ≠ other) →
            (t.afterAll orders).sheets[other]? = t.sheets[other]?) ∧
      (t.engine? copy = some (e.copied new) ∧ ∀ {context}, e.serves = some context →
        context ≠ new ∧ ∀ {orders : List Order}, OwnOrders orders →
          ∃ c, (t.afterAll orders).engine? copy = some c ∧ c.context.id = new ∧
            ((c.serves = some context ∧ c.ReadsAnew) ∨ (c.serves = none ∧ c.Fresh) ∨
              c.serves = some new)) := by
  intro own new copy t
  have valid := (reachable_copySheet reachable found).holds valid_invariant
  refine ⟨fun own own' same same' anew => ?_, fun own => afterAll_separate valid own, ?_,
    fun {context} bound => ⟨?_, fun {orders} own => ?_⟩⟩
  · exact seenAt_copySheet reachable found has own own' same same' anew
  · exact engine?_copySheet s has
  · have named := reachable.named index e (engine?_eq_some found has)
    exact Nat.ne_of_lt (named.serves bound)
  · exact readsAnew_copySheet reachable found has bound own

/-- Twice the local variable `x`, which has been read for the graph's own context. -/
def doubled : Session :=
  script 5 [.openSheet .engine {}, .add (Node.getLocal "x"),
    .add (Node.ofKind (.pure (.binary (.arithmetic .add)))),
    .connect ⟨⟨0, 0⟩, ⟨1, 0⟩⟩, .connect ⟨⟨0, 0⟩, ⟨1, 1⟩⟩, .setLocal "x" (.int 2) none,
    .getValue ⟨1, 0⟩ none] {}

def doubledSheet : Sheet := doubled.sheets[0]?.get (by decide +kernel)

def doubledEngine : Engine := doubledSheet.engine?.get (by decide +kernel)

/-- Reads for the own context in a new epoch, with another value of the variable in between. -/
def rereading : List Order :=
  [⟨5, 0, .pullOutputs [⟨1, 0⟩]⟩, ⟨5, 0, .setLocal "x" (.int 3) none⟩,
    ⟨5, 0, .getValue ⟨1, 1⟩ none⟩, ⟨5, 0, .pullOutputs [⟨1, 0⟩]⟩]

theorem sheet_copies_doubled :
    let t := (doubled.copySheet doubledSheet).2
    let orders := rereading ++ rereading.map fun order => order.placed 1
    doubled.Reachable ∧ doubled.sheets[0]? = some doubledSheet ∧
      doubledSheet.engine? = some doubledEngine ∧
      doubledEngine.serves = some doubledEngine.context.id ∧
      t.BeginsAnew 0 doubledEngine.graph rereading ∧ OwnOrders orders ∧
      Sends orders 0 rereading ∧ Sends orders 1 rereading ∧
      List.Forall₂ (SeenAlike Eq Eq (Exchanged doubledEngine.context.id doubled.nextContext))
        (t.seenAt 0 orders) (t.seenAt 1 orders) ∧
      (t.afterAll rereading).sheets[1]? = t.sheets[1]? ∧
      ∃ c, t.engine? 1 = some c ∧ c.serves = some doubledEngine.context.id ∧ c.ReadsAnew := by
  intro t orders
  have reachable : doubled.Reachable := Reachable.empty.script 5 (by decide +kernel)
  have found : doubled.sheets[0]? = some doubledSheet := Option.eq_some_of_isSome _
  have has : doubledSheet.engine? = some doubledEngine := Option.eq_some_of_isSome _
  have bound : doubledEngine.serves = some doubledEngine.context.id := by decide +kernel
  have own : OwnOrders orders := by decide +kernel
  have sends : Sends orders 0 rereading := rfl
  have sends' : Sends orders 1 rereading := rfl
  have anew : t.BeginsAnew 0 doubledEngine.graph rereading := by
    have carried : (t.perform 5 0 (.pullOutputs [⟨1, 0⟩])).isOk = true := by decide +kernel
    cases performed : t.perform 5 0 (.pullOutputs [⟨1, 0⟩]) with
    | error refusal =>
      rw [performed] at carried
      cases carried
    | ok r => exact ⟨_, _, r.1, r.2, rfl, performed, rfl⟩
  have position : (doubled.copySheet doubledSheet).1 = 1 := by decide +kernel
  obtain ⟨same, separate, copied, bindings⟩ := Reachable.sheet_copies reachable found has
  rw [position] at same copied bindings
  refine ⟨reachable, found, has, bound, anew, own, sends, sends', ?_, ?_, ?_⟩
  · exact same own own sends sends' fun _ => anew
  · exact (separate (by decide +kernel)).2.2 1 (by decide +kernel)
  · obtain ⟨other, later⟩ := bindings bound
    obtain ⟨c, there, -, ways⟩ := later (show OwnOrders [] from nofun)
    obtain rfl := Option.some.inj (copied.symm.trans there)
    rcases ways with ⟨serves, anew⟩ | ⟨unserved, -⟩ | served
    · exact ⟨_, there, serves, anew⟩
    · cases bound.symm.trans unserved
    · exact absurd (Option.some.inj (bound.symm.trans served)) other

end Session

end NodeGraph
