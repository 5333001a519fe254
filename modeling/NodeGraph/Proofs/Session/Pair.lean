import NodeGraph.Proofs.Session.Identity
import NodeGraph.Proofs.Session.Likeness

/-!
# Pairs of sessions

A relation of sessions that holds again when related graphs and contexts are put back is kept by
every command. A command to one graph may be given to graphs at different positions, in sessions
that have nothing else in common (`SheetPair.perform`). Commands that make or copy something ask for
sessions that are related as a whole (`SessionPair.perform`).
-/

namespace NodeGraph

section Arrays

variable {α β : Type} {R : Nat → α → β → Prop} {xs : Array α} {ys : Array β}
  (each : ∀ index : Nat, Option.Rel (R index) xs[index]? ys[index]?) (sizes : ys.size = xs.size)

include each sizes

/-- Arrays that are related at every index stay so when related elements are put in one place. -/
theorem rel_setIfInBounds {index : Nat} {a : α} {b : β} (put : R index a b) (other : Nat) :
    Option.Rel (R other) (xs.setIfInBounds index a)[other]? (ys.setIfInBounds index b)[other]? := by
  have before := each other
  simp only [Array.getElem?_setIfInBounds, sizes]
  split
  next same =>
    subst same
    split
    · exact .some put
    · exact .none
  · exact before

theorem rel_push {a : α} {b : β} (pushed : R xs.size a b) (other : Nat) :
    Option.Rel (R other) (xs.push a)[other]? (ys.push b)[other]? := by
  have before := each other
  simp only [Array.getElem?_push, sizes]
  split
  next same =>
    subst same
    exact .some pushed
  · exact before

end Arrays

namespace Session

/-- Sessions with the same contexts, and with graphs that `S` relates at each position. -/
structure Alongside (S : Nat → Sheet → Sheet → Prop) (s s' : Session) : Prop where
  sheets : ∀ index, Option.Rel (S index) s.sheets[index]? s'.sheets[index]?
  sheetCount : s'.sheets.size = s.sheets.size
  contexts : s'.contexts = s.contexts
  next : s'.nextContext = s.nextContext

namespace Alongside

variable {S : Nat → Sheet → Sheet → Prop} {s s' : Session} (h : s.Alongside S s')

include h

theorem setSheet {index : Nat} {sheet sheet' : Sheet} (put : S index sheet sheet') :
    (s.setSheet index sheet).Alongside S (s'.setSheet index sheet') := by
  refine { h with sheets := rel_setIfInBounds h.sheets h.sheetCount put, sheetCount := ?_ }
  simp [Session.setSheet, h.sheetCount]

theorem push {sheet sheet' : Sheet} (pushed : S s.sheets.size sheet sheet') (next : Nat) :
    Alongside S { s with sheets := s.sheets.push sheet, nextContext := next }
      { s' with sheets := s'.sheets.push sheet', nextContext := next } := by
  refine { h with
    sheets := rel_push h.sheets h.sheetCount pushed
    sheetCount := ?_
    next := rfl }
  simp [h.sheetCount]

theorem extra? (extra : Nat) :
    Option.Rel (Context.Corresponds Eq) s.contexts[extra]? s'.contexts[extra]? := by
  rw [h.contexts]
  cases s.contexts[extra]? with
  | none => exact .none
  | some c => exact .some (Context.corresponds_eq_iff.mpr rfl)

theorem setExtra {extra : Nat} {c c' : Context} (same : c.Corresponds Eq c') :
    Alongside S { s with contexts := s.contexts.setIfInBounds extra c }
      { s' with contexts := s'.contexts.setIfInBounds extra c' } := by
  obtain rfl := Context.corresponds_eq_iff.mp same
  exact { h with contexts := by simp only [h.contexts] }

theorem addContext (locals : Locals) (printed : Array String) :
    (s'.addContext locals printed).1 = (s.addContext locals printed).1 ∧
      (s.addContext locals printed).2.Alongside S (s'.addContext locals printed).2 := by
  refine ⟨congrArg Array.size h.contexts, { h with contexts := ?_, next := ?_ }⟩
  · simp only [Session.addContext, h.contexts, h.next]
  · exact congrArg (· + 1) h.next

end Alongside

end Session

/-- A relation `T` of sessions in which the graphs at two positions are related, and the extra
contexts that commands to these may name. -/
structure SheetPair (L : Likeness) (T : Session → Session → Prop) (i j : Nat) : Prop where
  laws : L.Lawful
  sheet? : ∀ {s s'}, T s s' →
    Option.Rel (Sheet.Related L.wirings L.engines) s.sheets[i]? s'.sheets[j]?
  setSheet : ∀ {s s' sheet sheet'}, T s s' → sheet.Related L.wirings L.engines sheet' →
    T (s.setSheet i sheet) (s'.setSheet j sheet')
  extra? : ∀ {s s' extra}, T s s' → L.named extra →
    Option.Rel (L.extras extra) s.contexts[extra]? s'.contexts[extra]?
  setExtra : ∀ {s s' extra c c'}, T s s' → L.named extra → L.extras extra c c' →
    T { s with contexts := s.contexts.setIfInBounds extra c }
      { s' with contexts := s'.contexts.setIfInBounds extra c' }

/-- A relation `T` of sessions in which the graphs at every position and all extra contexts are
related. -/
structure SessionPair (L : Nat → Likeness) (T : Session → Session → Prop) : Prop where
  sheet : ∀ index, SheetPair (L index) T index index
  sheetCount : ∀ {s s'}, T s s' → s'.sheets.size = s.sheets.size
  next : ∀ {s s'}, T s s' → s'.nextContext = s.nextContext
  identities : ∀ index id, (L index).identities id id
  /-- Nodes that graphs show can be added to other graphs. -/
  copied : ∀ {index target n n'}, (L index).nodes n n' → (L target).added n n'
  /-- A graph may be opened behind the others. -/
  opened : ∀ {s s'}, T s s' → ∀ index id config, (L s.sheets.size).engines
    { context := { id }, config } { context := { id }, config := (L index).settings config }
  empty : ∀ index, (L index).wirings {} {}
  /-- A graph may be copied behind the others. -/
  behind : ∀ {s s' index} {sheet sheet' : Sheet}, T s s' →
    sheet.Related (L index).wirings (L index).engines sheet' →
      sheet.Related (L s.sheets.size).wirings (L s.sheets.size).engines sheet'
  push : ∀ {s s'} {sheet sheet' : Sheet}, T s s' →
    sheet.Related (L s.sheets.size).wirings (L s.sheets.size).engines sheet' → ∀ next,
      T { s with sheets := s.sheets.push sheet, nextContext := next }
        { s' with sheets := s'.sheets.push sheet', nextContext := next }
  addContext : ∀ {s s'}, T s s' → ∀ locals printed,
    (s'.addContext locals printed).1 = (s.addContext locals printed).1 ∧
      T (s.addContext locals printed).2 (s'.addContext locals printed).2

namespace SheetPair

variable {L : Likeness} {T : Session → Session → Prop} {i j : Nat} (pair : SheetPair L T i j)
  {A : Except Fault Reply → Except Fault Reply → Prop} {s s' : Session}

include pair

theorem onEngineWithin (h : T s s') {act act' : Engine → Option (Except Fault Reply × Engine)}
    (acts : ∀ {e e'}, s.engine? i = some e → s'.engine? j = some e' → L.engines e e' →
      Option.Rel (Both A L.engines) (act e) (act' e')) :
    ResultsAgree (Both A T) (s.onEngineWithin i act) (s'.onEngineWithin j act') := by
  unfold Session.onEngineWithin
  rcases relCases (pair.sheet? h) with
    ⟨missing, missing'⟩ | ⟨sheet, sheet', found, found', sheets⟩
  · rw [missing, missing']
    exact .refused _
  rw [found, found']
  dsimp only
  rcases relCases sheets.engine? with ⟨none, none'⟩ | ⟨e, e', has, has', engines⟩
  · rw [none, none']
    exact .refused _
  rw [has, has']
  dsimp only
  rcases relCases (acts (Session.engine?_eq_some found has) (Session.engine?_eq_some found' has')
    engines) with ⟨unended, unended'⟩ | ⟨r, r', ended, ended', answers, after⟩
  · rw [unended, unended']
    exact .refused _
  · rw [ended, ended']
    exact .done ⟨answers, pair.setSheet h (sheets.withEngine after)⟩

theorem onEngine (h : T s s') {act act' : Engine → Except Fault Reply × Engine}
    (acts : ∀ {e e'}, s.engine? i = some e → s'.engine? j = some e' → L.engines e e' →
      Both A L.engines (act e) (act' e')) :
    ResultsAgree (Both A T) (s.onEngine i act) (s'.onEngine j act') := by
  rw [Session.onEngine_eq_within, Session.onEngine_eq_within]
  exact pair.onEngineWithin h fun there there' engines => .some (acts there there' engines)

theorem onMachine (h : T s s') {context : Option Nat}
    (named : ∀ extra, context = some extra → L.named extra)
    {act act' : Machine → Option (Except Fault Reply × Machine)}
    (acts : ∀ m m' : Machine, s.engine? i = some m.engine → s'.engine? j = some m'.engine →
      s.context? i context = some m.context → L.engines m.engine m'.engine →
        L.contexts context m.context m'.context →
          Option.Rel (Both A fun m m' =>
            L.engines m.engine m'.engine ∧ L.contexts context m.context m'.context)
            (act m) (act' m')) :
    ResultsAgree (Both A T) (s.onMachine i context act) (s'.onMachine j context act') := by
  cases context with
  | none =>
    refine pair.onEngineWithin h fun {e e'} there there' engines => ?_
    refine relMap (acts ⟨e, e.context⟩ ⟨e', e'.context⟩ there there' (Session.context?_own there)
      engines (pair.laws.engines.own engines)) ?_
    rintro r r' ⟨answers, after, contexts⟩
    exact ⟨answers, pair.laws.engines.withContext after contexts⟩
  | some extra =>
    have named := named extra rfl
    unfold Session.onMachine
    dsimp only
    rcases relCases (pair.sheet? h) with
      ⟨missing, missing'⟩ | ⟨sheet, sheet', found, found', sheets⟩
    · rw [missing, missing']
      exact .refused _
    rw [found, found']
    rcases relCases (pair.extra? h named) with
      ⟨absent, absent'⟩ | ⟨c, c', place, place', contexts⟩
    · rw [absent, absent']
      exact .refused _
    rw [place, place']
    dsimp only
    rcases relCases sheets.engine? with ⟨none, none'⟩ | ⟨e, e', has, has', engines⟩
    · rw [none, none']
      exact .refused _
    rw [has, has']
    dsimp only
    rcases relCases (acts ⟨e, c⟩ ⟨e', c'⟩ (Session.engine?_eq_some found has)
      (Session.engine?_eq_some found' has') place engines contexts) with
      ⟨unended, unended'⟩ | ⟨r, r', ended, ended', answers, after, contexts⟩
    · rw [unended, unended']
      exact .refused _
    · rw [ended, ended']
      have put := pair.setSheet h (sheets.withEngine after)
      exact .done ⟨answers, pair.setExtra put named contexts⟩

/-- The context is one that may be used, so it is the same on both sides but for its identity. -/
theorem onContext (h : T s s') {context : Option Nat}
    (named : ∀ extra, context = some extra → L.named extra)
    (used : ∀ extra, context = some extra → L.used extra) {act : Context → Reply × Context}
    (acts : ∀ {c c'}, c.Corresponds L.identities c' →
      A (.ok (act c).1) (.ok (act c').1) ∧ (act c).2.Corresponds L.identities (act c').2) :
    ResultsAgree (Both A T) (s.onContext i context act) (s'.onContext j context act) := by
  refine pair.onMachine h named fun m m' _ _ _ engines contexts => .some ?_
  obtain ⟨answers, after⟩ := acts ((pair.laws.contexts_iff used).mp contexts)
  exact ⟨answers, engines, (pair.laws.contexts_iff used).mpr after⟩

theorem onProgram (h : T s s') {act act' : Program → Option (Except Fault Reply × Program)}
    (acts : ∀ {e e' entry}, s.engine? i = some e → s'.engine? j = some e' → L.engines e e' →
      Option.Rel (Both A fun p p' => L.engines p.engine p'.engine ∧ p'.entry = p.entry)
        (act ⟨e, entry⟩) (act' ⟨e', entry⟩)) :
    ResultsAgree (Both A T) (s.onProgram i act) (s'.onProgram j act') := by
  unfold Session.onProgram
  rcases relCases (pair.sheet? h) with
    ⟨missing, missing'⟩ | ⟨sheet, sheet', found, found', sheets⟩
  · rw [missing, missing']
    exact .refused _
  rw [found, found']
  cases sheets with
  | wiring _ => exact .refused _
  | engine _ => exact .refused _
  | program engines =>
    dsimp only
    rcases relCases (acts (Session.engine?_eq_some found rfl) (Session.engine?_eq_some found' rfl)
      engines) with ⟨unended, unended'⟩ |
      ⟨⟨answer, e, entry⟩, ⟨answer', e', entry'⟩, ended, ended', answers, after, entries⟩
    · rw [unended, unended']
      exact .refused _
    · obtain rfl : entry' = entry := entries
      rw [ended, ended']
      exact .done ⟨answers, pair.setSheet h (.program after)⟩

theorem ask (h : T s s') {answer answer' : Sheet → Except Fault Reply}
    (answers : ∀ {sheet sheet'}, sheet.Related L.wirings L.engines sheet' →
      A (answer sheet) (answer' sheet')) :
    ResultsAgree (Both A T) (s.ask i answer) (s'.ask j answer') := by
  unfold Session.ask
  rcases relCases (pair.sheet? h) with
    ⟨missing, missing'⟩ | ⟨sheet, sheet', found, found', sheets⟩
  · rw [missing, missing']
    exact .refused _
  · rw [found, found']
    exact .done ⟨answers sheets, h⟩

theorem change (same : ∀ answer, A answer answer) (h : T s s')
    {act act' : Sheet → Except Fault (Reply × Sheet)}
    (acts : ∀ {sheet sheet'}, sheet.Related L.wirings L.engines sheet' →
      ResultsAgree
        (fun r r' => A (.ok r.1) (.ok r'.1) ∧ r.2.Related L.wirings L.engines r'.2)
        (act sheet) (act' sheet')) :
    ResultsAgree (Both A T) (s.change i act) (s'.change j act') := by
  unfold Session.change
  rcases relCases (pair.sheet? h) with
    ⟨missing, missing'⟩ | ⟨sheet, sheet', found, found', sheets⟩
  · rw [missing, missing']
    exact .refused _
  rw [found, found']
  have acted := acts sheets
  dsimp only
  generalize act sheet = result at acted ⊢
  generalize act' sheet' = result' at acted ⊢
  cases acted with
  | refused reason => exact .done ⟨same _, h⟩
  | done answered => exact .done ⟨answered.1, pair.setSheet h answered.2⟩

variable (limit : Nat)

theorem addChain (h : T s s') (node : Node) (count : Nat) (output input : PortId) :
    ResultsAgree (Both (L.answers (.addChain node count output input)) T)
      (s.perform limit i (.addChain node count output input))
      (s'.perform limit j (.addChain node count output input)) := by
  dsimp only [Session.perform]
  rcases relCases (pair.sheet? h) with
    ⟨missing, missing'⟩ | ⟨sheet, sheet', found, found', sheets⟩
  · rw [missing, missing']
    exact .refused _
  · rw [found, found']
    obtain ⟨results, after⟩ :=
      sheets.addChain pair.laws (pair.laws.added node) output input count none
    dsimp only
    rw [results, (sheets.shows pair.laws).size]
    exact .done ⟨pair.laws.answers.same _ _, pair.setSheet h after⟩

theorem setLiteral (h : T s s') (addr : InputAddr) (value : Value) :
    ResultsAgree (Both (L.answers (.setLiteral addr value)) T)
      (s.perform limit i (.setLiteral addr value))
      (s'.perform limit j (.setLiteral addr value)) := by
  refine pair.onEngine h fun {e e'} _ _ engines => ?_
  have results := pair.laws.engines.setLiteral engines addr value
  generalize e.setLiteral addr value = result at results ⊢
  generalize e'.setLiteral addr value = result' at results ⊢
  cases results with
  | refused reason => exact ⟨pair.laws.answers.same _ _, engines⟩
  | done after => exact ⟨pair.laws.answers.same _ _, after⟩

theorem setEntry (h : T s s') (id : NodeId) :
    ResultsAgree (Both (L.answers (.setEntry id)) T) (s.perform limit i (.setEntry id))
      (s'.perform limit j (.setEntry id)) := by
  refine pair.onProgram h fun {e e' entry} _ _ engines => ?_
  have set : ResultsAgree
      (fun p p' : Program => L.engines p.engine p'.engine ∧ p'.entry = p.entry)
      (Program.setEntry ⟨e, entry⟩ id) (Program.setEntry ⟨e', entry⟩ id) :=
    ((pair.laws.engines.shows engines).node id).bind fun _ => .done ⟨engines, rfl⟩
  generalize Program.setEntry ⟨e, entry⟩ id = result at set ⊢
  generalize Program.setEntry ⟨e', entry⟩ id = result' at set ⊢
  cases set with
  | refused reason => exact .some ⟨pair.laws.answers.same _ _, engines, rfl⟩
  | done after => exact .some ⟨pair.laws.answers.same _ _, after⟩

/-- Only bare wiring can be relabelled. -/
theorem relabel (h : T s s') (id : NodeId) (newId : Option NodeId) (title : Option String) :
    ResultsAgree (Both (L.answers (.relabel id newId title)) T)
      (s.perform limit i (.relabel id newId title))
      (s'.perform limit j (.relabel id newId title)) := by
  dsimp only [Session.perform]
  rcases relCases (pair.sheet? h) with
    ⟨missing, missing'⟩ | ⟨sheet, sheet', found, found', sheets⟩
  · rw [missing, missing']
    exact .refused _
  rw [found, found']
  cases sheets with
  | engine _ => exact .refused _
  | program _ => exact .refused _
  | @wiring g g' graphs =>
    have relabelled := pair.laws.wirings.relabel graphs id newId title
    dsimp only
    generalize g.relabel id newId title = result at relabelled ⊢
    generalize g'.relabel id newId title = result' at relabelled ⊢
    cases relabelled with
    | refused reason => exact .done ⟨pair.laws.answers.same _ _, h⟩
    | done graphs => exact .done ⟨pair.laws.answers.same _ _, pair.setSheet h (.wiring graphs)⟩

/-- A run of a program goes on alike from the entry node. -/
theorem run (h : T s s')
    (known : ∀ {e e'}, s.engine? i = some e → s'.engine? j = some e' →
      L.known .run ⟨e, e.context⟩ ⟨e', e'.context⟩) :
    ResultsAgree (Both (L.answers .run) T) (s.perform limit i .run) (s'.perform limit j .run) := by
  have laws := pair.laws
  refine pair.onProgram h fun {e e' entry} there there' engines => ?_
  cases entry with
  | none => exact .some ⟨laws.answers.same _ _, laws.engines.log engines .noEntry, rfl⟩
  | some id =>
    have idle := laws.idle rfl (known there there') engines
    have ran : Option.Rel
        (AnswersAgree True fun p p' : Program =>
          L.engines p.engine p'.engine ∧ p'.entry = p.entry)
        (Program.run limit ⟨e, some id⟩) (Program.run limit ⟨e', some id⟩) := by
      refine relMap (laws.evaluations.runs.executeOwn limit idle id) ?_
      rintro r r' ⟨answers, after⟩
      refine ⟨?_, laws.rested after, rfl⟩
      intro _
      exact congrArg (Except.map some) (answers trivial)
    refine relMap ran ?_
    rintro r r' ⟨answers, after⟩
    exact ⟨laws.answer _ (Except.map Reply.node?) (answers trivial), after⟩

/-- A command to one graph goes on alike on both sides. -/
theorem perform (h : T s s') {command : Command} (single : command.single = true)
    (admitted : L.Admits command)
    (known : ∀ m m' : Machine, s.engine? i = some m.engine → s'.engine? j = some m'.engine →
      s.context? i command.names? = some m.context → L.known command m m') :
    ResultsAgree (Both (L.answers command) T) (s.perform limit i command)
      (s'.perform limit j (command.mapConfig L.settings)) := by
  have laws := pair.laws
  have same := laws.answers.same command
  obtain ⟨named, used⟩ := admitted
  -- What is known of an engine and its own context.
  have knownOwn (names : command.names? = none) {e e' : Engine} (there : s.engine? i = some e)
      (there' : s'.engine? j = some e') : L.known command ⟨e, e.context⟩ ⟨e', e'.context⟩ :=
    known ⟨e, e.context⟩ ⟨e', e'.context⟩ there there' (names ▸ Session.context?_own there)
  cases command with dsimp only [Session.perform, Command.mapConfig]
  | copyNode _ _ => cases single
  | copySheet => cases single
  | openSheet _ _ => cases single
  | newContext => cases single
  | copyContext _ => cases single
  | swapContext _ => cases single
  | add node =>
    refine pair.change same h fun sheets => .done ?_
    obtain ⟨ids, added⟩ := sheets.add laws (laws.added node)
    exact ⟨laws.answer _ (fun id => .ok (.index id)) ids, added⟩
  | addChain node count output input => exact pair.addChain limit h node count output input
  | connect link =>
    exact pair.change same h fun sheets => (sheets.connect laws link).map fun connected =>
      ⟨same _, connected⟩
  | disconnect target =>
    refine pair.change same h fun sheets => (sheets.disconnect laws target).map fun both => ?_
    exact ⟨laws.answer _ (fun source => .ok (.source source)) (both.1 trivial), both.2⟩
  | setLiteral addr value => exact pair.setLiteral limit h addr value
  | links =>
    exact pair.ask h fun sheets =>
      laws.answer _ (fun links => .ok (.links links)) (sheets.shows laws).links
  | successors addr =>
    exact pair.ask h fun sheets =>
      laws.answer _ (fun ids => .ok (.ids ids)) ((sheets.shows laws).successors addr)
  | size =>
    exact pair.ask h fun sheets =>
      laws.answer _ (fun size => .ok (.size size)) (sheets.shows laws).size
  | node id =>
    refine pair.ask h fun {sheet sheet'} sheets => ?_
    have nodes := (sheets.shows laws).node id
    generalize sheet.graph.node id = result at nodes ⊢
    generalize sheet'.graph.node id = result' at nodes ⊢
    cases nodes with
    | refused fault => exact same _
    | done nodes => exact laws.answers.node id nodes
  | nodes => exact pair.ask h fun sheets => laws.answers.nodes (sheets.shows laws).nodes
  | relabel id newId title => exact pair.relabel limit h id newId title
  | execute start context =>
    refine pair.onMachine h named fun m m' there there' place engines contexts => ?_
    have contexts := (laws.contexts_iff used).mp contexts
    have running := laws.evaluations.ready rfl (known m m' there there' place) engines contexts
    refine relMap (laws.evaluations.runs.execute limit running start) ?_
    rintro r r' ⟨answers, after⟩
    obtain ⟨engines, contexts⟩ := laws.evaluations.ended after
    exact ⟨laws.answer _ (Except.map Reply.index) (answers trivial), engines,
      (laws.contexts_iff used).mpr contexts⟩
  | executeNodes ids =>
    refine pair.onEngineWithin h fun there there' engines => ?_
    have idle := laws.idle rfl (knownOwn rfl there there') engines
    refine relMap (laws.evaluations.runs.executeNodes limit idle ids) ?_
    rintro r r' ⟨answers, after⟩
    exact ⟨laws.answer _ (Except.map fun _ => Reply.done) (answers trivial), laws.rested after⟩
  | executeOutputs addrs =>
    refine pair.onEngineWithin h fun there there' engines => ?_
    have idle := laws.idle rfl (knownOwn rfl there there') engines
    refine relMap (laws.evaluations.runs.executeOutputs limit idle addrs) ?_
    rintro r r' ⟨answers, after⟩
    exact ⟨laws.answer _ (Except.map fun _ => Reply.done) (answers trivial), laws.rested after⟩
  | setEntry id => exact pair.setEntry limit h id
  | entry => exact pair.onProgram h fun _ _ engines => .some ⟨same _, engines, rfl⟩
  | run => exact pair.run limit h (knownOwn rfl)
  | getValue addr context =>
    refine pair.onMachine h named fun m m' there there' place engines contexts => .some ?_
    obtain ⟨answers, after⟩ :=
      laws.evaluations.getValue (known m m' there there' place) engines contexts
    exact ⟨answers, after, contexts⟩
  | outputValue addr =>
    exact pair.onEngine h fun _ _ engines =>
      ⟨laws.evaluations.outputValue engines addr, engines⟩
  | pullOutput addr extra =>
    refine pair.onMachine h named fun m m' there there' place engines contexts => .some ?_
    obtain ⟨answers, after⟩ :=
      laws.evaluations.pullOutput (known m m' there there' place) engines contexts
    exact ⟨answers, after, contexts⟩
  | getValues addrs =>
    refine pair.onEngine h fun there there' engines => ?_
    obtain ⟨values, after⟩ := laws.evaluations.getValues (knownOwn rfl there there') engines
    exact ⟨laws.answer _ (Except.map Reply.values) values, after⟩
  | pullOutputs addrs =>
    refine pair.onEngine h fun there there' engines => ?_
    obtain ⟨values, after⟩ := laws.evaluations.pullOutputs (knownOwn rfl there there') engines
    exact ⟨laws.answer _ (Except.map Reply.values) values, after⟩
  | openEpoch =>
    exact pair.onEngine h fun there there' engines =>
      laws.engines.openEpoch (knownOwn rfl there there') engines
  | invalidate =>
    exact pair.onEngine h fun _ _ engines => ⟨same _, laws.engines.invalidate engines⟩
  | invalidateOnce marker =>
    refine pair.onEngine h fun _ _ engines => ?_
    obtain ⟨fresh, after⟩ := laws.engines.invalidateOnce engines marker
    exact ⟨laws.answer _ (fun fresh => .ok (.flag fresh)) fresh, after⟩
  | marker =>
    refine pair.onEngine h fun _ _ engines => ⟨?_, engines⟩
    exact laws.answer _ (fun marker => .ok (.marker marker)) (laws.engines.marker engines)
  | hitRatio => exact pair.onEngine h fun _ _ engines => ⟨laws.engines.hitRatio engines, engines⟩
  | resetStatistics =>
    exact pair.onEngine h fun _ _ engines => ⟨same _, laws.engines.resetStatistics engines⟩
  | setConfig config =>
    exact pair.onEngine h fun _ _ engines => ⟨same _, laws.engines.setConfig engines config⟩
  | config => exact pair.onEngine h fun _ _ engines => ⟨laws.engines.config engines, engines⟩
  | setLocal name value context =>
    refine pair.onContext h named used fun {c c'} contexts => ⟨same _, ?_⟩
    exact ⟨contexts.id, congrArg (·.set name value) contexts.locals, contexts.printed⟩
  | getLocal name context =>
    refine pair.onContext h named used fun {c c'} contexts => ⟨?_, contexts⟩
    exact laws.answer _ (fun locals => .ok (.value? (locals.get? name))) contexts.locals
  | clearLocals context =>
    exact pair.onContext h named used fun contexts =>
      ⟨same _, contexts.id, rfl, contexts.printed⟩
  | showContext context =>
    exact pair.onContext h named used fun contexts =>
      ⟨laws.answers.context context contexts, contexts⟩
  | takePrinted context =>
    refine pair.onContext h named used fun {c c'} contexts => ⟨?_, ?_⟩
    · exact laws.answer _ (fun lines => .ok (.lines lines)) contexts.printed
    · exact ⟨contexts.id, contexts.locals, rfl⟩

end SheetPair

namespace SessionPair

variable {L : Nat → Likeness} {T : Session → Session → Prop} (pair : SessionPair L T)
  {A : Except Fault Reply → Except Fault Reply → Prop} (same : ∀ answer, A answer answer)
  {s s' : Session} {index : Nat} (h : T s s')

include pair same h

/-- A node of one graph is copied to another one if both sides have it. -/
theorem copyNode (id : NodeId) (target : Nat) :
    ResultsAgree (Both A T) (s.copyNode index id target) (s'.copyNode index id target) := by
  unfold Session.copyNode
  rcases relCases ((pair.sheet index).sheet? h) with
    ⟨missing, missing'⟩ | ⟨sheet, sheet', found, found', sheets⟩
  · rw [missing, missing']
    exact .refused _
  rw [found, found']
  rcases relCases ((pair.sheet target).sheet? h) with
    ⟨missing, missing'⟩ | ⟨other, other', place, place', others⟩
  · rw [missing, missing']
    exact .refused _
  rw [place, place']
  have nodes := (sheets.shows (pair.sheet index).laws).node id
  dsimp only
  generalize sheet.graph.node id = result at nodes ⊢
  generalize sheet'.graph.node id = result' at nodes ⊢
  cases nodes with
  | refused reason => exact .done ⟨same _, h⟩
  | done nodes =>
    obtain ⟨ids, after⟩ := others.add (pair.sheet target).laws (pair.copied nodes)
    dsimp only
    rw [ids]
    exact .done ⟨same _, (pair.sheet target).setSheet h after⟩

theorem copySheet (limit : Nat) :
    ResultsAgree (Both A T) (s.perform limit index .copySheet)
      (s'.perform limit index .copySheet) := by
  dsimp only [Session.perform]
  rcases relCases ((pair.sheet index).sheet? h) with
    ⟨missing, missing'⟩ | ⟨sheet, sheet', found, found', sheets⟩
  · rw [missing, missing']
    exact .refused _
  rw [found, found']
  dsimp only [Session.copySheet]
  rw [pair.next h, pair.sheetCount h]
  refine .done ⟨same _, pair.push h ?_ _⟩
  have copied := pair.behind h sheets
  rcases relCases copied.engine? with ⟨none, none'⟩ | ⟨e, e', has, has', engines⟩
  · rw [none, none']
    exact copied
  · rw [has, has']
    have laws := (pair.sheet s.sheets.size).laws
    have own := laws.engines.own engines
    exact copied.withEngine
      (laws.engines.withContext engines ⟨pair.identities _ _, own.locals, own.printed⟩)

theorem openSheet (kind : SheetKind) (config : Config) :
    ResultsAgree (Both A T) (s.perform limit index (.openSheet kind config))
      (s'.perform limit index (.openSheet kind ((L index).settings config))) := by
  dsimp only [Session.perform, Session.openSheet]
  rw [pair.next h, pair.sheetCount h]
  refine .done ⟨same _, pair.push h ?_ _⟩
  cases kind with
  | wiring => exact .wiring (pair.empty _)
  | engine => exact .engine (pair.opened h _ _ _)
  | program => exact .program (pair.opened h _ _ _)

theorem newContext (limit : Nat) :
    ResultsAgree (Both A T) (s.perform limit index .newContext)
      (s'.perform limit index .newContext) := by
  obtain ⟨places, after⟩ := pair.addContext h .empty #[]
  dsimp only [Session.perform]
  rw [places]
  exact .done ⟨same _, after⟩

/-- A context that may be used is copied alike. -/
theorem copyContext (limit : Nat) {context : Option Nat}
    (named : ∀ extra, context = some extra → (L index).named extra)
    (used : ∀ extra, context = some extra → (L index).used extra) :
    ResultsAgree (Both A T) (s.perform limit index (.copyContext context))
      (s'.perform limit index (.copyContext context)) := by
  have contexts : Option.Rel (Context.Corresponds (L index).identities) (s.context? index context)
      (s'.context? index context) := by
    cases context with
    | none =>
      unfold Session.context?
      rcases relCases ((pair.sheet index).sheet? h) with
        ⟨missing, missing'⟩ | ⟨sheet, sheet', found, found', sheets⟩
      · rw [missing, missing']
        exact .none
      · rw [found, found']
        exact relMap sheets.engine? (pair.sheet index).laws.engines.own
    | some extra =>
      show Option.Rel _ s.contexts[extra]? s'.contexts[extra]?
      have extras := (pair.sheet index).extra? h (named extra rfl)
      rcases relCases extras with ⟨absent, absent'⟩ | ⟨c, c', place, place', related⟩
      · rw [absent, absent']
        exact .none
      · rw [place, place']
        exact .some (((pair.sheet index).laws.extras (used extra rfl)).mp related)
  dsimp only [Session.perform]
  rcases relCases contexts with ⟨absent, absent'⟩ | ⟨c, c', place, place', related⟩
  · rw [absent, absent']
    exact .refused _
  · rw [place, place']
    obtain ⟨places, after⟩ := pair.addContext h c.locals c.printed
    dsimp only
    rw [related.locals, related.printed, places]
    exact .done ⟨same _, after⟩

theorem swapContext {extra : Nat} (named : (L index).named extra) (used : (L index).used extra) :
    ResultsAgree (Both A T) (s.swapContext index extra) (s'.swapContext index extra) := by
  have laws := (pair.sheet index).laws
  unfold Session.swapContext
  rcases relCases ((pair.sheet index).sheet? h) with
    ⟨missing, missing'⟩ | ⟨sheet, sheet', found, found', sheets⟩
  · rw [missing, missing']
    exact .refused _
  rw [found, found']
  rcases relCases ((pair.sheet index).extra? h named) with
    ⟨absent, absent'⟩ | ⟨c, c', place, place', contexts⟩
  · rw [absent, absent']
    exact .refused _
  rw [place, place']
  dsimp only
  rcases relCases sheets.engine? with ⟨none, none'⟩ | ⟨e, e', has, has', engines⟩
  · rw [none, none']
    exact .refused _
  rw [has, has']
  have given := (laws.extras used).mp contexts
  have swapped := sheets.withEngine (laws.engines.withContext engines given)
  exact .done ⟨same _, (pair.sheet index).setExtra ((pair.sheet index).setSheet h swapped) named
    ((laws.extras used).mpr (laws.engines.own engines))⟩

omit same

/-- Whatever the command, it goes on alike on both sides. -/
theorem perform (limit : Nat) {command : Command} (admitted : (L index).Admits command)
    (known : ∀ m m' : Machine, s.engine? index = some m.engine →
      s'.engine? index = some m'.engine → s.context? index command.names? = some m.context →
        (L index).known command m m') :
    ResultsAgree (Both ((L index).answers command) T) (s.perform limit index command)
      (s'.perform limit index (command.mapConfig (L index).settings)) := by
  have same := (pair.sheet index).laws.answers.same command
  cases single : command.single with
  | true => exact (pair.sheet index).perform limit h single admitted known
  | false =>
    cases command with
    | copyNode id target => exact pair.copyNode same h id target
    | copySheet => exact pair.copySheet same h limit
    | openSheet kind config => exact pair.openSheet same h kind config
    | newContext => exact pair.newContext same h limit
    | copyContext context => exact pair.copyContext same h limit admitted.named admitted.used
    | swapContext extra =>
      exact pair.swapContext same h (admitted.named extra rfl) (admitted.used extra rfl)
    | _ => cases single

end SessionPair

end NodeGraph
