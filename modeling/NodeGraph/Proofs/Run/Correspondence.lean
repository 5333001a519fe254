import NodeGraph.Proofs.Engine.Correspondence
import NodeGraph.Proofs.Run.Lockstep
import NodeGraph.Proofs.Run.Pair

/-!
# Runs on corresponding engines

On engines that correspond, and for contexts that do, a run makes the same steps, gives the same
lines and variables and ends at the same node, and the engines correspond again
(`corresponding_runs`).
-/

namespace NodeGraph

theorem Context.Corresponds.onContext {I : Nat → Nat → Prop} {c c' : Context}
    (h : c.Corresponds I c') (effect : Effect) :
    (effect.onContext c).Corresponds I (effect.onContext c') := by
  obtain ⟨id, locals, printed⟩ := h
  refine ⟨by rwa [Effect.id_onContext, Effect.id_onContext], ?_, ?_⟩
  · unfold Effect.onContext
    cases effect.line <;> cases effect.assign <;> simp [Context.print, Context.setLocal, locals]
  · unfold Effect.onContext
    cases effect.line <;> cases effect.assign <;> simp [Context.print, Context.setLocal, printed]

namespace Machine

/-- Corresponding engines that run for corresponding contexts. -/
structure Corresponds (G : Graph → Graph → Prop) (I : Nat → Nat → Prop) (m m' : Machine) :
    Prop where
  contexts : m.context.Corresponds I m'.context
  engines : m.engine.Corresponds G I m'.engine

namespace Corresponds

variable {G : Graph → Graph → Prop} {I : Nat → Nat → Prop} {m m' : Machine}

theorem log (h : Corresponds G I m m') (event : Event) :
    Corresponds G I (m.log event) (m'.log event) := ⟨h.contexts, h.engines.log event⟩

variable {N : Node → Node → Prop} (shown : Graph.Correspondence N G) (h : Corresponds G I m m')

include shown h

theorem write (addr : OutputAddr) (value : Value) :
    Corresponds G I (m.write addr value) (m'.write addr value) :=
  ⟨h.contexts, h.engines.write shown addr value⟩

theorem kind?_eq (id : NodeId) : m'.kind? id = m.kind? id := by
  have nodes := Graph.map_node?_of_live_eq (h.engines.live shown) id
  have kinds := congrArg (Option.map Node.kind) nodes
  rw [Option.map_map, Option.map_map] at kinds
  exact kinds

theorem following_eq (id : NodeId) (ports : List PortId) :
    m'.following id ports = m.following id ports := by
  unfold following Graph.successors
  simp only [Graph.output?_eq_of_live_eq (h.engines.live shown)]

theorem read (addr : InputAddr) :
    (m'.read addr).1 = (m.read addr).1 ∧ (m.read addr).2.Corresponds G I (m'.read addr).2 := by
  unfold Machine.read
  rw [h.contexts.locals]
  obtain ⟨value, after⟩ := h.engines.read shown m.context.locals addr
  exact ⟨value, h.contexts, after⟩

/-- The changes of a step. -/
theorem acted (id : NodeId) (effect : Effect) :
    ((m.apply id effect).countStep id).Corresponds G I ((m'.apply id effect).countStep id) := by
  have applied : (m.apply id effect).Corresponds G I (m'.apply id effect) := by
    unfold apply
    cases effect.event with
    | none =>
      have after : Corresponds G I { m with context := effect.onContext m.context }
          { m' with context := effect.onContext m'.context } :=
        ⟨h.contexts.onContext effect, h.engines⟩
      cases effect.write with
      | none => exact after
      | some write => exact after.write shown _ _
    | some event =>
      have after : Corresponds G I { m.log event with context := effect.onContext m.context }
          { m'.log event with context := effect.onContext m'.context } :=
        ⟨h.contexts.onContext effect, (h.log event).engines⟩
      cases effect.write with
      | none => exact after
      | some write => exact after.write shown _ _
  exact ⟨applied.contexts,
    (applied.engines.modifyNode shown id Node.blind_countEvaluation).count _⟩

theorem compute {id : NodeId} {kind : PureKind} (quiet : m.engine.graph.Quiet)
    (pure : m.engine.graph.pureKind? id = some kind) : Corresponds G I
      { m with engine := m.engine.compute m.context.locals m.engine.graph.size id kind }
      { m' with engine := m'.engine.compute m'.context.locals m'.engine.graph.size id kind } where
  contexts := h.contexts
  engines := by
    rw [h.contexts.locals]
    exact h.engines.compute shown m.context.locals pure quiet

variable (pairing : Pairing I)

include pairing

theorem openStep (id : NodeId) : (m.openStep id).Corresponds G I (m'.openStep id) := by
  refine ⟨h.contexts, openStep_pair id ?_ ?_ ?_ ?_⟩
  · exact (h.engines.openEpoch shown).serve shown pairing h.contexts.id
  · intro e e' opened
    have titles := congrArg (Option.map Node.title)
      (Graph.map_node?_of_live_eq (opened.live shown) id)
    rw [Option.map_map, Option.map_map] at titles
    exact titles
  · intro e e' opened
    rw [opened.config]
  · intro e e' title opened
    rw [opened.epoch]
    exact opened.log _

end Corresponds

/-- Both machines make the same steps. -/
theorem corresponding_steps {N : Node → Node → Prop} {G : Graph → Graph → Prop}
    {I : Nat → Nat → Prop} (shown : Graph.Correspondence N G) :
    StepPair (Corresponds G I) (Corresponds G I) where
  kind? h := h.kind?_eq shown
  read h := h.read shown
  nothing h := h
  compute h _ _ := h.compute shown
  acted h := h.acted shown

end Machine

theorem corresponding_runs {N : Node → Node → Prop} {G : Graph → Graph → Prop}
    {I : Nat → Nat → Prop} (shown : Graph.Correspondence N G) (pairing : Pairing I) :
    RunPair (fun e e' => e.Valid ∧ e.Corresponds G I e')
      (fun m m' => m.engine.Valid ∧ m.Corresponds G I m') where
  own := fun ⟨valid, h⟩ => ⟨valid, h.contexts, h⟩
  back := fun ⟨valid, h⟩ => ⟨valid.of_eq rfl rfl rfl, h.engines.withContext h.contexts⟩
  size := fun ⟨_, h⟩ => h.engines.size shown
  following := fun ⟨_, h⟩ => h.following_eq shown
  perform := fun ⟨valid, h⟩ task =>
    have begun := h.openStep shown pairing task.node
    have after := (Machine.corresponding_steps shown).perform valid task begun
    ⟨after.1, (Machine.works_perform valid task).1.valid, after.2⟩

end NodeGraph
