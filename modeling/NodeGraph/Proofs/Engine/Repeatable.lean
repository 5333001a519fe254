import NodeGraph.Proofs.Engine.Consistency
import NodeGraph.Proofs.Engine.Nesting

/-!
# Reads that are repeated

A pull looks at the stamp of an input before it goes to the source, so an input that was read in
this epoch is not written again while the epoch lasts, however the pure nodes are wired
(`Engine.Reads.steady`). A read leaves its input held with the value it gave
(`Engine.Reads.gives`); then the same read gives it again, and at most a hit is counted
(`Engine.Gives.read_eq`).
-/

namespace NodeGraph.Engine

variable {e e' : Engine} {locals : Locals} {addr : InputAddr} {value : Value}

/-- A value is stored only for an input that was not held when the read of it began. -/
theorem Steady.store (h : Steady e e') {input : Input} (found : e.graph.input? addr = some input)
    (stale : ¬ input.Held e.epoch) (value : Value) : Steady e (e'.store addr value) where
  epoch := h.epoch
  held {other kept} place held := by
    rw [input?_store, if_neg]
    · exact h.held place held
    · rintro rfl
      obtain rfl := Option.some.inj (found.symm.trans place)
      exact stale held

theorem steady_count (e : Engine) (update : Statistics → Statistics) :
    Steady e (e.count update) := .of_graph_eq (epoch_count e update) (graph_count e update)

mutual

/-- A read leaves all that is held as it is, also where the pure nodes form cycles. -/
theorem Reads.steady {depth : Nat} {addr : InputAddr} {e e' : Engine} {value : Value}
    (h : Reads locals depth addr e value e') : Steady e e' := by
  match h with
  | .absent _ => exact .of_graph_eq rfl rfl
  | .unlinked _ _ => exact .of_graph_eq rfl rfl
  | .cached _ _ _ => exact steady_count e _
  | .pulled found linked stale refreshes =>
    refine ((steady_count e _).trans refreshes.steady).store found (fun held => ?_) _
    simp [held _ linked] at stale

theorem ReadsEach.steady {depth : Nat} {id : NodeId} {ports : List PortId} {e e' : Engine}
    {values : PortId → Value} (h : ReadsEach locals depth id ports e values e') :
    Steady e e' := by
  match h with
  | .nil => exact .of_graph_eq rfl rfl
  | .cons first others => exact first.steady.trans others.steady

theorem Refreshes.steady {depth : Nat} {id : NodeId} {e e' : Engine}
    (h : Refreshes locals depth id e e') : Steady e e' := by
  match h with
  | .impure _ => exact .of_graph_eq rfl rfl
  | .current _ _ _ => exact .of_graph_eq rfl rfl
  | .cycle _ _ _ _ => exact .of_graph_eq (epoch_count _ _) (graph_count _ _)
  | .computed _ _ _ _ computes => exact computes.steady

/-- Neither the mark nor the value of a node shows in its inputs. -/
theorem Computes.steady {depth : Nat} {id : NodeId} {kind : PureKind} {e e' : Engine}
    (h : Computes locals depth id kind e e') : Steady e e' := by
  match h with
  | .operate reads =>
    have begun : Steady e (e.beginComputing id) := by
      refine .of_inputs rfl fun addr => ?_
      apply Graph.input?_modifyNode
      intro node
      rfl
    have ended (e : Engine) (value : Value) : Steady e (e.finishComputing id value) :=
      .of_inputs (epoch_finishComputing e id value) (input?_finishComputing e id value)
    exact (begun.trans reads.steady).trans (ended _ _)

end

/-- After a read its input is held, and gives the value that was read. -/
theorem Reads.gives {depth : Nat} (h : Reads locals depth addr e value e')
    (nonneg : 0 ≤ e.epoch.number) : e'.Gives addr value := by
  cases h with
  | absent missing =>
    exact ⟨by rw [Graph.shown, missing], fun input found => by simp [missing] at found⟩
  | @unlinked _ _ _ input found linked =>
    refine ⟨by rw [Graph.shown, found]; simp only [Input.shown, linked], fun other place => ?_⟩
    obtain rfl := Option.some.inj (found.symm.trans place)
    intro source link
    simp [linked] at link
  | @cached _ _ _ input _ found linked current =>
    refine ⟨?_, fun other place => ?_⟩
    · rw [graph_count, Graph.shown, found]
      simp only [Input.shown, linked]
    · rw [graph_count] at place
      obtain rfl := Option.some.inj (found.symm.trans place)
      rw [epoch_count]
      exact fun _ _ => current
  | @pulled _ _ _ e₁ _ source found linked _ refreshes =>
    have pulled := refreshes.respects pulled_relation
    have link : e₁.graph.source? addr = some source := by
      rw [Graph.source?_eq_of_frame_eq pulled.frame, graph_count]
      exact Graph.source?_eq_some_iff.mpr ⟨_, found, linked⟩
    refine gives_store link ?_ _
    rwa [pulled.epoch, epoch_count]

/-- What is held is read without a pull, and at most a hit is counted. -/
theorem Gives.read_eq (gives : e.Gives addr value) (locals : Locals) :
    e.read locals addr = (value, e) ∨
      e.read locals addr = (value, e.count Statistics.hit) := by
  obtain ⟨shown, held⟩ := gives
  unfold Engine.read Engine.readUsing
  unfold Graph.shown at shown
  cases found : e.graph.input? addr with
  | none =>
    simp only [found] at shown
    exact .inl (by rw [shown])
  | some input =>
    simp only [found, Input.shown] at shown
    dsimp only
    cases linked : input.source with
    | none =>
      simp only [linked] at shown
      exact .inl (by rw [shown])
    | some source =>
      simp only [linked] at shown
      dsimp only
      rw [if_pos (held input found source linked), shown]
      exact .inr rfl

/-- The context is served, and the input was read for it: it is held with this value. -/
structure Answered (e : Engine) (context : Nat) (addr : InputAddr) (value : Value) : Prop where
  serves : e.serves = some context
  there : (e.graph.input? addr).isSome
  gives : e.Gives addr value

/-- The context that is served stays so, in the same epoch, and what is held stays as it is. -/
structure Undisturbed (e e' : Engine) : Prop where
  serves : e'.serves = e.serves
  steady : Steady e e'

theorem Undisturbed.refl (e : Engine) : Undisturbed e e := ⟨rfl, .of_graph_eq rfl rfl⟩

theorem Undisturbed.trans {e'' : Engine} (h : Undisturbed e e') (h' : Undisturbed e' e'') :
    Undisturbed e e'' := ⟨h'.serves.trans h.serves, h.steady.trans h'.steady⟩

theorem Undisturbed.of_pulled (pulled : Pulled e e') (steady : Steady e e') : Undisturbed e e' :=
  ⟨pulled.serves, steady⟩

/-- Nothing that is beside the graph matters. -/
theorem Undisturbed.of_graph_eq (serves : e'.serves = e.serves) (epoch : e'.epoch = e.epoch)
    (graph : e'.graph = e.graph) : Undisturbed e e' := ⟨serves, .of_graph_eq epoch graph⟩

/-- A new node has a position of its own. -/
theorem undisturbed_addNode (e : Engine) (node : Node) : Undisturbed e (e.addNode node).2 := by
  refine ⟨rfl, rfl, fun {addr input} found _ => ?_⟩
  obtain ⟨old, place, port⟩ := Graph.input?_eq_some_iff.mp found
  have other : addr.node ≠ e.graph.size := Nat.ne_of_lt (Graph.lt_size_of_node? place)
  refine Graph.input?_eq_some_iff.mpr ⟨old, ?_, port⟩
  show (e.graph.add node).2.node? addr.node = some old
  rw [Graph.node?_add, if_neg other, place]

/-- A read for the context that is served, whether or not its input exists. -/
theorem undisturbed_getValue {context : Context} (serves : e.serves = some context.id)
    (addr : InputAddr) : Undisturbed e (e.getValue addr context).2 := by
  unfold getValue
  split
  · exact .refl e
  · rw [serve_of_serves serves]
    exact .of_pulled (pulled_read _ _ _) (reads_read context.locals e addr).steady

theorem undisturbed_pullOutput {context : Context} (serves : e.serves = some context.id)
    (addr : OutputAddr) : Undisturbed e (e.pullOutput addr context).2 := by
  unfold pullOutput
  split
  · exact .refl e
  · rw [serve_of_serves serves]
    exact .of_pulled (pulled_refresh _ _ _) (refreshes_refresh context.locals e addr.node).steady

namespace Answered

variable {context : Nat} (h : e.Answered context addr value)

include h

theorem undisturbed (quiet : Undisturbed e e') : e'.Answered context addr value := by
  obtain ⟨input, found⟩ := Option.isSome_iff_exists.mp h.there
  have held := h.gives.held input found
  have kept := quiet.steady.held found held
  refine ⟨quiet.serves.trans h.serves, by rw [kept, Option.isSome_some], ?_, fun other place => ?_⟩
  · rw [shown_congr (kept.trans found.symm), h.gives.shown]
  · obtain rfl := Option.some.inj (kept.symm.trans place)
    rw [quiet.steady.epoch]
    exact held

/-- The value is given again, and nothing happens but that a hit may be counted. -/
theorem getValue_eq {c : Context} (same : c.id = context) :
    e.getValue addr c = (.ok value, e) ∨
      e.getValue addr c = (.ok value, e.count Statistics.hit) := by
  obtain ⟨input, found⟩ := Option.isSome_iff_exists.mp h.there
  unfold getValue
  rw [Graph.input_eq_ok_iff.mpr found, serve_of_serves (h.serves.trans (congrArg some same.symm))]
  rcases h.gives.read_eq c.locals with read | read
  · left
    rw [read]
  · right
    rw [read]

end Answered

/-- A read that gave a value has left its input held with it. -/
theorem answered_getValue {context : Context} (valid : e.Valid)
    (read : (e.getValue addr context).1 = .ok value) :
    (e.getValue addr context).2.Answered context.id addr value := by
  have frame := frame_getValue e addr context
  unfold getValue at read frame ⊢
  cases found : e.graph.input addr with
  | error fault => simp [found] at read
  | ok input =>
    rw [found] at read frame
    have reads := reads_read context.locals (e.serve context.id) addr
    obtain rfl := Except.ok.inj read
    refine ⟨?_, ?_, reads.gives (valid.serve context.id).nonneg⟩
    · exact (pulled_read _ _ _).serves.trans (serves_serve e context.id)
    · rw [Graph.isSome_input?_eq_of_frame_eq frame, Graph.input_eq_ok_iff.mp found,
        Option.isSome_some]

end NodeGraph.Engine
