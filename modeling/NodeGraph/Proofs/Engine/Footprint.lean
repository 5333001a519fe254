import NodeGraph.Proofs.Engine.Evaluations

/-!
# What a pull may have changed

A pull changes the nodes upstream of what it was asked for, and keeps in an input the value that was
read for it. All else in the graph is what it was (`Engine.Refreshes.footprint`,
`Engine.Reads.footprint`).
-/

namespace NodeGraph

/-- A node without what was read into its inputs. -/
def Node.uncached (n : Node) : Node := { n with inputs := n.inputs.map Input.erase }

theorem Node.uncached_modifyInput_store (n : Node) (port : PortId) (value : Value) (stamp : Int) :
    (n.modifyInput port fun input => input.store value stamp).uncached = n.uncached := by
  have unseen : (n.inputs.modify port fun input => input.store value stamp).map Input.erase =
      n.inputs.map Input.erase := Node.map_modify_of_eq fun _ => rfl
  simp only [uncached, modifyInput, unseen]

namespace Graph

/-- The second graph differs from the first at most in the nodes that were touched and in what was
read into some inputs. -/
structure Footprint (touched : NodeId → Prop) (read : InputAddr → Prop) (g h : Graph) : Prop where
  node : ∀ id, ¬ touched id → (h.node? id).map Node.uncached = (g.node? id).map Node.uncached
  input : ∀ addr, ¬ touched addr.node → ¬ read addr → h.input? addr = g.input? addr

namespace Footprint

variable {touched : NodeId → Prop} {read : InputAddr → Prop} {g g₁ g₂ g₃ h : Graph}

theorem refl (g : Graph) : Footprint touched read g g := ⟨fun _ _ => rfl, fun _ _ _ => rfl⟩

theorem trans (first : Footprint touched read g₁ g₂) (second : Footprint touched read g₂ g₃) :
    Footprint touched read g₁ g₃ where
  node id untouched := (second.node id untouched).trans (first.node id untouched)
  input addr untouched unread :=
    (second.input addr untouched unread).trans (first.input addr untouched unread)

/-- Every node is what it was that was not touched. -/
theorem of_spared (spared : ∀ id, ¬ touched id → h.node? id = g.node? id) :
    Footprint touched read g h where
  node id untouched := by rw [spared id untouched]
  input addr untouched _ := by rw [input?, spared addr.node untouched, input?]

theorem store {addr : InputAddr} (named : read addr) (g : Graph) (value : Value) (stamp : Int) :
    Footprint touched read g (g.modifyInput addr fun input => input.store value stamp) where
  node id _ := by
    rw [modifyInput, node?_modifyNode]
    split
    · rw [Option.map_map]
      exact congrArg (Option.map · _)
        (funext fun node => Node.uncached_modifyInput_store node addr.port value stamp)
    · rfl
  input other _ unread := by
    have different : addr ≠ other := fun same => unread (same ▸ named)
    rw [input?_modifyInput, if_neg different]

end Footprint

end Graph

namespace Engine

variable {touched : NodeId → Prop} {read : InputAddr → Prop} {locals : Locals} {depth : Nat}
  {e e' : Engine}

/-- To bring a node up to date touches what lies upstream of it. -/
theorem Refreshes.footprint {id : NodeId} (h : Refreshes locals depth id e e')
    (upstream : ∀ other, e.graph.Upstream other id → touched other) :
    Graph.Footprint touched read e.graph e'.graph :=
  .of_spared fun other untouched => h.spares fun up => untouched (upstream other up)

/-- To read an input touches what lies upstream of its source, and the input. -/
theorem Reads.footprint {addr : InputAddr} {value : Value} (h : Reads locals depth addr e value e')
    (named : read addr) (upstream : ∀ source, e.graph.source? addr = some source →
      ∀ other, e.graph.Upstream other source.node → touched other) :
    Graph.Footprint touched read e.graph e'.graph := by
  cases h with
  | absent _ => exact .refl _
  | unlinked _ _ => exact .refl _
  | cached _ _ _ =>
    rw [graph_count]
    exact .refl _
  | pulled found linked _ refreshes =>
    have link := Graph.source?_eq_some_iff.mpr ⟨_, found, linked⟩
    have refreshed : Graph.Footprint touched read (e.count Statistics.miss).graph _ :=
      refreshes.footprint (by rw [graph_count]; exact upstream _ link)
    rw [graph_count] at refreshed
    exact refreshed.trans (.store named _ _ _)

end Engine

end NodeGraph
