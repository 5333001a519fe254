/-!
# Values

What flows between ports: nothing, a truth value, a 64-bit integer, a float or a text.
-/

namespace NodeGraph

/-- A value carried by a port. -/
inductive Value where
  /-- No value: what an unset literal or an unknown variable yields. -/
  | empty
  | bool (b : Bool)
  | int (i : Int64)
  | float (x : Float)
  | text (s : String)
deriving Inhabited

namespace Value

/-- Equality of two values of one kind. Floats compare as numbers, so NaN differs from itself and
the two zeros are equal. -/
protected def beq : Value → Value → Bool
  | .empty, .empty => true
  | .bool a, .bool b => a == b
  | .int a, .int b => a == b
  | .float x, .float y => x == y
  | .text s, .text t => s == t
  | _, _ => false

instance : BEq Value := ⟨Value.beq⟩

/-- Whether the value takes part in integer arithmetic: an integer, a truth value counted as 0 or 1,
or no value counted as 0. -/
def isIntegral : Value → Bool
  | .int _ | .bool _ | .empty => true
  | .float _ | .text _ => false

end Value

end NodeGraph
