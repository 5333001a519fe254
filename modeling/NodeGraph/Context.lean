import NodeGraph.Locals

/-!
# Contexts

The state of one logical run: local variables and the lines printed so far. Contexts are told
apart by an identity, which a graph uses to keep values that were pulled for one context from
being served to another.
-/

namespace NodeGraph

/-- Variables and printed lines of one logical run. Nothing clears them between runs. -/
structure Context where
  id : Nat
  locals : Locals := .empty
  printed : Array String := #[]

namespace Context

def setLocal (c : Context) (name : String) (value : Value) : Context :=
  { c with locals := c.locals.set name value }

def clearLocals (c : Context) : Context := { c with locals := .empty }

def print (c : Context) (line : String) : Context := { c with printed := c.printed.push line }

/-- Hands out the printed lines and forgets them. -/
def takePrinted (c : Context) : Array String × Context := (c.printed, { c with printed := #[] })

end Context

end NodeGraph
