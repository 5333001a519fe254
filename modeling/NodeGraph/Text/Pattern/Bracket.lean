import NodeGraph.Text.Pattern.Scan

/-!
# Character classes

Sets of characters written in brackets, such as `[a-z_]` and `[[:alpha:]--[aeiou]]`.
-/

namespace NodeGraph.Text.Pattern.Bracket

open Scan

/-- How two parts of a class are joined. -/
inductive Join where
  | inter
  | diff
  | symmDiff
deriving DecidableEq, Repr

def Join.apply : Join → CharSet → CharSet → CharSet
  | inter => CharSet.inter
  | diff => CharSet.diff
  | symmDiff => CharSet.symmDiff

/-- The join that two equal characters stand for. -/
def Join.ofChar? : Char → Option Join
  | '&' => some inter
  | '-' => some diff
  | '~' => some symmDiff
  | _ => none

/-- A set in both cases if the mode is caseless. -/
def fold? (mode : Mode) (set : CharSet) : Option CharSet :=
  if !mode.caseless then some set else if mode.wide then none else some (.caseless set)

/-- A set of a class, turned over if the class begins with `^`. -/
def close? (mode : Mode) (negated : Bool) (set : CharSet) : Option CharSet := do
  let set ← fold? mode set
  if !negated then some set else if mode.wide then some (.compl set) else none

/-- Joins the last part of a class to the parts before it. -/
def join? (mode : Mode) : Option (Join × CharSet) → CharSet → Option CharSet
  | none, last => some last
  | some (op, first), last => return op.apply (← fold? mode first) (← fold? mode last)

/-- A named set, behind its first bracket: `:alpha:]`, or `:^alpha:]` for the others. The answer is
the set, whether it is turned over, and what follows. -/
def named? : List Char → Option (CharSet × Bool × List Char)
  | ':' :: cs =>
    let negated := cs.head? == some '^'
    let cs := if negated then cs.drop 1 else cs
    match cs.span (· ≠ ':') with
    | (name, ':' :: ']' :: rest) =>
      (CharSet.named? (String.ofList name)).map fun set => (set, negated, rest)
    | _ => none
  | _ => none

/-- What follows an opening bracket: whether the class is turned over, and its first members. Here
a minus stands for itself, and so does a closing bracket with nothing before it. -/
def opening (mode : Mode) : Scan (Bool × CharSet) := do
  skip mode
  let negated ← accept '^'
  let cs ← rest
  let leading := fun c => c == '-' || (mode.spaced && isBlank c)
  setRest (cs.dropWhile leading)
  skip mode
  if (cs.takeWhile leading).contains '-' then return (negated, .single '-')
  else if ← accept ']' then return (negated, .single ']')
  else return (negated, .empty)

/-- A member of a class, or an end of a range. -/
def item (mode : Mode) : Scan Escape := do
  let c ← next
  if c = '\\' then escape mode
  else return .char c

/-- A character that may be a member of a class. -/
def member? (mode : Mode) : Escape → Option Char
  | .char c => if mode.wide || c.toNat < 0x80 then some c else none
  | _ => none

/-- A member of a class or a range of members. A minus before a closing bracket or another minus
makes no range. -/
def items (mode : Mode) : Scan CharSet := do
  let first ← item mode
  skip mode
  let behind := fun cs => if mode.spaced then dropBlanks false cs else cs
  let bound? := match ← rest with
    | '-' :: cs => if ((behind cs).head?.any fun c => c == ']' || c == '-') then none else some (behind cs)
    | _ => none
  match bound?, first with
  | none, .set set => return set
  | none, first => return .single (← StateT.lift (member? mode first))
  | some bound, first =>
    setRest bound
    let last ← item mode
    let first ← StateT.lift (member? mode first)
    let last ← StateT.lift (member? mode last)
    guard (first ≤ last)
    return .range first last

/-- The rest of a class up to its closing bracket: `parts` are joined already and `members` are
collected for the next part. A class takes at most `limit` members. -/
def members (mode : Mode) : Nat → Option (Join × CharSet) → CharSet → Scan CharSet
  | 0, _, _ => failure
  | limit + 1, parts, set => do
    skip mode
    match ← rest with
    | [] => failure
    | ']' :: cs =>
      setRest cs
      StateT.lift (join? mode parts set)
    | '[' :: cs =>
      match named? cs with
      | some (inner, negated, cs) =>
        setRest cs
        members mode limit parts (.union set (← StateT.lift (close? mode negated inner)))
      | none =>
        setRest cs
        let (negated, first) ← opening mode
        let inner ← members mode limit none first
        members mode limit parts (.union set (← StateT.lift (close? mode negated inner)))
    | c :: cs =>
      match (if cs.head? = some c then Join.ofChar? c else none) with
      | some op =>
        setRest (cs.drop 1)
        members mode limit (some (op, ← StateT.lift (join? mode parts set))) .empty
      | none => members mode limit parts (.union set (← items mode))

/-- A class, behind its opening bracket. -/
def read (mode : Mode) : Scan CharSet := do
  let (negated, first) ← opening mode
  let set ← members mode ((← rest).length + 1) none first
  StateT.lift (close? mode negated set)

end NodeGraph.Text.Pattern.Bracket
