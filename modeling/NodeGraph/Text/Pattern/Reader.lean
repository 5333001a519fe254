import NodeGraph.Text.Pattern.Bracket

/-!
# Reading patterns

The written form of patterns. Branches are set apart by `|`, each is a sequence of characters,
classes, anchors and groups, and behind each of these a repetition may stand.
-/

namespace NodeGraph.Text.Pattern

open Scan

/-- Whether a group may have this name. Characters beyond ASCII count as letters. -/
def isGroupName (name : List Char) : Bool :=
  let letter := fun c : Char => c.isAlpha || c == '_' || 0x80 ≤ c.toNat
  let inner := fun c : Char => letter c || c.isDigit || c == '.' || c == '[' || c == ']'
  name.head?.any letter && name.all inner

/-- A name that no group has taken. -/
def groupName : Scan Unit := do
  let name ← upTo '>'
  let source ← get
  guard (isGroupName name && !source.names.contains name)
  set { source with names := name :: source.names }

/-- What follows an opening parenthesis. -/
inductive Opening where
  /-- A group read in its own mode. -/
  | group (mode : Mode)
  /-- Flags for the rest of the group around, which end here. -/
  | flags (mode : Mode)
deriving DecidableEq, Repr

/-- What follows an opening parenthesis. Conditions on the text around are refused. -/
def opening (mode : Mode) : Scan Opening := do
  skip mode
  match ← rest with
  | '?' :: 'P' :: '<' :: cs =>
    setRest cs
    groupName
    return .group mode
  | '?' :: '<' :: cs =>
    guard (cs.head? ≠ some '=' ∧ cs.head? ≠ some '!')
    setRest cs
    groupName
    return .group mode
  | '?' :: cs =>
    let (flags, cs) := cs.span fun c => c ≠ ':' && c ≠ ')'
    setRest (cs.drop 1)
    let inner ← StateT.lift (mode.setAll flags)
    match cs with
    | ':' :: _ => return .group inner
    | _ :: _ =>
      guard (flags ≠ [])
      return .flags inner
    | [] => failure
  | _ => return .group mode

/-- The repetition that a character behind a pattern asks for. -/
def repetition? : Char → Option (Nat × Option Nat)
  | '?' => some (0, some 1)
  | '*' => some (0, none)
  | '+' => some (1, none)
  | _ => none

/-- A character, a class or an anchor. -/
def atom (mode : Mode) : Scan Pattern := do
  let c ← next
  match c with
  | '.' => StateT.lift (point? mode)
  | '^' => return .anchor (if mode.lines then .lineStart mode.pairs else .textStart)
  | '$' => return .anchor (if mode.lines then .lineEnd mode.pairs else .textEnd)
  | '[' => return .char (← Bracket.read mode)
  | '\\' =>
    match ← escape mode with
    | .char c => StateT.lift (literal? mode c)
    | .set s => return .char s
    | .anchor a => return .anchor a
  | c => StateT.lift (literal? mode c)

/-- The pattern of a sequence whose parts are given last first. Flags are parts without a
pattern. -/
def sequenceOf (parts : List (Option Pattern)) : Pattern :=
  parts.foldl (fun behind part => match part, behind with
    | none, behind => behind
    | some p, .empty => p
    | some p, behind => .sequence p behind) .empty

/-- The pattern of a sequence behind other branches. -/
def branch (before : Option Pattern) (parts : List (Option Pattern)) : Pattern :=
  match before with
  | none => sequenceOf parts
  | some p => .either p (sequenceOf parts)

/-- The rest of a group, up to its end or to a closing parenthesis. It is given the branches
before and the parts of the branch at hand, last first, and takes at most `limit` steps. -/
def group : Nat → Mode → Option Pattern → List (Option Pattern) → Scan Pattern
  | 0, _, _, _ => failure
  | limit + 1, mode, before, parts => do
    skip mode
    match ← rest with
    | [] | ')' :: _ => return branch before parts
    | '|' :: cs =>
      setRest cs
      group limit mode (some (branch before parts)) []
    | '(' :: cs =>
      setRest cs
      match ← opening mode with
      | .flags mode => group limit mode before (none :: parts)
      | .group inner =>
        let p ← group limit inner none []
        expect ')'
        group limit mode before (some p :: parts)
    | c :: cs =>
      if c = '\x7b' ∨ (repetition? c).isSome then
        let some p :: parts := parts | failure
        setRest cs
        let (least, most) ← match repetition? c with
          | some bounds => pure bounds
          | none => do
            let bounds ← count mode
            skip mode
            pure bounds
        -- A question mark asks for the shortest match, which is a match all the same.
        let _ ← accept '?'
        group limit mode before (some (p.times least most) :: parts)
      else
        group limit mode before (some (← atom mode) :: parts)

/-- Greatest weight of a pattern. -/
def maxWeight : Nat := 0x50000

/-- The pattern that a text writes. -/
def ofText? (cs : List Char) : Option Pattern := do
  let (p, source) ← (group (cs.length + 1) {} none []).run { rest := cs }
  if source.rest = [] ∧ p.weight ≤ maxWeight then some p else none

end NodeGraph.Text.Pattern
