import NodeGraph.Text.CharSet

/-!
# Patterns

A regular expression over characters. `Pattern.ends` follows a pattern from a set of places in a
text to the set of places where it can end, so that searching takes no backtracking.
-/

namespace NodeGraph.Text

/-- What a place in a text has to be. A word is a run of ASCII letters, digits and underscores. -/
inductive Anchor where
  | textStart
  | textEnd
  /-- The start of a line; `pairs` takes a carriage return, alone or before a line feed, for the
  end of a line too. -/
  | lineStart (pairs : Bool)
  | lineEnd (pairs : Bool)
  | wordEdge
  | noWordEdge
  | wordStart
  | wordEnd
  /-- No word stands before the place. -/
  | afterNoWord
  /-- No word stands behind the place. -/
  | beforeNoWord
deriving DecidableEq, Repr

/-- Whether a place between two characters is what the anchor asks for. At the start of a text
nothing stands before the place, and at its end nothing behind it. -/
def Anchor.holds (anchor : Anchor) (before after : Option Char) : Bool :=
  let left := before.any CharSet.word.contains
  let right := after.any CharSet.word.contains
  match anchor with
  | textStart => before.isNone
  | textEnd => after.isNone
  | lineStart pairs =>
    before.isNone || before == some '\n' || (pairs && before == some '\r' && after != some '\n')
  | lineEnd pairs =>
    if pairs then
      after.isNone || after == some '\r' || (after == some '\n' && before != some '\r')
    else after.isNone || after == some '\n'
  | wordEdge => left != right
  | noWordEdge => left == right
  | wordStart => !left && right
  | wordEnd => left && !right
  | afterNoWord => !left
  | beforeNoWord => !right

/-- A regular expression. -/
inductive Pattern where
  | empty
  | char (set : CharSet)
  | anchor (anchor : Anchor)
  | sequence (p q : Pattern)
  | either (p q : Pattern)
  /-- At least `least` times in a row, and at most `most` times if that is given. -/
  | repeated (least : Nat) (most : Option Nat) (p : Pattern)
deriving DecidableEq, Repr

namespace Pattern

/-- The character before a place. -/
def before? (text : Array Char) : Nat → Option Char
  | 0 => none
  | i + 1 => text[i]?

/-- Places where the pattern can end when it begins at one of some places. -/
def ends (text : Array Char) : Pattern → List Nat → List Nat
  | empty, starts => starts
  | char set, starts => (starts.filter fun i => text[i]?.any set.contains).map (· + 1)
  | anchor a, starts => starts.filter fun i => a.holds (before? text i) text[i]?
  | sequence p q, starts => q.ends text (p.ends text starts)
  | either p q, starts => (p.ends text starts ++ q.ends text starts).eraseDups
  | repeated least most p, starts =>
    -- Each round that adds anything adds one of `text.size + 1` places.
    let rounds := min ((most.map (· - least)).getD (text.size + 1)) (text.size + 1)
    let once := fun places => p.ends text places
    Nat.repeat (fun places => (places ++ once places).eraseDups) rounds (Nat.repeat once least starts)

/-- Whether the pattern matches some part of a text. -/
def occursIn (p : Pattern) (text : String) : Bool :=
  let chars := text.toList.toArray
  !(p.ends chars (List.range (chars.size + 1))).isEmpty

/-- Whether a match can be longer than nothing. -/
def consumes : Pattern → Bool
  | empty | anchor _ => false
  | char _ => true
  | sequence p q | either p q => p.consumes || q.consumes
  | repeated _ most p => most != some 0 && p.consumes

/-- A pattern some times in a row. A pattern that matches only the empty text need not be repeated
more than once. -/
def times (least : Nat) (most : Option Nat) (p : Pattern) : Pattern :=
  if most = some 0 then empty
  else if p.consumes then repeated least most p
  else repeated (min least 1) (some (min (most.getD 1) 1)) p

/-- Number of characters and anchors, with each repetition written out. -/
def weight : Pattern → Nat
  | empty => 0
  | char _ | anchor _ => 1
  | sequence p q | either p q => p.weight + q.weight
  | repeated least most p => most.getD (least + 1) * p.weight

end Pattern

end NodeGraph.Text
