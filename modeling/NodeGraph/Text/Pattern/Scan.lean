import NodeGraph.Text.Blank
import NodeGraph.Text.Digit
import NodeGraph.Text.Pattern.Basic

/-!
# Scanning patterns

The parts from which written patterns are read: the mode that flags such as `(?x)` set, blanks and
comments, characters behind a backslash, and counts in braces. Reading gives nothing for a text
that is no pattern.

Case, words, digits and blanks are known for ASCII alone. A mode with `wide` on, which is the
default, takes in all characters, so it refuses what would need tables for them: caseless letters,
`\d`, `\s`, `\w` and the edges of words. A mode with `wide` off has them for ASCII, and refuses
what would match a character beyond ASCII by not naming it.
-/

namespace NodeGraph.Text.Pattern

/-- How the rest of a group is read. -/
structure Mode where
  /-- Letters match in both cases. -/
  caseless : Bool := false
  /-- Lines have starts and ends of their own. -/
  lines : Bool := false
  /-- A point matches the end of a line too. -/
  pointMatchesAll : Bool := false
  /-- Blanks and comments are skipped. -/
  spaced : Bool := false
  /-- A carriage return ends a line too. -/
  pairs : Bool := false
  /-- Characters beyond ASCII are taken in. -/
  wide : Bool := true
deriving DecidableEq, Repr

namespace Mode

/-- Sets what a flag stands for. Which of several matches is wanted makes no difference to whether
there is one, so `U` changes nothing. -/
def set (mode : Mode) (on : Bool) : Char → Option Mode
  | 'i' => some { mode with caseless := on }
  | 'm' => some { mode with lines := on }
  | 's' => some { mode with pointMatchesAll := on }
  | 'x' => some { mode with spaced := on }
  | 'R' => some { mode with pairs := on }
  | 'u' => some { mode with wide := on }
  | 'U' => some mode
  | _ => none

/-- Sets the flags of a list; those behind a minus are taken back. Each flag stands there once, and
a minus has flags behind it. -/
def setAll (mode : Mode) (flags : List Char) : Option Mode :=
  if flags.eraseDups.length = flags.length ∧ flags.getLast? ≠ some '-' then do
    let mode ← (flags.takeWhile (· ≠ '-')).foldlM (fun mode flag => mode.set true flag) mode
    ((flags.dropWhile (· ≠ '-')).drop 1).foldlM (fun mode flag => mode.set false flag) mode
  else none

end Mode

/-- The text without the blanks and the comments at its front. A comment goes from `#` to the end
of its line, and `comment` says that the text begins inside of one. -/
def dropBlanks (comment : Bool) : List Char → List Char
  | [] => []
  | c :: cs =>
    if comment then dropBlanks (c ≠ '\n') cs
    else if isBlank c then dropBlanks false cs
    else if c = '#' then dropBlanks true cs
    else c :: cs

/-- What is still to be read, and the names that groups have taken. -/
structure Source where
  rest : List Char
  names : List (List Char) := []

/-- A reader of a part of a pattern. -/
abbrev Scan := StateT Source Option

namespace Scan

def rest : Scan (List Char) := return (← get).rest

def setRest (rest : List Char) : Scan Unit := modify fun source => { source with rest }

def peek? : Scan (Option Char) := return (← rest).head?

/-- Takes the next character. -/
def next : Scan Char := do
  match ← rest with
  | [] => failure
  | c :: cs =>
    setRest cs
    return c

/-- Takes the next character if it is `c`, and says whether it was. -/
def accept (c : Char) : Scan Bool := do
  match ← rest with
  | d :: ds =>
    if d = c then
      setRest ds
      return true
    else return false
  | [] => return false

/-- Takes a character that has to come next. -/
def expect (c : Char) : Scan Unit := do
  guard (← accept c)

/-- Takes everything before a character, and the character. -/
def upTo (c : Char) : Scan (List Char) := do
  let cs ← rest
  setRest (cs.dropWhile (· ≠ c))
  expect c
  return cs.takeWhile (· ≠ c)

/-- Skips blanks and comments if the mode does. -/
def skip (mode : Mode) : Scan Unit := do
  if mode.spaced then setRest (dropBlanks false (← rest))

/-- What stands before a closing brace, without blanks if the mode skips them. -/
def braced (mode : Mode) : Scan (List Char) := do
  let inside ← upTo '\x7d'
  return if mode.spaced then inside.filter (!isBlank ·) else inside

end Scan

open Scan

/-- What a backslash and the characters behind it stand for. -/
inductive Escape where
  | char (c : Char)
  | set (set : CharSet)
  | anchor (anchor : Anchor)
deriving DecidableEq, Repr

/-- The character with a code point. -/
def charOf? (n : Nat) : Option Char :=
  if n.isValidChar then some (Char.ofNat n) else none

/-- A number of hexadecimal digits, as a number. -/
def hexDigits (mode : Mode) : Nat → Nat → Scan Nat
  | 0, value => return value
  | count + 1, value => do
    skip mode
    let digit ← StateT.lift (hexDigit? (← next))
    hexDigits mode count (value * 16 + digit)

/-- A code point: so many digits, or any number of them in braces. -/
def codePoint (mode : Mode) (count : Nat) : Scan Char := do
  skip mode
  if ← accept '\x7b' then
    let inside ← braced mode
    guard (inside ≠ [])
    let digits ← StateT.lift (inside.mapM hexDigit?)
    StateT.lift (charOf? (digits.foldl (fun value digit => value * 16 + digit) 0))
  else
    let c ← StateT.lift (charOf? (← hexDigits mode count 0))
    guard (count ≠ 2 || mode.wide || c.toNat < 0x80)
    return c

/-- The edge of a word, or what a name in braces behind it makes of it. Braces that hold no name
are a count, and not taken. -/
def wordEdge (mode : Mode) : Scan Anchor := do
  let named := fun c => c.isAlpha || c == '-' || (mode.spaced && isBlank c)
  match ← rest with
  | '\x7b' :: inside =>
    let inside := if mode.spaced then dropBlanks false inside else inside
    let some first := inside.head? | failure
    if named first then
      setRest (inside.dropWhile named)
      expect '\x7d'
      match String.ofList ((inside.takeWhile named).filter (!isBlank ·)) with
      | "start" => return .wordStart
      | "end" => return .wordEnd
      | "start-half" => return .afterNoWord
      | "end-half" => return .beforeNoWord
      | _ => failure
    else return .wordEdge
  | _ => return .wordEdge

/-- What a backslash stands for together with what follows it. Before a letter or a digit it needs
a meaning of its own; before any other ASCII character it stands for that character. -/
def escape (mode : Mode) : Scan Escape := do
  let c ← next
  match c with
  | 'a' => return .char '\x07'
  | 'f' => return .char '\x0c'
  | 't' => return .char '\t'
  | 'n' => return .char '\n'
  | 'r' => return .char '\r'
  | 'v' => return .char '\x0b'
  | 'x' => return .char (← codePoint mode 2)
  | 'u' => return .char (← codePoint mode 4)
  | 'U' => return .char (← codePoint mode 8)
  | 'A' => return .anchor .textStart
  | 'z' => return .anchor .textEnd
  | _ =>
    if c.isAlphanum || c == '<' || c == '>' then
      guard (!mode.wide)
      match c with
      | 'd' => return .set CharSet.digit
      | 's' => return .set CharSet.space
      | 'w' => return .set CharSet.word
      | 'b' => return .anchor (← wordEdge mode)
      | 'B' => return .anchor .noWordEdge
      | '<' => return .anchor .wordStart
      | '>' => return .anchor .wordEnd
      | _ => failure
    else
      guard (c.toNat < 0x80)
      return .char c

/-- A number in a count. -/
def count? (cs : List Char) : Option Nat :=
  let digits := trim cs
  if digits ≠ [] ∧ digits.all Char.isDigit then
    let n := Nat.ofDigitChars 10 digits 0
    if n ≤ 0xffffffff then some n else none
  else none

/-- A count in braces, behind the opening one: a number, a least number with a comma, or a least
and a greatest number. -/
def count (mode : Mode) : Scan (Nat × Option Nat) := do
  let inside ← braced mode
  match inside.span (· ≠ ',') with
  | (exactly, []) =>
    let n ← StateT.lift (count? exactly)
    return (n, some n)
  | (least, [_]) => return (← StateT.lift (count? least), none)
  | (least, _ :: most) =>
    let least ← StateT.lift (count? least)
    let most ← StateT.lift (count? most)
    guard (least ≤ most)
    return (least, some most)

/-- The pattern of a single character. -/
def literal? (mode : Mode) (c : Char) : Option Pattern :=
  if !mode.caseless then some (.char (.single c))
  else if mode.wide then none
  else some (.char (.caseless (.single c)))

/-- The pattern of a point. -/
def point? (mode : Mode) : Option Pattern :=
  if !mode.wide then none
  else if mode.pointMatchesAll then some (.char (.compl .empty))
  else if mode.pairs then some (.char (.compl (.ofRanges [('\n', '\n'), ('\r', '\r')])))
  else some (.char (.compl (.single '\n')))

end NodeGraph.Text.Pattern
