import NodeGraph.Log.Basic
import NodeGraph.Text.Fields
import NodeGraph.Text.Pattern.Reader

/-!
# Log filters

A filter chooses the log lines that are shown. It is written as directives with commas between
them, such as `info,flowgraph::nodes=off`, and may end with a slash and a pattern that the text of
a line has to match. Of the directives that take in the source of a line the most specific one
decides how loud the line has to be.
-/

namespace NodeGraph

/-- How loud the lines of some sources have to be. -/
structure Directive where
  /-- What the path of a source begins with; `none` takes in all sources. -/
  scope : Option (List Char)
  /-- The quietest level that is shown; `none` shows nothing. -/
  limit : Option Level
deriving DecidableEq, Repr

namespace Directive

/-- The limit with a name: a level, or `off`. -/
def limitOfName? (name : List Char) : Option (Option Level) :=
  let name := String.ofList name
  if name.toUpper = "OFF" then some none else (Level.ofName? name).map some

/-- The directive that a text writes: a limit for all sources, a scope of which everything is
shown, or a scope with its limit behind `=`. -/
def ofText? (cs : List Char) : Option Directive :=
  match Text.fields '=' cs with
  | [scope] =>
    match limitOfName? scope with
    | some limit => some ⟨none, limit⟩
    | none => some ⟨some scope, some .trace⟩
  | [scope, limit] =>
    match Text.trim limit with
    | [] => some ⟨some scope, some .trace⟩
    | limit => (limitOfName? limit).map (⟨some scope, ·⟩)
  | _ => none

def covers (d : Directive) (source : LogSource) : Bool :=
  d.scope.all (·.isPrefixOf source.path.toList)

/-- How much of a path the scope fixes. -/
def reach (d : Directive) : Nat := (d.scope.map List.length).getD 0

def admits (d : Directive) (level : Level) : Bool :=
  d.limit.any fun limit => level.rank ≤ limit.rank

/-- Puts a directive into a list, in the place of one with the same scope if there is one. -/
def insert (d : Directive) : List Directive → List Directive
  | [] => [d]
  | first :: others =>
    if first.scope = d.scope then d :: others else first :: insert d others

/-- The more specific of two directives, and the second of two that are equally so. -/
def moreSpecific (a b : Directive) : Directive := if a.reach ≤ b.reach then b else a

end Directive

/-- Chooses log lines. -/
structure LogFilter where
  directives : List Directive
  pattern : Option Text.Pattern
deriving DecidableEq, Repr

namespace LogFilter

/-- The directives of a text; those that cannot be read are left out. Without any, errors are
shown. -/
def directivesOf (cs : List Char) : List Directive :=
  let texts := ((Text.fields ',' cs).map Text.trim).filter (· ≠ [])
  match (texts.filterMap Directive.ofText?).foldl (fun ds d => d.insert ds) [] with
  | [] => [⟨none, some .error⟩]
  | ds => ds

/-- The filter that a setting asks for. Without a setting lines for information and louder ones are
shown. A setting with more than one slash says nothing, and a pattern that cannot be read is left
out. -/
def ofSetting : Option String → LogFilter
  | none => ⟨[⟨none, some .info⟩], none⟩
  | some setting =>
    match Text.fields '/' setting.toList with
    | [directives] => ⟨directivesOf directives, none⟩
    | [directives, pattern] => ⟨directivesOf directives, Text.Pattern.ofText? pattern⟩
    | _ => ⟨directivesOf [], none⟩

/-- The directive that decides about the lines of a source. -/
def directive? (f : LogFilter) (source : LogSource) : Option Directive :=
  match f.directives.filter (·.covers source) with
  | [] => none
  | d :: ds => some (ds.foldl Directive.moreSpecific d)

def admits (f : LogFilter) (line : LogLine) : Bool :=
  (f.directive? line.source).any (·.admits line.level) && f.pattern.all (·.occursIn line.text)

end LogFilter

end NodeGraph
