import NodeGraph.Config
import NodeGraph.Graph.Basic
import NodeGraph.Json.Reader
import NodeGraph.Json.Writer
import NodeGraph.Statistics
import NodeGraph.Value.Coercion

/-!
# JSON forms

How values, settings and the small records of a graph are written as JSON and read back. A record
is written as an object with its fields in order. It is read from an object with its fields in any
order and perhaps others, or from an array of its fields; a field given twice is refused. A value
with data is an object of one member that names its kind.
-/

namespace NodeGraph

namespace Json

/-- How often a key occurs among the members of an object. -/
def occurrences (members : List (Option String × Json)) (key : String) : Nat :=
  members.countP fun (k, _) => k == some key

/-- What a document gives for each field of a record, `none` where it gives nothing. No value when
the document is no record with these fields. -/
def fields? (names : List String) : Json → Option (List (Option Json))
  | .object members =>
    if members.all (fun (key, _) => key.isSome) ∧ names.all (fun n => occurrences members n ≤ 1)
    then some (names.map fun n => members.lookup (some n))
    else none
  | .array items =>
    if items.length ≤ names.length then
      some (items.map some ++ List.replicate (names.length - items.length) none)
    else none
  | _ => none

/-- An integer of 64 bits with sign. -/
def signed? : Json → Option Int64
  | .number n => n.integral?.bind int64?
  | _ => none

/-- An integer of 64 bits without sign. -/
def unsigned? : Json → Option Nat
  | .number n => do
    let i ← n.integral?
    if 0 ≤ i ∧ i < UInt64.size then some i.toNat else none
  | _ => none

/-- A truth value. -/
def truth? : Json → Option Bool
  | .bool b => some b
  | _ => none

/-- The name of a choice without data: a string, or an object that gives it null. -/
def choice? : Json → Option String
  | .string text => text
  | .object [(key, .null)] => key
  | _ => none

/-- All fields of a record of unsigned integers; none may be missing. -/
def unsignedFields? (names : List String) (j : Json) : Option (List Nat) := do
  let found ← j.fields? names
  found.mapM fun field => field.bind unsigned?

end Json

/-- Reads a text as JSON of some form. -/
def readJson {α : Type} (form : Json → Option α) (text : String) : Except Fault α :=
  match (Json.ofText? text).bind form with
  | some a => .ok a
  | none => .error .malformed

namespace Value

/-- Floats in JSON are positional from 0.00001 up to below `10 ^ 16` and have a fraction there; of
two nearest decimals the even one is taken, and what is not finite is written as null. -/
def jsonFormat : FloatFormat where
  positional := some (-5, 16)
  keepsFraction := true
  tie := .toEven
  nan := "null"
  infinity := "null"
  negativeInfinity := "null"

def toJson : Value → List Char
  | .empty => Json.writeString "None"
  | .bool b => Json.writeObject [("Bool", Json.writeTruth b)]
  | .int i => Json.writeObject [("Int", Json.writeInteger i.toInt)]
  | .float x => Json.writeObject [("Float", (jsonFormat.write x).toList)]
  | .text s => Json.writeObject [("Text", Json.writeString s)]

def ofJson? : Json → Option Value
  | .string (some kind) => if kind = "None" then some .empty else none
  | .object [(some kind, data)] =>
    match kind, data with
    | "None", .null => some .empty
    | "Bool", .bool b => some (.bool b)
    | "Int", data => data.signed?.map Value.int
    | "Float", .number n => n.scaled?.map .float
    | "Text", .string content => content.map Value.text
    | _, _ => none
  | _ => none

end Value

namespace PortType

def toJson (t : PortType) : List Char := Json.writeString t.name

def ofJson? (j : Json) : Option PortType := do
  let name ← j.choice?
  all.find? (·.name == name)

end PortType

namespace Config

def toJson (c : Config) : List Char :=
  Json.writeObject
    [("trace_execution", Json.writeTruth c.traceExecution),
      ("collect_statistics", Json.writeTruth c.collectStatistics)]

/-- Fields that are not given keep their defaults. -/
def ofJson? (j : Json) : Option Config := do
  let found ← j.fields? ["trace_execution", "collect_statistics"]
  match found with
  | [trace, collect] =>
    let defaults : Config := {}
    some {
      traceExecution := ← trace.elim (some defaults.traceExecution) Json.truth?
      collectStatistics := ← collect.elim (some defaults.collectStatistics) Json.truth? }
  | _ => none

/-- The settings that a JSON text gives. -/
def ofText (text : String) : Except Fault Config := readJson ofJson? text

/-- The settings in a file, given its bytes, or `none` when there is no such file. -/
def ofFile (content : Option ByteArray) : Except Fault Config :=
  match content with
  | none => .error (.file .notFound)
  | some bytes =>
    match String.fromUTF8? bytes with
    | none => .error (.file .notUtf8)
    | some text => ofText text

end Config

namespace Epoch

def toJson (e : Epoch) : List Char := Json.writeObject [("valid_id", Json.writeInteger e.number)]

def ofJson? (j : Json) : Option Epoch := do
  match ← j.fields? ["valid_id"] with
  | [some number] => number.signed?.map fun n => ⟨n.toInt⟩
  | _ => none

end Epoch

namespace Statistics

def toJson (s : Statistics) : List Char :=
  Json.writeObject (fieldNames.zip (s.counts.map fun n : Nat => Json.writeInteger n))

def ofJson? (j : Json) : Option Statistics := do
  match ← j.unsignedFields? fieldNames with
  | [hits, misses, evaluations, invalidations, wraps, cycles] =>
    some { hits, misses, evaluations, invalidations, wraps, cycles }
  | _ => none

end Statistics

namespace Link

def toJson (l : Link) : List Char :=
  Json.writeObject
    [("from_node", Json.writeInteger l.source.node), ("from_port", Json.writeInteger l.source.port),
      ("to_node", Json.writeInteger l.target.node), ("to_port", Json.writeInteger l.target.port)]

def ofJson? (j : Json) : Option Link := do
  match ← j.unsignedFields? ["from_node", "from_port", "to_node", "to_port"] with
  | [fromNode, fromPort, toNode, toPort] => some ⟨⟨fromNode, fromPort⟩, ⟨toNode, toPort⟩⟩
  | _ => none

end Link

namespace InputAddr

def toJson (a : InputAddr) : List Char :=
  Json.writeObject [("node", Json.writeInteger a.node), ("port", Json.writeInteger a.port)]

def ofJson? (j : Json) : Option InputAddr := do
  match ← j.unsignedFields? ["node", "port"] with
  | [node, port] => some ⟨node, port⟩
  | _ => none

end InputAddr

namespace OutputAddr

def toJson (a : OutputAddr) : List Char :=
  Json.writeObject [("node", Json.writeInteger a.node), ("port", Json.writeInteger a.port)]

def ofJson? (j : Json) : Option OutputAddr := do
  match ← j.unsignedFields? ["node", "port"] with
  | [node, port] => some ⟨node, port⟩
  | _ => none

end OutputAddr

end NodeGraph
