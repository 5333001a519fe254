import NodeGraph.Number.Numeral

/-!
# JSON documents

A document keeps numbers as they are written, so that whoever asks for an integer or a float
decides what the digits mean. A string whose escapes leave half of a surrogate pair without its
other half is part of a well-formed document but names no text.
-/

namespace NodeGraph

/-- A JSON document. -/
inductive Json where
  | null
  | bool (b : Bool)
  | number (n : Numeral)
  /-- A string and the text it names, if it names one. -/
  | string (text : Option String)
  | array (items : List Json)
  | object (members : List (Option String × Json))

end NodeGraph
