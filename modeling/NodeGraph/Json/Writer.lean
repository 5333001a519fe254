/-!
# Writing JSON

Written documents are compact. A string escapes quotes, backslashes and control characters, and
writes everything else as it is.
-/

namespace NodeGraph.Json

/-- A hexadecimal digit in lower case. -/
def hexChar (n : Nat) : Char := Nat.digitChar n

/-- A character as it is written inside a string. -/
def escape (c : Char) : List Char :=
  if c = '"' then ['\\', '"']
  else if c = '\\' then ['\\', '\\']
  else if c = '\x08' then ['\\', 'b']
  else if c = '\x0c' then ['\\', 'f']
  else if c = '\n' then ['\\', 'n']
  else if c = '\r' then ['\\', 'r']
  else if c = '\t' then ['\\', 't']
  else if c < ' ' then ['\\', 'u', '0', '0', hexChar (c.toNat / 16), hexChar (c.toNat % 16)]
  else [c]

/-- A text as a string. -/
def writeString (text : String) : List Char := '"' :: text.toList.flatMap escape ++ ['"']

/-- An integer as a number. -/
def writeInteger (i : Int) : List Char := i.repr.toList

/-- A truth value. -/
def writeTruth (b : Bool) : List Char := if b then "true".toList else "false".toList

/-- An object with its members in order, each given by its key and what is written for its value. -/
def writeObject (members : List (String × List Char)) : List Char :=
  let written := members.map fun (key, value) => writeString key ++ ':' :: value
  '{' :: (written.intersperse [',']).flatten ++ ['}']

end NodeGraph.Json
