/-!
# Fields

A text cut at each place where a separator stands.
-/

namespace NodeGraph.Text

/-- The parts of a text before, between and behind the separators; there is one more part than
there are separators. -/
def fields (separator : Char) : List Char → List (List Char)
  | [] => [[]]
  | c :: cs =>
    if c = separator then [] :: fields separator cs
    else match fields separator cs with
      | [] => [[c]]
      | first :: others => (c :: first) :: others

end NodeGraph.Text
