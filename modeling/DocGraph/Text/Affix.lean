/-! # Parts of names

Beginnings, endings and inner parts of texts, as they occur in names. -/

namespace DocGraph.Text

/-- Whether a text starts with another. -/
def startsWith (s start : String) : Bool :=
  start.toList.isPrefixOf s.toList

/-- The text after a given beginning. -/
def dropStart? (s start : String) : Option String :=
  if startsWith s start then some (String.ofList (s.toList.drop start.toList.length)) else none

/-- The text before a given ending. -/
def dropEnd? (s ending : String) : Option String :=
  let cs := s.toList
  let es := ending.toList
  if es.isSuffixOf cs then some (String.ofList (cs.take (cs.length - es.length))) else none

/-- Whether `part` occurs somewhere in a list. -/
def occursIn (part : List Char) : List Char → Bool
  | [] => part.isEmpty
  | c :: rest => part.isPrefixOf (c :: rest) || occursIn part rest

/-- Whether a text occurs somewhere in another. -/
def contains (s part : String) : Bool :=
  occursIn part.toList s.toList

end DocGraph.Text
