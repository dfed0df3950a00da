/-! # Selections

What a root field asks back: its response name and the fields below it, some of which are exported as
variables for later root fields. -/

namespace DocGraph

/-- One entry of a selection. -/
inductive SelectionItem where
  | field (name : String) (exportAs : Option String) (items : List SelectionItem)
  | fragment (condition : Option String) (items : List SelectionItem)
deriving Repr

/-- The selection of a root field under its response name. -/
structure Selection where
  responseName : String
  items : List SelectionItem
deriving Repr

end DocGraph
