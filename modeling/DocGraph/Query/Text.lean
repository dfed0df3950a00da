import DocGraph.Filter.Condition

/-! # Query text

Query text holds no data: values and the names of collections are *bound*, and placeholders stand in
their place. Placeholders are numbered from zero in the order of the text. -/

namespace DocGraph

/-- Query text with what its placeholders stand for. -/
structure QueryText where
  query : String
  binds : Record Json
deriving Repr

/-- The values bound so far. -/
abbrev Binds := Record Json

namespace Binds

/-- Binds a value under a name, and gives the placeholder. -/
def place (name : String) (value : Json) : StateM Binds String := fun binds =>
  ("@" ++ name, Record.insert binds name value)

/-- The placeholder of a value. -/
def value (v : Json) : StateM Binds String := fun binds =>
  place s!"value{binds.length}" v binds

/-- The placeholder of a collection. -/
def collection (name : String) : StateM Binds String := fun binds =>
  place s!"@value{binds.length}" (.str name) binds

end Binds

namespace FieldRef

def text (f : FieldRef) : String :=
  f.row ++ "." ++ f.field

end FieldRef

namespace Condition

/-- Texts with a separator between them; none at all stand for `true`. -/
def joined (separator : String) : List String → String
  | [] => "true"
  | texts => separator.intercalate texts

mutual

/-- The query text of a condition. -/
def text : Condition → StateM Binds String
  | compare target comparison value => do
    let v ← Binds.value value
    return target.text ++ " " ++ comparison.sign ++ " " ++ v
  | among target values negated => do
    let v ← Binds.value (.arr values)
    return target.text ++ " " ++ (if negated then "NOT " else "") ++ "IN " ++ v
  | like target pattern ignoreCase negated => do
    let v ← Binds.value (.str pattern)
    return (if negated then "NOT " else "") ++ "LIKE(" ++ target.text ++ ", " ++ v ++ ", " ++
      (if ignoreCase then "true" else "false") ++ ")"
  | all parts => do
    return "(" ++ joined " AND " (← texts parts) ++ ")"
  | any parts => do
    return "(" ++ joined " OR " (← texts parts) ++ ")"
  | notAll parts => do
    return "NOT (" ++ joined " AND " (← texts parts) ++ ")"

/-- The query texts of a list of conditions. -/
def texts : List Condition → StateM Binds (List String)
  | [] => return []
  | c :: rest => do
    let t ← text c
    let ts ← texts rest
    return t :: ts

end

/-- The filter clause of a list of conditions, which all have to hold. -/
def clause (conditions : List Condition) : StateM Binds String :=
  if conditions.isEmpty then return ""
  else do
    return " FILTER " ++ joined " AND " (← texts conditions)

end Condition

end DocGraph
