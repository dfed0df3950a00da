import DocGraph.Mutation.Create

/-! # Mutations

The six mutations of a root field. Each adds its statements to the transaction in the making and names
the variable that holds its document. -/

namespace DocGraph

namespace Model

variable (m : Model)

open Synthesis

/-- Merges fields into a document. The edges of each edge field that is given replace those there. -/
def update (type : String) (id : Input) (data : InputObject) (exports : Option Selection)
    (var? : Option String) : Synthesis String := do
  ensureOpen
  let t ← Synthesis.ofExcept (m.objectType type)
  comment s!"update {type}"
  let id ← resolveId id
  let imported ← imports data
  let fields ← Synthesis.ofExcept (m.storedFields t (literals data))
  let doc ← freshParam (m.updated type fields)
  let var ← varOr var?
  lockWrite type
  push (.update var type id doc imported)
  m.objectEdges var t (some id) data
  exportSelection var exports
  m.checkKey var type
  m.deferChecks type (Ref.doc var).id none
  return var

/-- The collection of the edges of a field that a document is at an end of, if edges of the field go
with a deleted document. -/
def touching? (type : String) (f : FieldDef) : Except Error (Option String) := do
  if Text.startsWith f.name "_incoming" || Text.startsWith f.name "_outgoing" then return none
  if !(← m.schema.isEdgeField f) then return none
  if !Text.startsWith f.name "_" then return some (edgeCollection type f.name)
  if (← m.schema.kindOf f.type.base) == .interface then return none
  return f.reverseEdge?.map fun forward => edgeCollection forward.sourceType forward.field

/-- The collections of the edges that go with a deleted document of a type, each once. -/
def touchingCollections (t : TypeDef) : Except Error (List String) := do
  let found ← t.fields.mapM (m.touching? t.name)
  return (found.filterMap fun c => c).foldl (fun cs c => if cs.contains c then cs else cs ++ [c]) []

/-- Removes a document and the edges at it; if there is none, nothing else happens. -/
def delete (type : String) (id : Input) (var? : Option String) : Synthesis String := do
  ensureOpen
  let t ← Synthesis.ofExcept (m.objectType type)
  comment s!"delete {type}"
  let id ← resolveId id
  let var ← varOr var?
  lockWrite type
  push (.remove var type id)
  let collections ← Synthesis.ofExcept (m.touchingCollections t)
  collections.forM lockWrite
  push (.guarded (.doc var)
    (collections.map fun c => .removeEdges c (Ref.doc var).id .any))
  m.deferChecks type (Ref.doc var).id (some (.doc var))
  forget id
  return var

end Model

/-- A mutation of a root field. -/
inductive Mutation where
  | create (type : String) (data : InputObject)
  | update (type : String) (id : Input) (data : InputObject)
  | delete (type : String) (id : Input)
  | createEdge (type field : String) (source target : Input) (annotations : InputObject)
  | updateEdge (type field : String) (id : Input) (data : InputObject)
  | deleteEdge (type field : String) (id : Input)
deriving Repr

namespace Mutation

/-- Adds the statements of a mutation; the result is the variable of its document, `var?` if that
is given. -/
def synthesize (m : Model) (exports : Option Selection) (var? : Option String) :
    Mutation → Synthesis String
  | create type data => m.create type data exports var?
  | update type id data => m.update type id data exports var?
  | delete type id => m.delete type id var?
  | createEdge type field source target annotations =>
    m.createEdge type field source target annotations exports var?
  | updateEdge type field id data => m.updateEdge type field id data exports var?
  | deleteEdge type field id => m.deleteEdge type field id var?

end Mutation

end DocGraph
