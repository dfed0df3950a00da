import DocGraph.Filter.Basic
import DocGraph.Query.Basic
import DocGraph.Schema.Graph

/-! # Building read queries

The queries behind the reads of a schema: one document by id or by key, a page of a type, the documents
at the other end of an edge field, and the edges of a field themselves. -/

namespace DocGraph.Schema

variable (s : Schema)

/-- The condition that a field equals a value. -/
def fieldEquals (field : String) (value : Json) : Condition :=
  .compare ⟨documentRow, field⟩ .eq value

/-- The document of an id, among all objects the type may stand for. -/
def getQuery (id type : String) : Except Error ReadQuery := do
  let collections ← s.possibleCollections type
  return { ReadQuery.ofSource (.collections collections) documentRow with
    conditions := [fieldEquals Field.id (.str id)]
    limit := some 1 }

/-- The conditions of the entries of a key. -/
def keyConditions (t : TypeDef) (type : String) :
    List (String × Json) → Except Error (List Condition)
  | [] => .ok []
  | (field, value) :: rest => do
    let value ← match t.field? field with
      | some f => Scalar.store f.type.base value
      | none => .error (.schema (.keyField type field))
    let others ← keyConditions t type rest
    return fieldEquals field value :: others

/-- The document that agrees with a key on all its fields. -/
def keyQuery (key : Document) (type : String) : Except Error ReadQuery := do
  let t ← s.typeDef type
  if key.isEmpty then throw (.input (.emptyKey type))
  let conditions ← keyConditions t type key
  return { ReadQuery.ofSource (.collections [type]) documentRow with
    conditions := conditions
    limit := some 1 }

/-- The conditions of a filter that may be missing. -/
def filterConditions (type row : String) : Option Json → Except Error (List Condition)
  | none => .ok []
  | some filter => do
    let t ← s.typeDef type
    Filter.conditions (some t) row filter

/-- A page of a type in order of ids, and the page to put its rows in. -/
def listQuery (args : ListArgs) (type : String) : Except Error (ReadQuery × Page) := do
  let collections ← s.possibleCollections type
  let conditions ← s.filterConditions type documentRow args.filter
  let q := { ReadQuery.ofSource (.collections collections) documentRow with
    conditions := conditions
    after := some (args.after.getD "")
    sortById := true
    limit := args.first }
  return (q, ⟨[], conditions, collections⟩)

/-- The documents at the other end of a field, and whether the field is a list. A reverse field is
followed backwards over the edges of every object its type may stand for. -/
def endpointQuery (parentType parentId field : String) (filter : Option Json) :
    Except Error (ReadQuery × Bool) := do
  let f ← s.fieldDef parentType field
  let (direction, edges) ← match f.reverseEdge? with
    | some r => do pure (Direction.inbound, ← s.possibleEdgeCollections r.sourceType r.field)
    | none => pure (Direction.outbound, [edgeCollection parentType field])
  let conditions ← s.filterConditions f.type.base documentRow filter
  let source := Source.traversal parentId direction edges .vertex
  return ({ ReadQuery.ofSource source documentRow with conditions := conditions }, f.type.isList)

/-- The edges of a field whose type is a type of edges, and whether the field is a list. The
collection of a type of edges is its name without the leading underscore. -/
def edgeQuery (parentType parentId field : String) (filter : Option Json) :
    Except Error (ReadQuery × Bool) := do
  let f ← s.fieldDef parentType field
  let direction := if Text.startsWith field "_outgoing" then Direction.outbound else .inbound
  let types ← s.possibleTypes f.type.base
  let edges := types.map fun t => (Text.dropStart? t.name "_").getD t.name
  let conditions ← s.filterConditions f.type.base edgeRow filter
  let source := Source.traversal parentId direction edges .edge
  return ({ ReadQuery.ofSource source edgeRow with conditions := conditions }, f.type.isList)

end DocGraph.Schema
