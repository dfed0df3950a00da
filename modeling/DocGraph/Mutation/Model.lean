import DocGraph.Mutation.Context
import DocGraph.Scalar
import DocGraph.Schema.Graph
import DocGraph.Settings

/-! # The model behind mutations

Mutations are read against a schema, under settings, at a point in time. The model says which input
fields are stored in a document and which become edges. -/

namespace DocGraph

/-- What mutations are read against. -/
structure Model where
  schema : Schema
  settings : Settings
  /-- Milliseconds since the beginning of 1970. -/
  now : Int
deriving Repr

namespace Model

/-- An object type of the schema. -/
def objectType (m : Model) (name : String) : Except Error TypeDef := do
  let t ← m.schema.typeDef name
  if t.kind == .object then return t else throw (.schema (.notObject name))

/-- The stored fields of an input object in their stored form; edge fields are left out. -/
def storedFields (m : Model) (t : TypeDef) : InputObject → Except Error Document
  | [] => return []
  | (name, value) :: rest => do
    match t.field? name with
    | none => throw (.input (.unknownField t.name name))
    | some f =>
      if ← m.schema.isDocumentField f then
        let value ← Scalar.store f.type.base (← value.literal)
        return (name, value) :: (← m.storedFields t rest)
      else m.storedFields t rest

/-- The field whose edges an entry of an input object describes, if it is neither a stored field nor
given by a variable. -/
def edgeField? (m : Model) (t : TypeDef) (name : String) (value : Input) : Option FieldDef :=
  match value.var?, t.field? name with
  | none, some f =>
    match m.schema.isDocumentField f with
    | .ok false => some f
    | _ => none
  | _, _ => none

/-- A new document of a type. -/
def created (m : Model) (type : String) (d : Document) : Json :=
  .obj ((Record.insert d Field.created (.int m.now)).insert Field.typeName (.str type))

/-- The fields that change in an updated document of a type. -/
def updated (m : Model) (type : String) (d : Document) : Json :=
  .obj ((Record.insert d Field.updated (.int m.now)).insert Field.typeName (.str type))

end Model

end DocGraph
