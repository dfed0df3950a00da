import DocGraph.Schema.Directive
import DocGraph.Text.Affix
import DocGraph.Text.Casing

/-! # The graph of a schema

Which fields live in a document and which are edges, what an abstract type may stand for, and the names
of the collections in which objects and edges are stored. A name that the schema does not define is an
error. -/

namespace DocGraph

/-- The collection of the edges of a field. -/
def edgeCollection (sourceType field : String) : String :=
  Text.capitalize field ++ "EdgeFrom" ++ Text.capitalize sourceType

/-- The type that lists the key fields of a type. -/
def keyTypeName (type : String) : String :=
  "_KeyFor" ++ type

/-- The elements that pass a test which may fail. -/
def keepM {α : Type} (test : α → Except Error Bool) : List α → Except Error (List α)
  | [] => .ok []
  | a :: rest => do
    let keep ← test a
    let rest ← keepM test rest
    return if keep then a :: rest else rest

/-- A reverse field resolved to the field it reverses. -/
structure ReverseEdge where
  field : String
  sourceType : String
deriving DecidableEq, Repr

/-- The field that `_<field>From<Type>` of type `Type` reverses. -/
def FieldDef.reverseEdge? (f : FieldDef) : Option ReverseEdge := do
  let inner ← Text.dropStart? f.name "_"
  let forward ← Text.dropEnd? inner ("From" ++ f.type.base)
  if forward.isEmpty then none else some ⟨forward, f.type.base⟩

/-- The directives of a field that mean something. -/
def FieldDef.constraints (f : FieldDef) : Except Error (List Directive) := do
  let found ← f.directives.mapM Directive.ofUse
  return found.filterMap fun d => d

namespace Schema

variable (s : Schema)

/-! ### Types and fields -/

/-- The type of a name. -/
def typeDef (name : String) : Except Error TypeDef :=
  match s.type? name with
  | some t => .ok t
  | none => .error (.schema (.unknownType name))

def kindOf (name : String) : Except Error TypeKind :=
  (s.typeDef name).map TypeDef.kind

/-- A field of a type. -/
def fieldDef (type field : String) : Except Error FieldDef := do
  let t ← s.typeDef type
  match t.field? field with
  | some f => .ok f
  | none => .error (.schema (.unknownField type field))

/-- Whether values of the field live in the document itself. -/
def isDocumentField (f : FieldDef) : Except Error Bool :=
  (s.kindOf f.type.base).map fun k => k == .scalar || k == .enumeration

/-- Whether values of the field are edges. -/
def isEdgeField (f : FieldDef) : Except Error Bool :=
  (s.kindOf f.type.base).map fun k => k == .object || k == .interface || k == .union

def documentFields (type : String) : Except Error (List FieldDef) := do
  keepM s.isDocumentField (← s.typeDef type).fields

def edgeFields (type : String) : Except Error (List FieldDef) := do
  keepM s.isEdgeField (← s.typeDef type).fields

/-! ### Abstract types -/

/-- The implementers of an interface, the members of a union, or the type itself. -/
def possibleTypes (name : String) : Except Error (List TypeDef) := do
  let t ← s.typeDef name
  match t.kind with
  | .interface => return s.implementers name
  | .union => t.members.mapM s.typeDef
  | _ => return [t]

def isAbstract (name : String) : Except Error Bool :=
  (s.kindOf name).map fun k => k == .interface || k == .union

/-- The collections of the objects a type may stand for. -/
def possibleCollections (type : String) : Except Error (List String) :=
  (s.possibleTypes type).map fun ts => ts.map TypeDef.name

/-- The collections of the edges of a field from any object a type may stand for. -/
def possibleEdgeCollections (type field : String) : Except Error (List String) :=
  (s.possibleTypes type).map fun ts => ts.map fun t => edgeCollection t.name field

/-- The type that lists the key fields of a type, if it is defined. -/
def keyType? (type : String) : Option TypeDef :=
  s.type? (keyTypeName type)

/-- Every edge field with directives of an interface of the type is a field of the type too. -/
def checkInterfaceFields (type : String) : Except Error Unit := do
  let t ← s.typeDef type
  t.interfaces.forM fun interface => do
    let i ← s.typeDef interface
    i.fields.forM fun f => do
      if f.directives.isEmpty then return
      let isEdge ← s.isEdgeField f
      if isEdge && (t.field? f.name).isNone then
        throw (.schema (.missingInterfaceField type interface f.name))

/-! ### Collections -/

/-- Whether objects of the type are stored in a collection of their own. -/
def isStored (t : TypeDef) : Bool :=
  t.kind == .object && !Text.startsWith t.name "_" && !Text.contains t.name "EdgeFrom" &&
    t.name != "Query" && t.name != "Mutation"

/-- The collections of stored objects. -/
def documentCollections : List String :=
  (s.types.filter isStored).map TypeDef.name

/-- The collections of the edges of one type. -/
def edgeCollectionsOf (t : TypeDef) : Except Error (List String) := do
  let forward := t.fields.filter fun f => !Text.startsWith f.name "_"
  let edges ← keepM s.isEdgeField forward
  return edges.map fun f => edgeCollection t.name f.name

/-- The collections of the edges of stored objects. -/
def edgeCollections : Except Error (List String) := do
  let lists ← (s.types.filter isStored).mapM s.edgeCollectionsOf
  return lists.flatten

end Schema

end DocGraph
