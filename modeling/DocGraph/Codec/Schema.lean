import DocGraph.Codec.Basic
import DocGraph.Json.Reader
import DocGraph.Schema.Basic

/-! # Schemas in JSON -/

namespace DocGraph

namespace TypeKind

/-- The kind of a name. -/
def ofName? : String → Option TypeKind
  | "Scalar" => some scalar
  | "Enum" => some enumeration
  | "Object" => some object
  | "Interface" => some interface
  | "Union" => some union
  | "InputObject" => some input
  | _ => none

def ofJson? : Decoder TypeKind := fun v => (Decoder.choice v).bind ofName?

end TypeKind

namespace TypeRef

def toJson : TypeRef → Json
  | named name => .obj [("Named", .str name)]
  | list inner => .obj [("List", inner.toJson)]
  | nonNull inner => .obj [("NonNull", inner.toJson)]

def ofJson? : Json → Option TypeRef
  | .obj [("Named", .str name)] => some (named name)
  | .obj [("List", v)] => (ofJson? v).map list
  | .obj [("NonNull", v)] => (ofJson? v).map nonNull
  | _ => none

end TypeRef

namespace DirectiveUse

def toJson (d : DirectiveUse) : Json :=
  .obj [("name", .str d.name), ("arguments", .arr (d.arguments.map fun a => .arr [.str a.1, a.2]))]

def ofJson? : Decoder DirectiveUse := fun v => do
  let f ← GivenFields.ofJson ["name", "arguments"] v
  let name ← f.required "name" .text
  let arguments ← f.defaulted "arguments" (.list (.pair .text .any)) []
  return ⟨name, arguments⟩

end DirectiveUse

namespace FieldDef

def toJson (f : FieldDef) : Json :=
  .obj [("name", .str f.name), ("ty", f.type.toJson),
    ("directives", .arr (f.directives.map DirectiveUse.toJson))]

def ofJson? : Decoder FieldDef := fun v => do
  let f ← GivenFields.ofJson ["name", "ty", "directives"] v
  let name ← f.required "name" .text
  let type ← f.required "ty" TypeRef.ofJson?
  let directives ← f.defaulted "directives" (.list DirectiveUse.ofJson?) []
  return ⟨name, type, directives⟩

end FieldDef

namespace TypeDef

def toJson (t : TypeDef) : Json :=
  .obj [("name", .str t.name), ("kind", .str t.kind.name),
    ("fields", .arr (t.fields.map FieldDef.toJson)), ("interfaces", .strs t.interfaces),
    ("members", .strs t.members), ("values", .strs t.values)]

def ofJson? : Decoder TypeDef := fun v => do
  let f ← GivenFields.ofJson ["name", "kind", "fields", "interfaces", "members", "values"] v
  let name ← f.required "name" .text
  let kind ← f.required "kind" TypeKind.ofJson?
  let fields ← f.defaulted "fields" (.list FieldDef.ofJson?) []
  let interfaces ← f.defaulted "interfaces" (.list .text) []
  let members ← f.defaulted "members" (.list .text) []
  let values ← f.defaulted "values" (.list .text) []
  return ⟨name, kind, fields, interfaces, members, values⟩

end TypeDef

namespace Schema

def toJson (s : Schema) : Json :=
  .arr (s.types.map TypeDef.toJson)

def ofJson? : Decoder Schema := fun v =>
  (Decoder.list TypeDef.ofJson? v).map ofTypes

/-- The text of a schema. -/
def text (s : Schema) : String :=
  s.toJson.text

/-- The schema written by a text. -/
def ofText? (text : String) : Option Schema :=
  (Json.parse? text).bind ofJson?

end Schema

end DocGraph
