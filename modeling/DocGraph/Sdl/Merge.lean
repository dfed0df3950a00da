import DocGraph.Error
import DocGraph.Sdl.Grammar

/-! # From definitions to a schema

Type definitions become types: descriptions, arguments of fields and initial values are left out, and
the arguments of directives become JSON. Extensions are merged into the type they extend, which has to
be defined earlier. `mergeAll` says how, and `Schema.parse` reads a whole schema text. -/

namespace DocGraph.Sdl

/-! ### Conversion -/

mutual

/-- A constant as JSON; the name of an enumeration value becomes a text. -/
def Literal.toJson : Literal → Json
  | .number _ (some n) => .num n
  | .number _ none => .null
  | .str s => .str s
  | .bool b => .bool b
  | .null => .null
  | .name s => .str s
  | .list items => .arr (itemsToJson items)
  | .object fields => .obj (Record.ofList (fieldsToJson fields))

def itemsToJson : List Literal → List Json
  | [] => []
  | v :: rest => v.toJson :: itemsToJson rest

def fieldsToJson : List (String × Literal) → List (String × Json)
  | [] => []
  | (name, v) :: rest => (name, v.toJson) :: fieldsToJson rest

end

def Annotation.toUse (a : Annotation) : DirectiveUse :=
  ⟨a.name, fieldsToJson a.arguments⟩

def FieldLine.toField (f : FieldLine) : FieldDef :=
  ⟨f.name, f.type, f.annotations.map Annotation.toUse⟩

def Parameter.toField (p : Parameter) : FieldDef :=
  ⟨p.name, p.type, p.annotations.map Annotation.toUse⟩

/-- The type that a definition or extension describes. -/
def TypeDefinition.toType (d : TypeDefinition) : TypeDef :=
  match d.body with
  | .scalar => TypeDef.empty d.name .scalar
  | .object is fs =>
    { TypeDef.empty d.name .object with fields := fs.map FieldLine.toField, interfaces := is }
  | .interface is fs =>
    { TypeDef.empty d.name .interface with fields := fs.map FieldLine.toField, interfaces := is }
  | .union ms => { TypeDef.empty d.name .union with members := ms }
  | .enumeration vs => { TypeDef.empty d.name .enumeration with values := vs.map Prod.fst }
  | .input fs => { TypeDef.empty d.name .input with fields := fs.map Parameter.toField }

/-! ### Merging -/

/-- A type with word whether it extends another. -/
structure Declaration where
  extending : Bool
  type : TypeDef
deriving Repr

/-- Adds the fields of an extension one after another; none may repeat a field. -/
def addFields (base : TypeDef) : List FieldDef → Except Error TypeDef
  | [] => .ok base
  | f :: rest =>
    if (base.field? f.name).isSome then .error (.schema (.fieldRedefined base.name f.name))
    else addFields { base with fields := base.fields ++ [f] } rest

/-- Merges an extension into a type of the same kind. -/
def extendType (base extension : TypeDef) : Except Error TypeDef :=
  if base.kind != extension.kind then
    .error (.schema (.extendsKind base.name base.kind extension.kind))
  else
    match extension.kind with
    | .object | .interface | .input => do
      let merged ← addFields base extension.fields
      return { merged with interfaces := merged.interfaces ++ extension.interfaces }
    | .union => .ok { base with members := base.members ++ extension.members }
    | .enumeration => .ok { base with values := base.values ++ extension.values }
    | .scalar => .ok base

/-- Merges an extension into the first type of its name. -/
def extendIn (extension : TypeDef) : List TypeDef → Except Error (List TypeDef)
  | [] => .error (.schema (.extendsUnknown extension.name))
  | t :: rest =>
    if t.name == extension.name then (extendType t extension).map fun t => t :: rest
    else (extendIn extension rest).map fun rest => t :: rest

/-- Takes one declaration in. -/
def merge (types : List TypeDef) (d : Declaration) : Except Error (List TypeDef) :=
  if d.extending then extendIn d.type types
  else if types.any fun t => t.name == d.type.name then
    .error (.schema (.redefined d.type.name))
  else .ok (types ++ [d.type])

/-- The types of a list of declarations, in order of their definitions. -/
def mergeAll (ds : List Declaration) : Except Error (List TypeDef) :=
  ds.foldlM merge []

/-- The declaration a definition makes, if it is one of a type. -/
def Definition.declaration? : Definition → Option Declaration
  | .type d => some ⟨d.extending, d.toType⟩
  | _ => none

/-! ### Schema text -/

/-- Line and column of a place in a text, both counted from one. A line feed ends a line, and columns
are counted from the last character that passes `restarts`. -/
def position (restarts : Char → Bool) (s : String) (offset : Nat) : Nat × Nat :=
  let before := s.toList.take offset
  let line := before.reverse.takeWhile fun c => !restarts c
  (1 + before.count '\n', 1 + line.length)

/-- The error of a text that cannot be read on from a place; a carriage return is a column like any
other. -/
def unreadable (s : String) (offset : Nat) : Error :=
  let (line, column) := position (fun c => c == '\n') s offset
  .malformed line column

/-- The error of a definition with a fault at a place; columns restart after a carriage return too. -/
def faulty (s : String) (offset : Nat) : Error :=
  let (line, column) := position (fun c => c == '\n' || c == '\r') s offset
  .malformed line column

end DocGraph.Sdl

namespace DocGraph.Schema

/-- The schema that a text describes. -/
def parse (s : String) : Except Error Schema :=
  match Sdl.document.run s with
  | .error offset => .error (Sdl.unreadable s offset)
  | .ok definitions =>
    match definitions.findSome? Sdl.Definition.fault? with
    | some offset => .error (Sdl.faulty s offset)
    | none => (Sdl.mergeAll (definitions.filterMap Sdl.Definition.declaration?)).map ofTypes

end DocGraph.Schema
