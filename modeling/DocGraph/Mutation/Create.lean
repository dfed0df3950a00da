import DocGraph.Mutation.Edge

/-! # Nested creation

An input object describes a document, the edges that leave it, and the documents these edges lead to.
Each entry of an edge field is an object that either connects a known document or creates one, with
annotations for the edge. Entries are taken in order; an entry is inserted after the document it leaves
and before the checks of that document. -/

namespace DocGraph

/-- Where an edge leaves: a document of a type, through a field. -/
structure EdgeSite where
  var : String
  type : String
  field : FieldDef
deriving Repr

namespace EdgeSite

/-- The id of the document. -/
def source (site : EdgeSite) : Ref := (Ref.doc site.var).id

/-- The type at the other end. -/
def targetType (site : EdgeSite) : String := site.field.type.base

/-- The place as messages name it. -/
def place (site : EdgeSite) : String := s!"{site.type}.{site.field.name}"

end EdgeSite

/-- The annotations of an entry of an edge field. -/
def annotations (item : InputObject) : InputObject :=
  ((item.get? "annotations").bind Input.obj?).getD []

/-- How an entry of an edge field names the document to create. -/
inductive Creation where
  /-- The object under a key is a new document of a type. -/
  | create (key type : String)
  | none
  | several

namespace Model

variable (m : Model)

open Synthesis

/-- Whether an entry holds an object under a key. -/
def holdsObject (item : InputObject) (key : String) : Bool :=
  ((item.get? key).bind Input.obj?).isSome

/-- Which document an entry creates: for an abstract target the key also names the type. A union is
refused where `unions` is false. -/
def creation (site : EdgeSite) (unions : Bool) (item : InputObject) : Except Error Creation := do
  let kind ← m.schema.kindOf site.targetType
  if kind == .union && !unions then throw (.input (.unionUpdate site.type site.field.name))
  if kind == .interface || kind == .union then
    let types ← m.schema.possibleTypes site.targetType
    match types.filter fun t => holdsObject item ("create" ++ t.name) with
    | [] => return .none
    | [t] => return .create ("create" ++ t.name) t.name
    | _ => return .several
  else if holdsObject item "create" then return .create "create" site.targetType
  else return .none

/-- The edge of one entry of an edge field; `create` writes the document under a key. -/
def entryEdge (site : EdgeSite) (unions : Bool) (item : InputObject)
    (create : (key type var : String) → Synthesis Unit) : Synthesis Unit := do
  let edge (target : Ref) (type : String) (checked : Bool) : Synthesis Unit := do
    let _ ← m.insertEdge site.type site.field.name site.source target type (annotations item)
      none none ⟨false, checked⟩
  match item.get? "connect" with
  | some .null => fail "Value to connect is not defined"
  | some id => edge (← resolveId id) site.targetType true
  | none =>
    match ← Synthesis.ofExcept (m.creation site unions item) with
    | .none => fail ("No create field defined for " ++ site.place)
    | .several => fail ("Multiple create fields defined for " ++ site.place)
    | .create key type =>
      let var ← freshVar
      create key type var
      edge (Ref.doc var).id type false

/-- Inserts a document of a type, then its edges, and checks it. -/
def insertDocument (type : String) (data : InputObject) (exports : Option Selection)
    (var? : Option String) (edges : String → TypeDef → Synthesis Unit) : Synthesis String := do
  ensureOpen
  let t ← Synthesis.ofExcept (m.objectType type)
  comment s!"create {type}"
  let imported ← imports data
  let fields ← Synthesis.ofExcept (m.storedFields t (literals data))
  let doc ← freshParam (m.created type fields)
  let var ← varOr var?
  lockWrite type
  push (.insert var type doc imported none)
  edges var t
  exportSelection var exports
  m.checkKey var type
  m.deferChecks type (Ref.doc var).id none
  return var

/-- Drops the edges of a field that leave the document `id`. -/
def dropEdges (type : String) (f : FieldDef) (id : Ref) : Synthesis Unit := do
  let collection := edgeCollection type f.name
  lockWrite collection
  comment s!"drop edges from {collection}"
  push (.removeEdges collection id .outbound)

mutual

/-- The edges of all edge fields of an input object. With `replacing`, the id of the document, the
edges there are dropped first and unions are refused. -/
def objectEdges (var : String) (t : TypeDef) (replacing : Option Ref) :
    List (String × Input) → Synthesis Unit
  | [] => return
  | (name, value) :: rest => do
    match m.edgeField? t name value with
    | none => pure ()
    | some f =>
      match replacing with
      | none => pure ()
      | some id => dropEdges t.name f id
      fieldEdges ⟨var, t.name, f⟩ replacing.isNone value
    objectEdges var t replacing rest

/-- The edges of one edge field. -/
def fieldEdges (site : EdgeSite) (unions : Bool) : Input → Synthesis Unit
  | .list items => listEdges site unions items
  | .obj item => m.entryEdge site unions item fun key type var => createAt key type var item
  | .null => return
  | _ => throw (.input (.edgeNotObject site.type site.field.name))

/-- The edges of the entries of a list. -/
def listEdges (site : EdgeSite) (unions : Bool) : List Input → Synthesis Unit
  | [] => return
  | .obj item :: rest => do
    m.entryEdge site unions item fun key type var => createAt key type var item
    listEdges site unions rest
  | .null :: rest => listEdges site unions rest
  | _ :: _ => throw (.input (.edgeNotObject site.type site.field.name))

/-- Creates the document under a key of an entry. -/
def createAt (key type var : String) : List (String × Input) → Synthesis Unit
  | [] => return
  | (name, .obj data) :: rest => do
    if name == key then
      let _ ← m.insertDocument type data none (some var) fun var t => objectEdges var t none data
    else createAt key type var rest
  | _ :: rest => createAt key type var rest

end

/-- Creates a document with its edges and the documents they create. -/
def create (type : String) (data : InputObject) (exports : Option Selection)
    (var? : Option String) : Synthesis String :=
  m.insertDocument type data exports var? fun var t => m.objectEdges var t none data

end Model

end DocGraph
