import DocGraph.Mutation.Constraint
import DocGraph.Mutation.Export

/-! # Statements of edges

An edge is inserted between two ids after its ends are checked, and the directives of its source are
checked at the end of the request. An update takes no end of an edge from a literal. -/

namespace DocGraph

/-- Which ends of a new edge are checked for existence. -/
structure EndChecks where
  source : Bool
  target : Bool
deriving DecidableEq, Repr

namespace Model

variable (m : Model)

open Synthesis

/-- The given variable name, or a new one. -/
def varOr : Option String → Synthesis String
  | some name => return name
  | none => freshVar

/-- Asserts that an id is a document of a type, unless this request has done so. -/
def assertExists (id : Ref) (type label : String) : Synthesis Unit := do
  if ← needsCheck id type then
    let collections ← Synthesis.ofExcept (m.schema.possibleCollections type)
    collections.forM lockRead
    comment label
    push (.assert (.missing id collections)
      ⟨[.text "Object '", .value id, .text s!"' does not exist as instance of {type}"]⟩)

/-- Asserts that the ends of a new edge exist and that a single-valued field has no edge yet. -/
def checkEdge (sourceType field : String) (source target : Ref) (targetType : String)
    (ends : EndChecks) : Synthesis Unit := do
  if m.settings.skipEdgeValidation then return
  if ends.source then m.assertExists source sourceType "source exists?"
  if ends.target then m.assertExists target targetType "target exists?"
  let f ← Synthesis.ofExcept (m.schema.fieldDef sourceType field)
  if !f.type.isList then
    let collection := edgeCollection sourceType field
    lockRead collection
    push (.assert (.edgeExists source collection)
      ⟨[.text s!"Edge already exists for {field} from '", .value source, .text "'"]⟩)

/-- Inserts an edge of a field between two ids. -/
def insertEdge (sourceType field : String) (source target : Ref) (targetType : String)
    (annotations : InputObject) (exports : Option Selection) (var? : Option String)
    (ends : EndChecks) : Synthesis String := do
  let collection := edgeCollection sourceType field
  lockWrite collection
  comment s!"createEdge {collection}"
  let imported ← imports annotations
  let var ← varOr var?
  let fields ← Synthesis.ofExcept (Input.literalFields (literals annotations))
  let doc ← freshParam (m.created ("_" ++ collection) fields)
  m.checkEdge sourceType field source target targetType ends
  push (.insert var collection doc imported (some (source, target)))
  exportSelection var exports
  m.deferChecks sourceType source none
  return var

/-- Creates an edge between two documents. -/
def createEdge (type field : String) (source target : Input) (annotations : InputObject)
    (exports : Option Selection) (var? : Option String) : Synthesis String := do
  ensureOpen
  let f ← Synthesis.ofExcept (m.schema.fieldDef type field)
  let source ← resolveId source
  let target ← resolveId target
  m.insertEdge type field source target f.type.base annotations exports var? ⟨true, true⟩

/-- Merges fields into an edge; ends among the literals are left out. -/
def updateEdge (type field : String) (id : Input) (data : InputObject)
    (exports : Option Selection) (var? : Option String) : Synthesis String := do
  ensureOpen
  let collection := edgeCollection type field
  let var ← varOr var?
  lockWrite collection
  comment s!"update edge {collection}"
  let imported ← imports data
  let fields ← Synthesis.ofExcept (Input.literalFields (literals data))
  let kept := (Record.swapErase fields Field.source).swapErase Field.target
  let doc ← freshParam (.obj (kept.insert Field.updated (.int m.now)))
  let id ← resolveId id
  push (.update var collection id doc imported)
  exportSelection var exports
  return var

/-- Removes an edge; if it was there, the directives of its source are checked. -/
def deleteEdge (type field : String) (id : Input) (var? : Option String) : Synthesis String := do
  ensureOpen
  let collection := edgeCollection type field
  comment s!"delete edge {collection}"
  let id ← resolveId id
  let var ← varOr var?
  lockWrite collection
  push (.remove var collection id)
  m.deferChecks type (.field (.doc var) Field.source) (some (.doc var))
  return var

end Model

end DocGraph
