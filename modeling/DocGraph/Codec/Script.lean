import DocGraph.Codec.Basic
import DocGraph.Script.Basic

/-! # Scripts in JSON -/

namespace DocGraph

namespace Ref

def toJson : Ref → Json
  | param name => .obj [("Param", .str name)]
  | doc name => .obj [("Doc", .str name)]
  | exported name => .obj [("Exported", .str name)]
  | field base name => .obj [("Field", .arr [base.toJson, .str name])]

def ofJson? : Json → Option Ref
  | .obj [("Param", .str name)] => some (param name)
  | .obj [("Doc", .str name)] => some (doc name)
  | .obj [("Exported", .str name)] => some (exported name)
  | .obj [("Field", .arr [v, .str name])] => (ofJson? v).map fun base => field base name
  | _ => none

/-- Fields with the references they are imported from. -/
def importsToJson (imports : List (String × Ref)) : Json :=
  .arr (imports.map fun e => .arr [.str e.1, e.2.toJson])

def importsOfJson? : Decoder (List (String × Ref)) :=
  .list (.pair .text ofJson?)

end Ref

/-! ### Messages -/

def MessagePart.toJson : MessagePart → Json
  | text s => .obj [("Text", .str s)]
  | value r => .obj [("Value", r.toJson)]

def MessagePart.ofJson? : Decoder MessagePart
  | .obj [("Text", .str s)] => some (text s)
  | .obj [("Value", v)] => (Ref.ofJson? v).map value
  | _ => none

def Message.toJson (m : Message) : Json :=
  .obj [("parts", .arr (m.parts.map MessagePart.toJson))]

def Message.ofJson? : Decoder Message := fun v => do
  let f ← GivenFields.ofJson ["parts"] v
  return ⟨← f.required "parts" (.list MessagePart.ofJson?)⟩

/-! ### Checks -/

namespace Check

def toJson : Check → Json
  | missing id collections =>
    .obj [("Missing", .obj [("id", id.toJson), ("collections", .strs collections)])]
  | edgeExists source collection =>
    .obj [("EdgeExists", .obj [("source", source.toJson), ("collection", .str collection)])]
  | duplicateKey candidate collection fields =>
    .obj [("DuplicateKey", .obj [("candidate", candidate.toJson), ("collection", .str collection),
      ("fields", .strs fields)])]
  | selfLoop source collection =>
    .obj [("SelfLoop", .obj [("source", source.toJson), ("collection", .str collection)])]
  | duplicateTarget source collection =>
    .obj [("DuplicateTarget", .obj [("source", source.toJson), ("collection", .str collection)])]
  | sharedTarget source outbound inbound =>
    .obj [("SharedTarget", .obj [("source", source.toJson), ("outbound", .strs outbound),
      ("inbound", .strs inbound)])]
  | orphanTarget targets inbound =>
    .obj [("OrphanTarget", .obj [("targets", .strs targets), ("inbound", .strs inbound)])]
  | missingInbound id collection inbound =>
    .obj [("MissingInbound", .obj [("id", id.toJson), ("collection", .str collection),
      ("inbound", .strs inbound)])]

def ofJson? : Decoder Check
  | .obj [(name, v)] => do
    let f ← GivenFields.ofObject v
    let ref (key : String) : Option Ref := f.required key Ref.ofJson?
    let text (key : String) : Option String := f.required key .text
    let texts (key : String) : Option (List String) := f.required key (.list .text)
    match name with
    | "Missing" => return .missing (← ref "id") (← texts "collections")
    | "EdgeExists" => return .edgeExists (← ref "source") (← text "collection")
    | "DuplicateKey" =>
      return .duplicateKey (← ref "candidate") (← text "collection") (← texts "fields")
    | "SelfLoop" => return .selfLoop (← ref "source") (← text "collection")
    | "DuplicateTarget" => return .duplicateTarget (← ref "source") (← text "collection")
    | "SharedTarget" =>
      return .sharedTarget (← ref "source") (← texts "outbound") (← texts "inbound")
    | "OrphanTarget" => return .orphanTarget (← texts "targets") (← texts "inbound")
    | "MissingInbound" =>
      return .missingInbound (← ref "id") (← text "collection") (← texts "inbound")
    | _ => none
  | _ => none

end Check

/-! ### Statements -/

namespace EdgeMatch

def name : EdgeMatch → String
  | outbound => "Outbound"
  | any => "Any"

def ofJson? : Decoder EdgeMatch := fun v =>
  match Decoder.choice v with
  | some "Outbound" => some outbound
  | some "Any" => some any
  | _ => none

end EdgeMatch

namespace Statement

mutual

def toJson : Statement → Json
  | comment text => .obj [("Comment", .str text)]
  | insert var collection doc imports endpoints =>
    .obj [("Insert", .obj [("var", .str var), ("collection", .str collection),
      ("doc", doc.toJson), ("imports", Ref.importsToJson imports),
      ("endpoints", match endpoints with
        | some (source, target) => .arr [source.toJson, target.toJson]
        | none => .null)])]
  | update var collection id doc imports =>
    .obj [("Update", .obj [("var", .str var), ("collection", .str collection), ("id", id.toJson),
      ("doc", doc.toJson), ("imports", Ref.importsToJson imports)])]
  | remove var collection id =>
    .obj [("Remove", .obj [("var", .str var), ("collection", .str collection),
      ("id", id.toJson)])]
  | removeEdges collection endpoint which =>
    .obj [("RemoveEdges", .obj [("collection", .str collection), ("endpoint", endpoint.toJson),
      ("matching", .str which.name)])]
  | bind name value => .obj [("Bind", .obj [("name", .str name), ("value", value.toJson)])]
  | setResult responseName value =>
    .obj [("SetResult", .obj [("alias", .str responseName), ("value", value.toJson)])]
  | guarded condition body =>
    .obj [("Guard", .obj [("condition", condition.toJson), ("body", .arr (listToJson body))])]
  | assert check message =>
    .obj [("Assert", .obj [("check", check.toJson), ("message", message.toJson)])]
  | fail message => .obj [("Throw", .obj [("message", message.toJson)])]

def listToJson : List Statement → List Json
  | [] => []
  | s :: rest => s.toJson :: listToJson rest

end

/-- A statement that holds no statements. -/
def simpleOfJson? (name : String) (f : GivenFields) : Option Statement :=
  let ref (key : String) : Option Ref := f.required key Ref.ofJson?
  let text (key : String) : Option String := f.required key .text
  let imports : Option (List (String × Ref)) := f.required "imports" Ref.importsOfJson?
  match name with
  | "Insert" => do
    let endpoints ← f.nullable "endpoints" (.pair Ref.ofJson? Ref.ofJson?)
    return .insert (← text "var") (← text "collection") (← ref "doc") (← imports) endpoints
  | "Update" => do
    return .update (← text "var") (← text "collection") (← ref "id") (← ref "doc") (← imports)
  | "Remove" => do
    return .remove (← text "var") (← text "collection") (← ref "id")
  | "RemoveEdges" => do
    let which ← f.required "matching" EdgeMatch.ofJson?
    return .removeEdges (← text "collection") (← ref "endpoint") which
  | "Bind" => do return .bind (← text "name") (← ref "value")
  | "SetResult" => do return .setResult (← text "alias") (← ref "value")
  | "Assert" => do
    return .assert (← f.required "check" Check.ofJson?) (← f.required "message" Message.ofJson?)
  | "Throw" => do return .fail (← f.required "message" Message.ofJson?)
  | _ => none

mutual

def ofJson? : Json → Option Statement
  | .obj [("Comment", .str text)] => some (comment text)
  | .obj [("Guard", .obj fields)] => do
    let condition ← GivenFields.required ⟨fields, false⟩ "condition" Ref.ofJson?
    return guarded condition (← bodyOfJson? fields)
  | .obj [(name, .obj fields)] => simpleOfJson? name ⟨fields, false⟩
  | _ => none

/-- The statements in the field `body`. -/
def bodyOfJson? : List (String × Json) → Option (List Statement)
  | [] => none
  | ("body", .arr vs) :: _ => listOfJson? vs
  | _ :: rest => bodyOfJson? rest

def listOfJson? : List Json → Option (List Statement)
  | [] => some []
  | v :: rest => do
    let s ← ofJson? v
    let ss ← listOfJson? rest
    return s :: ss

end

end Statement

/-! ### Transactions -/

namespace Transaction

def toJson (t : Transaction) : Json :=
  .obj [("write", .strs t.write), ("read", .strs t.read),
    ("statements", .arr (Statement.listToJson t.statements)), ("params", .obj t.params)]

def ofJson? : Decoder Transaction := fun v => do
  let f ← GivenFields.ofJson ["write", "read", "statements", "params"] v
  let write ← f.required "write" (.list .text)
  let read ← f.required "read" (.list .text)
  let statements ← f.required "statements" (.list Statement.ofJson?)
  let params ← f.required "params" .document
  return ⟨NameSet.ofList write, NameSet.ofList read, statements, params⟩

end Transaction

end DocGraph
