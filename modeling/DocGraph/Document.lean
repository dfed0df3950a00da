import DocGraph.Error

/-! # Documents and their ids

The reserved fields of a stored document, and document ids of the form `collection/key`. The first
slash divides them, so the key may hold further ones. -/

namespace DocGraph

namespace Field

/-! ### Reserved fields -/

def id : String := "_id"
def key : String := "_key"
def source : String := "_from"
def target : String := "_to"
def created : String := "_creationDate"
def updated : String := "_lastUpdateDate"
def typeName : String := "__typename"

end Field

/-- The parts of a text before and after its first slash. -/
def splitSlash : List Char → Option (List Char × List Char)
  | [] => none
  | c :: rest =>
    if c = '/' then some ([], rest) else (splitSlash rest).map fun (a, b) => (c :: a, b)

/-- The id of a document. -/
structure DocumentId where
  text : String
deriving DecidableEq, Repr

namespace DocumentId

/-- The id of a key in a collection. -/
def ofKey (collection key : String) : DocumentId :=
  ⟨collection ++ "/" ++ key⟩

/-- Reads an id: a slash with something on either side. -/
def parse (text : String) : Except Error DocumentId :=
  match splitSlash text.toList with
  | some (_ :: _, _ :: _) => .ok ⟨text⟩
  | _ => .error (.input (.notDocumentId text))

/-- What stands before the first slash. -/
def collection (d : DocumentId) : String :=
  match splitSlash d.text.toList with
  | some (a, _) => String.ofList a
  | none => d.text

/-- What stands after the first slash. -/
def key (d : DocumentId) : String :=
  match splitSlash d.text.toList with
  | some (_, b) => String.ofList b
  | none => ""

end DocumentId

namespace Document

/-- The text in a field. -/
def text? (d : Document) (field : String) : Option String :=
  (d.get? field).bind Json.str?

/-- The value of a field, null when it is absent. -/
def read (d : Document) (field : String) : Json :=
  (d.get? field).getD .null

/-- The value of the id field. -/
def id (d : Document) : Json :=
  read d Field.id

end Document

end DocGraph
