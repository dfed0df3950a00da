import DocGraph.Json.Basic

/-! # Reading values from JSON

A *decoder* reads a value from JSON or refuses it. A record of fixed fields is an object, or an array of
its fields in order. A choice without content is its name, and one with content is an object of one
field. -/

namespace DocGraph

/-- Reads a value from JSON. -/
abbrev Decoder (α : Type) := Json → Option α

namespace Decoder

variable {α β : Type}

def any : Decoder Json := some

def text : Decoder String := Json.str?

def flag : Decoder Bool
  | .bool b => some b
  | _ => none

/-- A whole number that is not negative. -/
def size : Decoder Nat := Json.nat?

def document : Decoder Document := Json.obj?

def list (d : Decoder α) : Decoder (List α)
  | .arr vs => vs.mapM d
  | _ => none

def pair (a : Decoder α) (b : Decoder β) : Decoder (α × β)
  | .arr [v, w] => do return (← a v, ← b w)
  | _ => none

/-- Null, or a value. -/
def nullable (d : Decoder α) : Decoder (Option α)
  | .null => some none
  | v => (d v).map some

/-- The name of a choice without content. -/
def choice : Decoder String
  | .str name => some name
  | .obj [(name, .null)] => some name
  | _ => none

end Decoder

/-- The fields of a record that were given. -/
structure GivenFields where
  entries : Record Json
  /-- Whether the record is an array. -/
  positional : Bool

namespace GivenFields

variable {α : Type}

/-- The fields of a record, whose names in order are known. -/
def ofJson (names : List String) : Decoder GivenFields
  | .obj fields => some ⟨fields, false⟩
  | .arr vs => if vs.length ≤ names.length then some ⟨names.zip vs, true⟩ else none
  | _ => none

/-- The fields of an object. -/
def ofObject : Decoder GivenFields
  | .obj fields => some ⟨fields, false⟩
  | _ => none

/-- A field that must be given. -/
def required (f : GivenFields) (name : String) (d : Decoder α) : Option α :=
  (f.entries.get? name).bind d

/-- A field that may be null; an object may leave it out. -/
def nullable (f : GivenFields) (name : String) (d : Decoder α) : Option (Option α) :=
  match f.entries.get? name with
  | some v => d.nullable v
  | none => if f.positional then none else some none

/-- A field with a value for when it is left out. -/
def defaulted (f : GivenFields) (name : String) (d : Decoder α) (otherwise : α) : Option α :=
  match f.entries.get? name with
  | some v => d v
  | none => some otherwise

end GivenFields

end DocGraph
