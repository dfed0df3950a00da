import DocGraph.Script.Basic

/-! # Values of references

While a script runs, a reference means a parameter, a variable, or a field of one. A missing parameter
or field is null, but a variable must have been set, and null has no fields. -/

namespace DocGraph

/-- Whether a value counts as true. -/
def Json.isTrue : Json → Bool
  | .null => false
  | .bool b => b
  | .num n => n.isNonzero
  | .str s => !s.isEmpty
  | .arr _ => true
  | .obj _ => true

mutual

/-- A value as it appears inside a thrown message. -/
def Json.inMessage : Json → String
  | .str s => s
  | .obj _ => "[object Object]"
  | .arr vs => ",".intercalate (inMessageItems vs)
  | v => v.text

def Json.inMessageItems : List Json → List String
  | [] => []
  | v :: rest => v.inMessage :: inMessageItems rest

end

/-- The values that references mean. -/
structure Scope where
  params : Record Json
  vars : Record Json
deriving Repr

/-- The value of a variable that has been set. -/
def Scope.var (s : Scope) (name : String) : Except Error Json :=
  match s.vars.get? name with
  | some v => .ok v
  | none => .error (.transaction (.undefinedVariable name))

/-- The value of a reference. -/
def Ref.value (s : Scope) : Ref → Except Error Json
  | param name => .ok ((s.params.get? name).getD .null)
  | doc name => s.var name
  | exported name => s.var name
  | field base name => do
    match ← base.value s with
    | .obj fields => return (Record.get? fields name).getD .null
    | .null => throw (.transaction (.fieldOfNull name))
    | _ => return .null

/-- The document that a reference means. -/
def Ref.document (s : Scope) (r : Ref) : Except Error Document := do
  match ← r.value s with
  | .obj fields => return fields
  | v => throw (.transaction (.notDocument v))

/-- The text that a reference means, if it means a text. -/
def Ref.text? (s : Scope) (r : Ref) : Except Error (Option String) :=
  (r.value s).map Json.str?

/-- A part of a message with its value filled in. -/
def MessagePart.fill (s : Scope) : MessagePart → Except Error String
  | text t => .ok t
  | value r => (r.value s).map Json.inMessage

/-- The text of a message. -/
def Message.fill (s : Scope) (m : Message) : Except Error String :=
  (m.parts.mapM (MessagePart.fill s)).map String.join

end DocGraph
