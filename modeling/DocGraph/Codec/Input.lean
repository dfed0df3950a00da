import DocGraph.Codec.Basic
import DocGraph.Input.Basic
import DocGraph.Selection

/-! # Input and selections in JSON

In JSON, an object whose only field is `$var`, with a text, stands for the variable of that name. -/

namespace DocGraph

namespace Input

mutual

def toJson : Input → Json
  | null => .null
  | bool b => .bool b
  | num n => .num n
  | str s => .str s
  | list vs => .arr (itemsToJson vs)
  | obj fields => .obj (fieldsToJson fields)
  | var name => .obj [("$var", .str name)]

def itemsToJson : List Input → List Json
  | [] => []
  | v :: rest => v.toJson :: itemsToJson rest

def fieldsToJson : List (String × Input) → List (String × Json)
  | [] => []
  | (name, v) :: rest => (name, v.toJson) :: fieldsToJson rest

end

mutual

/-- Input with variables. -/
def withVars : Json → Input
  | .null => null
  | .bool b => bool b
  | .num n => num n
  | .str s => str s
  | .arr vs => list (itemsWithVars vs)
  | .obj [("$var", .str name)] => var name
  | .obj fields => obj (fieldsWithVars fields)

def itemsWithVars : List Json → List Input
  | [] => []
  | v :: rest => withVars v :: itemsWithVars rest

def fieldsWithVars : List (String × Json) → List (String × Input)
  | [] => []
  | (name, v) :: rest => (name, withVars v) :: fieldsWithVars rest

end

end Input

/-! ### Selections -/

namespace SelectionItem

mutual

/-- An item is a fragment if it has the field `on`, and a field otherwise. -/
def ofJson? : Json → Option SelectionItem
  | .obj fields => do
    let given : GivenFields := ⟨fields, false⟩
    let items ← itemsOf fields
    match Record.get? fields "on" with
    | some condition => return .fragment (← Decoder.nullable .text condition) items
    | none => return .field (← given.required "name" .text) (← given.nullable "export" .text) items
  | _ => none

/-- The items in the field `items`. -/
def itemsOf : List (String × Json) → Option (List SelectionItem)
  | [] => some []
  | ("items", .arr vs) :: _ => listOfJson? vs
  | _ :: rest => itemsOf rest

def listOfJson? : List Json → Option (List SelectionItem)
  | [] => some []
  | v :: rest => do
    let item ← ofJson? v
    let items ← listOfJson? rest
    return item :: items

end

end SelectionItem

end DocGraph
