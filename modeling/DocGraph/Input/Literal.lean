import DocGraph.Error

/-! # Literal input

Input without variables is a JSON value. `Input.literal` gives it, or names the first variable that
stands in its way. -/

namespace DocGraph.Input

mutual

/-- The JSON value of an input that holds no variable. -/
def literal : Input → Except Error Json
  | null => .ok .null
  | bool b => .ok (.bool b)
  | num n => .ok (.num n)
  | str s => .ok (.str s)
  | list vs => (literalItems vs).map .arr
  | obj fields => (literalFields fields).map .obj
  | var name => .error (.input (.variableAsLiteral name))

def literalItems : List Input → Except Error (List Json)
  | [] => .ok []
  | v :: rest => do
    let v ← literal v
    let rest ← literalItems rest
    return v :: rest

def literalFields : List (String × Input) → Except Error (List (String × Json))
  | [] => .ok []
  | (name, v) :: rest => do
    let v ← literal v
    let rest ← literalFields rest
    return (name, v) :: rest

end

/-- An input object given as plain JSON, in which nothing is a variable. -/
def objectOfJson (v : Json) : Except Error InputObject :=
  match ofJson v with
  | obj fields => .ok fields
  | other => .error (.input (.notObject other))

end DocGraph.Input
