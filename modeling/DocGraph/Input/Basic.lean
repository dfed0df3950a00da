import DocGraph.Json.Basic
import DocGraph.Text.Visible

/-! # Mutation input

Input is JSON in which any place may hold a *variable*: the name of a value that an earlier field of
the same request exports. `Input.describe` shows an input value in messages. -/

namespace DocGraph

/-- A value given to a mutation. -/
inductive Input where
  | null
  | bool (b : Bool)
  | num (n : Number)
  | str (s : String)
  | list (items : List Input)
  | obj (fields : List (String × Input))
  | var (name : String)
deriving Repr

/-- The fields of an input object. -/
abbrev InputObject := Record Input

namespace Input

def isNull : Input → Bool
  | null => true
  | _ => false

def str? : Input → Option String
  | str s => some s
  | _ => none

def var? : Input → Option String
  | var name => some name
  | _ => none

def obj? : Input → Option InputObject
  | obj fields => some fields
  | _ => none

/-- The items of a list; any other value counts as a list of one. -/
def items : Input → List Input
  | list vs => vs
  | v => [v]

mutual

/-- A JSON value as input without variables. -/
def ofJson : Json → Input
  | .null => null
  | .bool b => bool b
  | .num n => num n
  | .str s => str s
  | .arr vs => list (ofJsonItems vs)
  | .obj fields => obj (Record.ofList (ofJsonFields fields))

def ofJsonItems : List Json → List Input
  | [] => []
  | v :: rest => ofJson v :: ofJsonItems rest

def ofJsonFields : List (String × Json) → List (String × Input)
  | [] => []
  | (name, v) :: rest => (name, ofJson v) :: ofJsonFields rest

end

mutual

/-- An input value as messages show it. -/
def describe : Input → String
  | null => "Null"
  | bool true => "Bool(true)"
  | bool false => "Bool(false)"
  | num n => "Number(Number(" ++ n.text ++ "))"
  | str s => "String(" ++ Text.shown s ++ ")"
  | list vs => "List([" ++ ", ".intercalate (describeItems vs) ++ "])"
  | obj fields =>
    "Object(InputObject \x7b entries: [" ++ ", ".intercalate (describeFields fields) ++ "] \x7d)"
  | var name => "Variable(" ++ Text.shown name ++ ")"

def describeItems : List Input → List String
  | [] => []
  | v :: rest => describe v :: describeItems rest

def describeFields : List (String × Input) → List String
  | [] => []
  | (name, v) :: rest =>
    ("(" ++ Text.shown name ++ ", " ++ describe v ++ ")") :: describeFields rest

end

end Input

end DocGraph
