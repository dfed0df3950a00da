import DocGraph.Number.Basic
import DocGraph.Record
import DocGraph.Text.Quoted

/-! # JSON values

Documents, parameters and results are JSON values whose objects are records. `Json.text` is the
compact text of a value. -/

namespace DocGraph

/-- A JSON value; the fields of an object keep their order. -/
inductive Json where
  | null
  | bool (b : Bool)
  | num (n : Number)
  | str (s : String)
  | arr (items : List Json)
  | obj (fields : List (String × Json))
deriving Repr

namespace Json

instance : Inhabited Json := ⟨null⟩

/-- A whole number. -/
def int (n : Int) : Json := num (.int n)

/-- A natural number. -/
def nat (n : Nat) : Json := num (.int n)

/-- A list of texts. -/
def strs (names : List String) : Json := arr (names.map str)

/-- Text, or null. -/
def ofText? : Option String → Json
  | some s => str s
  | none => null

def isNull : Json → Bool
  | null => true
  | _ => false

def str? : Json → Option String
  | str s => some s
  | _ => none

def obj? : Json → Option (Record Json)
  | obj fields => some fields
  | _ => none

def nat? : Json → Option Nat
  | num n => n.toNat?
  | _ => none

/-! ### Text -/

mutual

/-- The compact text of a value. -/
def text : Json → String
  | null => "null"
  | bool true => "true"
  | bool false => "false"
  | num n => n.text
  | str s => Text.quoted s
  | arr items => "[" ++ ",".intercalate (itemTexts items) ++ "]"
  | obj fields => "\x7b" ++ ",".intercalate (fieldTexts fields) ++ "\x7d"

/-- The texts of the items of an array. -/
def itemTexts : List Json → List String
  | [] => []
  | v :: rest => text v :: itemTexts rest

/-- The texts of the fields of an object. -/
def fieldTexts : List (String × Json) → List String
  | [] => []
  | (name, v) :: rest => (Text.quoted name ++ ":" ++ text v) :: fieldTexts rest

end

end Json

/-- A stored document: the fields of an object. -/
abbrev Document := Record Json

end DocGraph
