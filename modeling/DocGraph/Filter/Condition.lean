import DocGraph.Document
import DocGraph.Filter.Like
import DocGraph.Json.Order

/-! # Conditions

A condition on the fields of a document. A field that is absent reads as null. A pattern also matches
numbers and truth values by their text. An empty alternative holds, as an empty conjunction does. -/

namespace DocGraph

/-- How a field compares with a value. -/
inductive Comparison where
  | eq
  | ne
  | gt
  | ge
  | lt
  | le
deriving DecidableEq, Repr

namespace Comparison

/-- The sign of a comparison in query text. -/
def sign : Comparison → String
  | eq => "=="
  | ne => "!="
  | gt => ">"
  | ge => ">="
  | lt => "<"
  | le => "<="

/-- Whether a comparison holds of two values in a given order. -/
def accepts : Comparison → Ordering → Bool
  | eq, o => o == .eq
  | ne, o => o != .eq
  | gt, o => o == .gt
  | ge, o => o != .lt
  | lt, o => o == .lt
  | le, o => o != .gt

end Comparison

/-- A field of the row of a query. -/
structure FieldRef where
  row : String
  field : String
deriving DecidableEq, Repr

/-- A condition on a document. -/
inductive Condition where
  | compare (target : FieldRef) (comparison : Comparison) (value : Json)
  | among (target : FieldRef) (values : List Json) (negated : Bool)
  | like (target : FieldRef) (pattern : String) (ignoreCase negated : Bool)
  | all (parts : List Condition)
  | any (parts : List Condition)
  | notAll (parts : List Condition)
deriving Repr

/-- Whether a value matches a pattern by its text. -/
def Json.isLike (v : Json) (pattern : String) (ignoreCase : Bool) : Bool :=
  match v with
  | .str s => Like.test s pattern ignoreCase
  | .num n => Like.test n.text pattern ignoreCase
  | .bool true => Like.test "true" pattern ignoreCase
  | .bool false => Like.test "false" pattern ignoreCase
  | _ => false

namespace Condition

mutual

/-- Whether a condition holds of a document. -/
def holds (doc : Document) : Condition → Bool
  | compare target comparison value => comparison.accepts ((doc.read target.field).order value)
  | among target values negated => values.any (doc.read target.field).alike != negated
  | like target pattern ignoreCase negated =>
    (doc.read target.field).isLike pattern ignoreCase != negated
  | all parts => allHold doc parts
  | any parts => parts.isEmpty || anyHolds doc parts
  | notAll parts => !allHold doc parts

/-- Whether all conditions of a list hold. -/
def allHold (doc : Document) : List Condition → Bool
  | [] => true
  | c :: rest => holds doc c && allHold doc rest

/-- Whether some condition of a list holds. -/
def anyHolds (doc : Document) : List Condition → Bool
  | [] => false
  | c :: rest => holds doc c || anyHolds doc rest

end

end Condition

end DocGraph
