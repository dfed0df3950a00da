import DocGraph.Codec.Basic
import DocGraph.Query.Basic

/-! # Conditions and queries in JSON -/

namespace DocGraph

/-! ### Conditions -/

namespace Comparison

def name : Comparison → String
  | eq => "Eq"
  | ne => "Neq"
  | gt => "Gt"
  | ge => "Gte"
  | lt => "Lt"
  | le => "Lte"

def ofName? : String → Option Comparison
  | "Eq" => some eq
  | "Neq" => some ne
  | "Gt" => some gt
  | "Gte" => some ge
  | "Lt" => some lt
  | "Lte" => some le
  | _ => none

def ofJson? : Decoder Comparison := fun v => (Decoder.choice v).bind ofName?

end Comparison

namespace FieldRef

def toJson (f : FieldRef) : Json :=
  .obj [("alias", .str f.row), ("field", .str f.field)]

def ofJson? : Decoder FieldRef := fun v => do
  let f ← GivenFields.ofJson ["alias", "field"] v
  return ⟨← f.required "alias" .text, ← f.required "field" .text⟩

end FieldRef

namespace Condition

mutual

def toJson : Condition → Json
  | compare target comparison value =>
    .obj [("Compare", .obj [("target", target.toJson), ("op", .str comparison.name),
      ("value", value)])]
  | among target values negated =>
    .obj [("In", .obj [("target", target.toJson), ("values", .arr values),
      ("negated", .bool negated)])]
  | like target pattern ignoreCase negated =>
    .obj [("Like", .obj [("target", target.toJson), ("pattern", .str pattern),
      ("case_insensitive", .bool ignoreCase), ("negated", .bool negated)])]
  | all parts => .obj [("And", .arr (listToJson parts))]
  | any parts => .obj [("Or", .arr (listToJson parts))]
  | notAll parts => .obj [("Not", .arr (listToJson parts))]

def listToJson : List Condition → List Json
  | [] => []
  | c :: rest => c.toJson :: listToJson rest

end

def compareOfJson? : Decoder Condition := fun v => do
  let f ← GivenFields.ofObject v
  let target ← f.required "target" FieldRef.ofJson?
  let comparison ← f.required "op" Comparison.ofJson?
  let value ← f.required "value" .any
  return .compare target comparison value

def amongOfJson? : Decoder Condition := fun v => do
  let f ← GivenFields.ofObject v
  let target ← f.required "target" FieldRef.ofJson?
  let values ← f.required "values" (.list .any)
  let negated ← f.required "negated" .flag
  return .among target values negated

def likeOfJson? : Decoder Condition := fun v => do
  let f ← GivenFields.ofObject v
  let target ← f.required "target" FieldRef.ofJson?
  let pattern ← f.required "pattern" .text
  let ignoreCase ← f.required "case_insensitive" .flag
  let negated ← f.required "negated" .flag
  return .like target pattern ignoreCase negated

mutual

def ofJson? : Json → Option Condition
  | .obj [("Compare", v)] => compareOfJson? v
  | .obj [("In", v)] => amongOfJson? v
  | .obj [("Like", v)] => likeOfJson? v
  | .obj [("And", .arr vs)] => (listOfJson? vs).map all
  | .obj [("Or", .arr vs)] => (listOfJson? vs).map any
  | .obj [("Not", .arr vs)] => (listOfJson? vs).map notAll
  | _ => none

def listOfJson? : List Json → Option (List Condition)
  | [] => some []
  | v :: rest => do
    let c ← ofJson? v
    let cs ← listOfJson? rest
    return c :: cs

end

end Condition

/-! ### Queries -/

namespace Direction

def name : Direction → String
  | outbound => "Outbound"
  | inbound => "Inbound"

def ofJson? : Decoder Direction := fun v =>
  match Decoder.choice v with
  | some "Outbound" => some outbound
  | some "Inbound" => some inbound
  | _ => none

end Direction

namespace Yield

def name : Yield → String
  | vertex => "Vertex"
  | edge => "Edge"

def ofJson? : Decoder Yield := fun v =>
  match Decoder.choice v with
  | some "Vertex" => some vertex
  | some "Edge" => some edge
  | _ => none

end Yield

namespace Projection

def name : Projection → String
  | documents => "Documents"
  | count => "Count"

def ofJson? : Decoder Projection := fun v =>
  match Decoder.choice v with
  | some "Documents" => some documents
  | some "Count" => some count
  | _ => none

end Projection

namespace Source

def toJson : Source → Json
  | collections names => .obj [("Collections", .strs names)]
  | traversal start direction edges yields =>
    .obj [("Traversal", .obj [("start", .str start), ("direction", .str direction.name),
      ("edges", .strs edges), ("yields", .str yields.name)])]

def traversalOfJson? : Decoder Source := fun v => do
  let f ← GivenFields.ofObject v
  let start ← f.required "start" .text
  let direction ← f.required "direction" Direction.ofJson?
  let edges ← f.required "edges" (.list .text)
  let yields ← f.required "yields" Yield.ofJson?
  return .traversal start direction edges yields

def ofJson? : Decoder Source
  | .obj [("Collections", v)] => (Decoder.list .text v).map collections
  | .obj [("Traversal", v)] => traversalOfJson? v
  | _ => none

end Source

namespace ReadQuery

def toJson (q : ReadQuery) : Json :=
  .obj [("source", q.source.toJson), ("alias", .str q.row),
    ("filters", .arr (Condition.listToJson q.conditions)), ("after", .ofText? q.after),
    ("sort_by_id", .bool q.sortById),
    ("limit", match q.limit with | some n => .nat n | none => .null),
    ("projection", .str q.projection.name)]

def ofJson? : Decoder ReadQuery := fun v => do
  let f ← GivenFields.ofJson
    ["source", "alias", "filters", "after", "sort_by_id", "limit", "projection"] v
  let source ← f.required "source" Source.ofJson?
  let row ← f.required "alias" .text
  let conditions ← f.required "filters" (.list Condition.ofJson?)
  let after ← f.nullable "after" .text
  let sortById ← f.required "sort_by_id" .flag
  let limit ← f.nullable "limit" .size
  let projection ← f.required "projection" Projection.ofJson?
  return ⟨source, row, conditions, after, sortById, limit, projection⟩

end ReadQuery

def QueryText.toJson (q : QueryText) : Json :=
  .obj [("query", .str q.query), ("bindVars", .obj q.binds)]

def ListArgs.ofJson? : Decoder ListArgs := fun v => do
  let f ← GivenFields.ofJson ["filter", "first", "after"] v
  let filter ← f.defaulted "filter" (.nullable .any) none
  let first ← f.defaulted "first" (.nullable .size) none
  let after ← f.defaulted "after" (.nullable .text) none
  return ⟨filter, first, after⟩

def Page.toJson (p : Page) : Json :=
  .obj [("content", .arr (p.content.map .obj))]

def Endpoint.toJson : Endpoint → Json
  | one (some d) => .obj d
  | one none => .null
  | many ds => .arr (ds.map .obj)

end DocGraph
