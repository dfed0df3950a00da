import DocGraph.Query.Text

/-! # Read queries

Every read has one shape: take the rows of a source, keep those that meet the conditions, page by id,
and give the rows or their number. -/

namespace DocGraph

/-- Which way edges are followed. -/
inductive Direction where
  | outbound
  | inbound
deriving DecidableEq, Repr

/-- What following an edge gives. -/
inductive Yield where
  | vertex
  | edge
deriving DecidableEq, Repr

/-- Where the rows of a query come from. -/
inductive Source where
  /-- All documents of some collections. -/
  | collections (names : List String)
  /-- One step from a document along the edges of some collections. -/
  | traversal (start : String) (direction : Direction) (edges : List String) (yields : Yield)
deriving DecidableEq, Repr

/-- What a query gives. -/
inductive Projection where
  | documents
  | count
deriving DecidableEq, Repr

/-- A read query. With `after`, only rows of a greater id are kept. -/
structure ReadQuery where
  source : Source
  row : String
  conditions : List Condition
  after : Option String
  sortById : Bool
  limit : Option Nat
  projection : Projection
deriving Repr

/-- The name of a row that is a document. -/
def documentRow : String := "x"

/-- The name of a row that is an edge. -/
def edgeRow : String := "e"

def Direction.text : Direction → String
  | outbound => "OUTBOUND"
  | inbound => "INBOUND"

namespace Source

/-- The collections a source reads. -/
def reads : Source → List String
  | collections names => names
  | traversal _ _ edges _ => edges

/-- The text of the loop over the rows of a source. -/
def text (row : String) : Source → StateM Binds String
  | collections [name] => do
    return "FOR " ++ row ++ " IN " ++ (← Binds.collection name)
  | collections names => do
    let places ← names.mapM Binds.collection
    return "FOR " ++ row ++ " IN FLATTEN(FOR i IN [" ++ ", ".intercalate places ++ "] RETURN i)"
  | traversal start direction edges yields => do
    let rows := match yields with
      | .vertex => row
      | .edge => "v, " ++ row
    let first ← Binds.value (.str start)
    let places ← edges.mapM Binds.collection
    return "FOR " ++ rows ++ " IN 1..1 " ++ direction.text ++ " " ++ first ++ " " ++
      ", ".intercalate places

end Source

namespace ReadQuery

/-- All rows of a source. -/
def ofSource (source : Source) (row : String) : ReadQuery :=
  ⟨source, row, [], none, false, none, .documents⟩

/-- The collections a query reads. -/
def collections (q : ReadQuery) : List String :=
  q.source.reads

/-- The clauses of a query in order. -/
def clauses (q : ReadQuery) : StateM Binds String := do
  let source ← q.source.text q.row
  let conditions ← Condition.clause q.conditions
  let after ← match q.after with
    | some id => do pure (" FILTER " ++ q.row ++ "._id > " ++ (← Binds.value (.str id)))
    | none => pure ""
  let sort := if q.sortById then " SORT " ++ q.row ++ "._id" else ""
  let limit ← match q.limit with
    | some n => do pure (" LIMIT " ++ (← Binds.value (.nat n)))
    | none => pure ""
  let result := match q.projection with
    | .documents => " RETURN " ++ q.row
    | .count => " COLLECT WITH COUNT INTO length RETURN length"
  return source ++ conditions ++ after ++ sort ++ limit ++ result

/-- The text of a query. -/
def text (q : ReadQuery) : QueryText :=
  let (query, binds) := q.clauses []
  ⟨query, binds⟩

end ReadQuery

/-! ### Pages and endpoints -/

/-- What a list field is asked for. -/
structure ListArgs where
  filter : Option Json
  first : Option Nat
  after : Option String
deriving Repr

/-- Asks for everything. -/
def ListArgs.all : ListArgs := ⟨none, none, none⟩

/-- One page of a list, with what is needed to count the rest. -/
structure Page where
  content : List Document
  conditions : List Condition
  collections : List String
deriving Repr

namespace Page

/-- Counts all rows that meet the conditions of the page. -/
def totalQuery (p : Page) : ReadQuery :=
  { ReadQuery.ofSource (.collections p.collections) documentRow with
    conditions := p.conditions
    projection := .count }

/-- Counts such rows after the last one of the page. -/
def restQuery (p : Page) : ReadQuery :=
  { p.totalQuery with after := p.content.getLast?.bind fun d => d.text? Field.id }

end Page

/-- The documents at the other end of a field: a list, or at most one. -/
inductive Endpoint where
  | one (document : Option Document)
  | many (documents : List Document)
deriving Repr

/-- The rows of a traversal in the shape of the field. -/
def Endpoint.ofRows (rows : List Document) (isList : Bool) : Endpoint :=
  if isList then .many rows else .one rows.head?

end DocGraph
