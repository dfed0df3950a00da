import DocGraph.Query.Basic
import DocGraph.Store.Basic

/-! # Answers to read queries -/

namespace DocGraph

/-- The field of an edge that holds the end where a traversal starts. -/
def Direction.near : Direction → String
  | outbound => Field.source
  | inbound => Field.target

/-- The field of an edge that holds the end where a traversal leads. -/
def Direction.far : Direction → String
  | outbound => Field.target
  | inbound => Field.source

namespace Store

variable (s : Store)

/-- What following an edge gives; an edge that leads nowhere gives no vertex. -/
def follow (direction : Direction) (e : Document) : Yield → Option Document
  | .edge => some e
  | .vertex => (e.text? direction.far).bind s.document?

/-- The rows of a source. -/
def sourceRows : Source → Except Error (List Document)
  | .collections names => s.rows names
  | .traversal start direction edges yields =>
    (s.edgesAt edges direction.near start).map fun es =>
      es.filterMap fun e => s.follow direction e yields

/-- The rows after an id in the order of values. -/
def rowsAfter (rows : List Document) : Option String → List Document
  | none => rows
  | some id => rows.filter fun d => d.id.order (.str id) == .gt

/-- The rows in order of their ids; equal ones keep their order. -/
def sortedById (rows : List Document) : List Document :=
  rows.mergeSort fun a b => a.id.order b.id != .gt

/-- The first rows up to a limit. -/
def limited (rows : List Document) : Option Nat → List Document
  | none => rows
  | some n => rows.take n

/-- The answer to a query: its rows, or one number. -/
def answer (q : ReadQuery) : Except Error (List Json) := do
  let rows ← s.sourceRows q.source
  let rows := rows.filter fun d => Condition.allHold d q.conditions
  let rows := rowsAfter rows q.after
  let rows := if q.sortById then sortedById rows else rows
  let rows := limited rows q.limit
  match q.projection with
  | .documents => return rows.map .obj
  | .count => return [.nat rows.length]

end Store

end DocGraph
