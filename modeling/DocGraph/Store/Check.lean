import DocGraph.Json.Order
import DocGraph.Schema.Graph
import DocGraph.Store.Basic
import DocGraph.Store.Scope

/-! # What a check finds

A check looks at the store as it stands and says whether something is wrong. A check of a source or an
id that is no text finds nothing, except that such an id is missing. -/

namespace DocGraph

namespace Store

/-- Targets of edges that exist, with the edge that leads there. -/
def targets (s : Store) (edges : List Document) : List (Document × String) :=
  edges.filterMap fun e =>
    match e.text? Field.target with
    | some id => if (s.document? id).isSome then some (e, id) else none
    | none => none

/-- Whether an edge other than `e` ends at an id. -/
def hasOtherInbound (s : Store) (inbound : List String) (e : Document) (id : String) :
    Except Error Bool :=
  (s.edgesAt inbound Field.target id).map fun es => es.any fun o => !o.id.same e.id

/-- Whether no edge ends at an id. -/
def lacksInbound (s : Store) (inbound : List String) (id : String) : Except Error Bool :=
  (s.edgesAt inbound Field.target id).map List.isEmpty

/-- Whether a document has an id at which no edge ends. -/
def isOrphan (s : Store) (inbound : List String) (d : Document) : Except Error Bool :=
  match d.text? Field.id with
  | some id => s.lacksInbound inbound id
  | none => .ok false

end Store

/-- Whether two documents are different and agree on some fields. -/
def Document.rivals (fields : List String) (a b : Document) : Bool :=
  !a.id.alike b.id && fields.all fun f => (a.read f).alike (b.read f)

/-- Whether a check finds something wrong. -/
def Check.violated (store : Store) (scope : Scope) : Check → Except Error Bool
  | missing id collections => do
    match ← id.text? scope with
    | none => return true
    | some id =>
      let found ← collections.mapM fun c => (store.collection c).map fun c => c.hasId id
      return !found.contains true
  | edgeExists source collection => do
    match ← source.text? scope with
    | none => return false
    | some s => return !(← store.edgesAt [collection] Field.source s).isEmpty
  | duplicateKey candidate collection fields => do
    let d ← candidate.document scope
    let c ← store.collection collection
    return c.rows.any fun e => Document.rivals fields e d
  | selfLoop source collection => do
    match ← source.text? scope with
    | none => return false
    | some s =>
      let edges ← store.edgesAt [collection] Field.source s
      return edges.any fun e => e.text? Field.target == some s
  | duplicateTarget source collection => do
    match ← source.text? scope with
    | none => return false
    | some s =>
      let edges ← store.edgesAt [collection] Field.source s
      return !decide ((store.targets edges).map Prod.snd).Nodup
  | sharedTarget source outbound inbound => do
    match ← source.text? scope with
    | none => return false
    | some s =>
      let edges ← store.edgesAt outbound Field.source s
      let shared ← keepM (fun e => store.hasOtherInbound inbound e.1 e.2) (store.targets edges)
      return !shared.isEmpty
  | orphanTarget targets inbound => do
    let orphans ← targets.mapM fun c => do
      let c ← store.collection c
      keepM (store.isOrphan inbound) c.rows
    return !orphans.flatten.isEmpty
  | missingInbound id collection inbound => do
    match ← id.text? scope with
    | none => return false
    | some id =>
      let c ← store.collection collection
      if c.hasId id then store.lacksInbound inbound id else return false

end DocGraph
