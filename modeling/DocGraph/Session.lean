import DocGraph.Engine
import DocGraph.Query.Build
import DocGraph.Request

/-! # Sessions

A session holds an engine, the requests made so far, and the fields that wait for their results, each in
a *slot*. Requests are named, and naming a new one the same way drops the old one: fields that still wait
on it then learn so, unless its transaction is being held back by the engine. `Session.run` makes a
request without a name and drops it at its end; the slots are those of the whole session. -/

namespace DocGraph

/-- A root field that waits for the outcome of its request. -/
structure WaitingField where
  request : Nat
  responseName : String
deriving DecidableEq, Repr

/-- A transaction held back by the engine, with the field that submitted it. -/
structure HeldTransaction where
  field : WaitingField
  slot : String
  transaction : Transaction
deriving Repr

/-- A mutation with the selection it is under and the slot that its field waits in. -/
structure Operation where
  isRoot : Bool
  selection : Selection
  mutation : Mutation
  slot : String
deriving Repr

/-- What a mutation is answered with. -/
inductive Reply where
  /-- The result can be asked for under a response name. -/
  | field (responseName : String)
  | nothing
  /-- The engine holds the transaction back, with so many in all. -/
  | held (count : Nat)
  | refused (e : Error)
deriving Repr

/-- What a waiting field is answered with. -/
inductive FieldAnswer where
  | waiting
  | done (result : Except Error Json)
deriving Repr

/-- The state of a session. -/
structure Session where
  model : Model
  engine : Engine
  requests : List Request
  /-- The number of the request under each name. -/
  named : Record Nat
  /-- The number of the request without a name that is being run. -/
  running : Option Nat
  /-- The fields that wait, by slot. -/
  slots : Record WaitingField
  held : List HeldTransaction
deriving Repr

/-- A step of a session that may fail. -/
abbrev SessionStep (α : Type) := ExceptT Error (StateM Session) α

namespace Session

/-! ### Opening -/

/-- Adds the collections that the schema needs. -/
def setup (s : Session) : Except Error Session := do
  let db ← s.engine.database.setup s.model.schema s.model.settings.drop
  return { s with engine := { s.engine with database := db } }

/-- A session that has not set up its database. -/
def empty (m : Model) (kind : EngineKind) : Session where
  model := m
  engine := Engine.empty kind
  requests := []
  named := []
  running := none
  slots := []
  held := []

/-- Opens a session; a plain engine is set up at once. -/
def start (m : Model) (kind : EngineKind) : Except Error Session :=
  match kind with
  | .plain => (empty m kind).setup
  | .recording => .ok (empty m kind)

/-! ### Requests -/

/-- Opens a request. -/
def openRequest (s : Session) (responseNames : List String) : Request × Session :=
  let r := Request.start (s.requests.length + 1) s.model.settings.rememberExisting responseNames
  (r, { s with requests := s.requests ++ [r] })

/-- The request of a number. -/
def request? (s : Session) (number : Nat) : Option Request :=
  s.requests.find? fun r => r.number == number

/-- Puts a request back. -/
def putRequest (s : Session) (r : Request) : Session :=
  { s with requests := s.requests.map fun o => if o.number == r.number then r else o }

/-- Opens a request under a name. -/
def nameRequest (s : Session) (name : String) (responseNames : List String) :
    Request × Session :=
  let (r, s) := s.openRequest responseNames
  (r, { s with named := s.named.insert name r.number })

/-- The request under a name. -/
def namedRequest? (s : Session) (name : String) : Option Request :=
  (s.named.get? name).bind s.request?

/-- Drops the request under a name; says whether there was one. -/
def dropRequest (s : Session) (name : String) : Bool × Session :=
  (s.named.contains name, { s with named := s.named.erase name })

/-- Whether a request can still reach an outcome. -/
def isAlive (s : Session) (number : Nat) : Bool :=
  s.running == some number || s.named.any (fun e => e.2 == number) ||
    s.held.any (fun h => h.field.request == number)

/-! ### Mutations -/

/-- Runs a transaction and gives its request the outcome. -/
def complete (s : Session) (number : Nat) (t : Transaction) : Session :=
  let (outcome, engine) := s.engine.execute t
  let s := { s with engine := engine }
  match s.request? number with
  | some r => s.putRequest (r.finish outcome)
  | none => s

/-- Lets a field wait in a slot, in place of what waits there. -/
def fillSlot (s : Session) (slot : String) (f : WaitingField) : Session :=
  { s with slots := s.slots.insert slot f }

/-- Hands a transaction to the engine. If it runs it, the field waits in its slot; if the engine holds
it back, the field waits there once it is released. -/
def submit (s : Session) (f : WaitingField) (slot : String) (t : Transaction) : Reply × Session :=
  let s := { s with engine := s.engine.note t }
  if s.engine.holds then
    let held := s.held ++ [⟨f, slot, t⟩]
    (.held held.length, { s with held := held })
  else (.field f.responseName, (s.complete f.request t).fillSlot slot f)

/-- One field of a request contributes its mutation. -/
def contribute (s : Session) (r : Request) (o : Operation) : Reply × Session :=
  let (contribution, r) := r.contribute s.model o.isRoot o.selection o.mutation
  let s := s.putRequest r
  match contribution with
  | .error e => (.refused e, s)
  | .ok .nothing => (.nothing, s)
  | .ok (.waits responseName) =>
    (.field responseName, s.fillSlot o.slot ⟨r.number, responseName⟩)
  | .ok (.submits responseName t) => s.submit ⟨r.number, responseName⟩ o.slot t

/-- Lets the engine run all it holds back, in order; the fields wait in their slots. -/
def release (s : Session) : List Reply × Session :=
  let held := s.held
  let s := { s with engine := { s.engine with holds := false }, held := [] }
  let s := held.foldl (fun s h =>
    (s.complete h.field.request h.transaction).fillSlot h.slot h.field) s
  (held.map fun h => .field h.field.responseName, s)

/-! ### Results -/

/-- The answer for a waiting field. -/
def fieldAnswer (s : Session) (f : WaitingField) : FieldAnswer :=
  match (s.request? f.request).bind fun r => r.result? f.responseName with
  | some result => .done result
  | none => if s.isAlive f.request then .waiting else .done (.error (.transaction .requestDropped))

/-- The answer for the field in a slot; unless it waits, the slot is empty afterwards. -/
def resolve (s : Session) (slot : String) : Option (FieldAnswer × Session) :=
  (s.slots.get? slot).map fun f =>
    match s.fieldAnswer f with
    | .waiting => (.waiting, s)
    | .done result => (.done result, { s with slots := s.slots.erase slot })

/-- The answers for the fields in some slots, one after another, without those that are empty. -/
def resolveAll (s : Session) : List String → List (String × FieldAnswer) × Session
  | [] => ([], s)
  | slot :: rest =>
    match s.resolve slot with
    | none => s.resolveAll rest
    | some (answer, s) =>
      let (answers, s) := s.resolveAll rest
      ((slot, answer) :: answers, s)

/-! ### Whole requests -/

/-- The operations contribute to a request one after another. -/
def contributeAll (s : Session) (number : Nat) : List Operation → List Reply × Session
  | [] => ([], s)
  | o :: rest =>
    match s.request? number with
    | none => ([], s)
    | some r =>
      let (reply, s) := s.contribute r o
      let (replies, s) := s.contributeAll number rest
      (reply :: replies, s)

/-- Runs a request of its own for some operations, then asks for the fields in the slots of their
response names. The request is dropped at the end. -/
def run (s : Session) (operations : List Operation) :
    List Reply × Record FieldAnswer × Session :=
  let names := operations.map fun o => o.selection.responseName
  let (r, s) := s.openRequest names
  let s := { s with running := some r.number }
  let (replies, s) := s.contributeAll r.number operations
  let (answers, s) := s.resolveAll names
  (replies, Record.ofList answers, { s with running := none })

/-! ### Reads -/

/-- Asks the engine a query. -/
def query (q : ReadQuery) : SessionStep (List Json) := do
  let s ← get
  let (answer, engine) := s.engine.answer q
  set { s with engine := engine }
  match answer with
  | .ok rows => return rows
  | .error e => throw e

/-- A row that is a document. -/
def rowDocument : Json → Except Error Document
  | .obj fields => .ok fields
  | v => .error (.storage (.notDocumentRow v))

/-- A step that leaves the session alone. -/
def ofExcept {α : Type} : Except Error α → SessionStep α
  | .ok a => pure a
  | .error e => throw e

/-- The documents that a query finds. -/
def documents (q : ReadQuery) : SessionStep (List Document) := do
  let rows ← query q
  Session.ofExcept (rows.mapM rowDocument)

/-- The number that a query gives. -/
def count (q : ReadQuery) : SessionStep Nat := do
  let rows ← query q
  match rows.head?.bind Json.nat? with
  | some n => return n
  | none => throw (.storage .noCount)

/-- The document of an id. -/
def get? (id type : String) : SessionStep (Option Document) := do
  let q ← Session.ofExcept ((← get).model.schema.getQuery id type)
  return (← documents q).head?

/-- The document that agrees with a key. -/
def getByKey? (key : Document) (type : String) : SessionStep (Option Document) := do
  let q ← Session.ofExcept ((← get).model.schema.keyQuery key type)
  return (← documents q).head?

/-- A page of a type. -/
def page (args : ListArgs) (type : String) : SessionStep Page := do
  let (q, p) ← Session.ofExcept ((← get).model.schema.listQuery args type)
  return { p with content := ← documents q }

/-- How many documents there are on all pages. -/
def total (p : Page) : SessionStep Nat :=
  count p.totalQuery

/-- Whether nothing follows a page. -/
def isLast (p : Page) : SessionStep Bool := do
  return (← count p.restQuery) == 0

/-- The id of a parent document. -/
def parentId (parent : Document) : Except Error String :=
  match parent.text? Field.id with
  | some id => .ok id
  | none => .error (.input .parentWithoutId)

/-- The documents at the other end of an edge field. -/
def endpoint (parent : Document) (type field : String) (filter : Option Json) :
    SessionStep Endpoint := do
  let id ← Session.ofExcept (parentId parent)
  let (q, isList) ← Session.ofExcept ((← get).model.schema.endpointQuery type id field filter)
  return Endpoint.ofRows (← documents q) isList

/-- The edges of a field. -/
def edges (parent : Document) (type field : String) (filter : Option Json) :
    SessionStep Endpoint := do
  let id ← Session.ofExcept (parentId parent)
  let (q, isList) ← Session.ofExcept ((← get).model.schema.edgeQuery type id field filter)
  return Endpoint.ofRows (← documents q) isList

end Session

end DocGraph
