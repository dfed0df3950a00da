import DocGraph.Store.Database

/-! # Engines

An engine runs transactions and answers queries on a database. A *recording* engine also keeps a record
of the transactions it is given, can be told to hold them back, and can be given the rows of its next
answer. -/

namespace DocGraph

/-- What an engine can do. -/
structure Capabilities where
  /-- A transaction that fails leaves no trace. -/
  atomic : Bool
  /-- Runs the text of scripts. -/
  runsText : Bool
  /-- Follows edges. -/
  traversals : Bool
deriving DecidableEq, Repr

/-- The kind of an engine. -/
inductive EngineKind where
  | plain
  | recording
deriving DecidableEq, Repr

/-- A database with what a recording engine keeps. -/
structure Engine where
  kind : EngineKind
  database : Database
  /-- Whether transactions are held back. -/
  holds : Bool
  /-- The rows of the next answer. -/
  nextRows : Option (List Json)
  /-- The transactions given so far. -/
  record : List Transaction
deriving Repr

namespace Engine

/-- An engine on an empty database. -/
def empty (kind : EngineKind) : Engine where
  kind := kind
  database := Database.empty
  holds := false
  nextRows := none
  record := []

def capabilities (e : Engine) : Capabilities :=
  match e.kind with
  | .plain => ⟨true, false, true⟩
  | .recording => ⟨false, false, false⟩

/-- Takes note of a transaction. -/
def note (e : Engine) (t : Transaction) : Engine :=
  match e.kind with
  | .plain => e
  | .recording => { e with record := e.record ++ [t] }

/-- Runs a transaction on the database. -/
def execute (e : Engine) (t : Transaction) : Except Error (Record Json) × Engine :=
  let (outcome, db) := e.database.execute t
  (outcome, { e with database := db })

/-- Answers a query. -/
def answer (e : Engine) (q : ReadQuery) : Except Error (List Json) × Engine :=
  match e.nextRows with
  | some rows => (.ok rows, { e with nextRows := none })
  | none => (e.database.store.answer q, e)

end Engine

end DocGraph
