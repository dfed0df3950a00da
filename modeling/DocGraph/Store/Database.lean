import DocGraph.Schema.Graph
import DocGraph.Store.Read
import DocGraph.Store.Run

/-! # A database

A database is a store with the last key it has given out. A transaction runs as a whole or not at all;
keys given out by one that fails are not given out again. -/

namespace DocGraph

/-- A store and the last key given out. -/
structure Database where
  store : Store
  lastKey : Nat
deriving Repr

namespace Database

/-- A database without collections. -/
def empty : Database := ⟨Store.empty, 0⟩

/-- Runs a transaction; if it fails, the store stays as it was. -/
def execute (db : Database) (t : Transaction) : Except Error (Record Json) × Database :=
  let (outcome, run) := (Run.performAll t.write t.params t.statements).run
    ⟨db.store, db.lastKey, [], []⟩
  match outcome with
  | .ok () => (.ok run.result, ⟨run.store, run.lastKey⟩)
  | .error e => (.error e, ⟨db.store, run.lastKey⟩)

/-- Adds an empty collection; says whether there was none of the name. -/
def createCollection (db : Database) (name : String) (kind : CollectionKind) : Bool × Database :=
  ((db.store.collection? name).isNone, { db with store := db.store.create name kind })

/-- Takes out all collections. -/
def dropAll (db : Database) : Database :=
  { db with store := Store.empty }

/-- Adds the collections that a schema needs, after dropping all if `drop` is set. -/
def setup (db : Database) (s : Schema) (drop : Bool) : Except Error Database := do
  let edges ← s.edgeCollections
  let kept := if drop then Store.empty else db.store
  let withDocuments := s.documentCollections.foldl (fun st name => st.create name .document) kept
  return { db with store := edges.foldl (fun st name => st.create name .edge) withDocuments }

end Database

end DocGraph
