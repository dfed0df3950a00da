import DocGraph.Document

/-! # The store

A store keeps collections by name, and a collection keeps documents by key, both in order of the names.
Collections of edges hold documents with two ends. -/

namespace DocGraph

/-- What a collection holds. -/
inductive CollectionKind where
  | document
  | edge
deriving DecidableEq, Repr

/-- Documents by key. -/
structure Collection where
  kind : CollectionKind
  documents : NameMap Document
deriving Repr

namespace Collection

/-- The documents in order of their keys. -/
def rows (c : Collection) : List Document :=
  NameMap.values c.documents

/-- The document of a key. -/
def get? (c : Collection) (key : String) : Option Document :=
  NameMap.get? c.documents key

/-- Sets the document of a key. -/
def put (c : Collection) (key : String) (d : Document) : Collection :=
  { c with documents := NameMap.insert c.documents key d }

/-- Takes the document of a key out. -/
def erase (c : Collection) (key : String) : Collection :=
  { c with documents := NameMap.erase c.documents key }

/-- Takes out the documents that meet a condition. -/
def eraseWhere (c : Collection) (test : Document → Bool) : Collection :=
  { c with documents := c.documents.filter fun e => !test e.2 }

/-- Whether some document has an id. -/
def hasId (c : Collection) (id : String) : Bool :=
  c.rows.any fun d => d.text? Field.id == some id

end Collection

/-- Collections by name. -/
structure Store where
  collections : NameMap Collection
deriving Repr

namespace Store

/-- A store without collections. -/
def empty : Store := ⟨[]⟩

/-- The collection of a name, if there is one. -/
def collection? (s : Store) (name : String) : Option Collection :=
  NameMap.get? s.collections name

/-- The collection of a name. -/
def collection (s : Store) (name : String) : Except Error Collection :=
  match s.collection? name with
  | some c => .ok c
  | none => .error (.storage (.unknownCollection name))

/-- Sets the collection of a name. -/
def set (s : Store) (name : String) (c : Collection) : Store :=
  ⟨NameMap.insert s.collections name c⟩

/-- The names of all collections, in order. -/
def names (s : Store) : List String :=
  s.collections.map Prod.fst

/-- Adds an empty collection unless there is one of the name. -/
def create (s : Store) (name : String) (kind : CollectionKind) : Store :=
  match s.collection? name with
  | some _ => s
  | none => s.set name ⟨kind, []⟩

/-- The document of an id. -/
def document? (s : Store) (id : String) : Option Document :=
  match DocumentId.parse id with
  | .ok d => (s.collection? d.collection).bind fun c => c.get? d.key
  | .error _ => none

/-- The documents of some collections, one after another. -/
def rows (s : Store) (names : List String) : Except Error (List Document) :=
  (names.mapM s.collection).map fun cs => cs.flatMap Collection.rows

/-- The edges of some collections that have an id at one end. -/
def edgesAt (s : Store) (names : List String) (endField id : String) :
    Except Error (List Document) :=
  (s.rows names).map fun es => es.filter fun e => e.text? endField == some id

end Store

end DocGraph
