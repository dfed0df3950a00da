import DocGraph.Store.Check

/-! # Running scripts

A run changes a copy of the store statement by statement. Keys of new documents come from a counter that
all collections share. A statement that fails ends the run. -/

namespace DocGraph

/-- The state of a run. -/
structure Run where
  store : Store
  /-- The last key given out. -/
  lastKey : Nat
  vars : Record Json
  result : Record Json
deriving Repr

/-- A step of a run; a failing step keeps the keys it has given out. -/
abbrev Step (α : Type) := ExceptT Error (StateM Run) α

namespace Run

/-- A step that changes nothing. -/
def ofExcept {α : Type} : Except Error α → Step α
  | .ok a => pure a
  | .error e => throw e

/-- Fails unless a collection was locked for writing. -/
def checkWritable (write : NameSet) (collection : String) : Step Unit :=
  if write.contains collection then pure () else throw (.storage (.notWritable collection))

/-- The value of a reference. -/
def value (params : Record Json) (r : Ref) : Step Json := do
  Run.ofExcept (r.value ⟨params, (← get).vars⟩)

/-- The document of a reference, with imported fields set. -/
def body (params : Record Json) (doc : Ref) (imports : List (String × Ref)) : Step Document := do
  let scope : Scope := ⟨params, (← get).vars⟩
  let d ← Run.ofExcept (doc.document scope)
  let values ← Run.ofExcept (imports.mapM fun e => (e.2.value scope).map fun v => (e.1, v))
  return Record.insertAll d values

/-- Sets a variable. -/
def setVar (name : String) (v : Json) : Step Unit :=
  modify fun s => { s with vars := s.vars.insert name v }

/-! ### Writes -/

/-- Whether the value of an end of an edge is a document id. -/
def isEnd : Option Json → Bool
  | some (.str s) =>
    match DocumentId.parse s with
    | .ok _ => true
    | .error _ => false
  | _ => false

/-- Fails if a document of an edge collection lacks an end. -/
def checkEnds (kind : CollectionKind) (d : Document) : Step Unit := do
  if kind == .edge then
    if !isEnd (d.get? Field.source) then throw (.storage (.invalidEndpoint Field.source))
    if !isEnd (d.get? Field.target) then throw (.storage (.invalidEndpoint Field.target))

/-- A document with its key and id. -/
def keyed (collection key : String) (d : Document) : Document :=
  (Record.insert d Field.key (.str key)).insert Field.id
    (.str (DocumentId.ofKey collection key).text)

/-- Inserts a document under the next key. -/
def insert (write : NameSet) (collection : String) (d : Document) : Step Document := do
  checkWritable write collection
  let s ← get
  let c ← Run.ofExcept (s.store.collection collection)
  checkEnds c.kind d
  let key := toString (s.lastKey + 1)
  let d := keyed collection key d
  set { s with lastKey := s.lastKey + 1, store := s.store.set collection (c.put key d) }
  return d

/-- The key inside a document id. -/
def keyOf : Json → Except Error String
  | .str s => (DocumentId.parse s).map DocumentId.key
  | v => .error (.transaction (.invalidHandle v))

/-- A document with fields changed; its key and id stay. -/
def merge (d patch : Document) : Document :=
  Record.insertAll d (patch.filter fun e => e.1 != Field.id && e.1 != Field.key)

/-- Merges fields into the document of an id. -/
def update (write : NameSet) (collection : String) (id : Json) (patch : Document) :
    Step Document := do
  checkWritable write collection
  let key ← Run.ofExcept (keyOf id)
  let s ← get
  let c ← Run.ofExcept (s.store.collection collection)
  match c.get? key with
  | none => throw (.transaction (.documentNotFound collection key))
  | some d =>
    let d := merge d patch
    set { s with store := s.store.set collection (c.put key d) }
    return d

/-- Takes out the document of an id, if it is there. -/
def remove (write : NameSet) (collection : String) (id : Json) : Step Json := do
  checkWritable write collection
  let s ← get
  let c ← Run.ofExcept (s.store.collection collection)
  match keyOf id with
  | .error _ => return .null
  | .ok key =>
    match c.get? key with
    | none => return .null
    | some d =>
      set { s with store := s.store.set collection (c.erase key) }
      return .obj d

/-- Whether an edge has a value at an end that counts. -/
def touches (which : EdgeMatch) (v : Json) (e : Document) : Bool :=
  let here (field : String) : Bool :=
    match e.get? field with
    | some w => w.same v
    | none => false
  match which with
  | .outbound => here Field.source
  | .any => here Field.source || here Field.target

/-- Takes out the edges at a document. -/
def removeEdges (write : NameSet) (collection : String) (v : Json) (which : EdgeMatch) :
    Step Unit := do
  checkWritable write collection
  let s ← get
  let c ← Run.ofExcept (s.store.collection collection)
  set { s with store := s.store.set collection (c.eraseWhere (touches which v)) }

/-- Ends the run with a message. -/
def fail (params : Record Json) (message : Message) : Step Unit := do
  let text ← Run.ofExcept (message.fill ⟨params, (← get).vars⟩)
  throw (.transaction (.thrown text))

/-- An edge document with its ends set. -/
def withEnds (params : Record Json) (d : Document) : Option (Ref × Ref) → Step Document
  | none => return d
  | some (source, target) => do
    let a ← value params source
    let b ← value params target
    return (Record.insert d Field.source a).insert Field.target b

/-! ### Statements -/

mutual

/-- Runs one statement. -/
def perform (write : NameSet) (params : Record Json) : Statement → Step Unit
  | .comment _ => return
  | .insert var collection doc imports endpoints => do
    let d ← body params doc imports
    let d ← withEnds params d endpoints
    let d ← insert write collection d
    setVar var (.obj d)
  | .update var collection id doc imports => do
    let patch ← body params doc imports
    let id ← value params id
    let d ← update write collection id patch
    setVar var (.obj d)
  | .remove var collection id => do
    let id ← value params id
    let old ← remove write collection id
    setVar var old
  | .removeEdges collection endpoint which => do
    let v ← value params endpoint
    removeEdges write collection v which
  | .bind name v => do
    setVar name (← value params v)
  | .setResult responseName v => do
    let v ← value params v
    modify fun s => { s with result := s.result.insert responseName v }
  | .guarded condition statements => do
    let v ← value params condition
    if v.isTrue then performAll write params statements
  | .assert check message => do
    let s ← get
    if ← Run.ofExcept (check.violated s.store ⟨params, s.vars⟩) then fail params message
  | .fail message => fail params message

/-- Runs statements one after another. -/
def performAll (write : NameSet) (params : Record Json) : List Statement → Step Unit
  | [] => return
  | s :: rest => do
    perform write params s
    performAll write params rest

end

end Run

end DocGraph
