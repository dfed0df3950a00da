import DocGraph.Document

/-! # Transaction scripts

A transaction is a list of statements with the collections it may write and read and the values of its
parameters. Statements write documents, bind their results to script variables, and assert that a check
finds no violation. -/

namespace DocGraph

/-- A value that a script can name. -/
inductive Ref where
  /-- A bound parameter. -/
  | param (name : String)
  /-- The document that a writing statement returned. -/
  | doc (name : String)
  /-- A value exported by a root field. -/
  | exported (name : String)
  /-- A field of another value. -/
  | field (base : Ref) (name : String)
deriving DecidableEq, Repr

namespace Ref

/-- The id that a reference means: a document stands for its id, anything else is one already. -/
def id : Ref → Ref
  | doc name => field (doc name) Field.id
  | r => r

/-- The reference in script text. -/
def text : Ref → String
  | param name => "params." ++ name
  | doc name => name
  | exported name => name
  | field base name => base.text ++ "." ++ name

end Ref

/-- Part of a thrown message. -/
inductive MessagePart where
  | text (s : String)
  | value (r : Ref)
deriving DecidableEq, Repr

/-- A message with values filled in when it is thrown. -/
structure Message where
  parts : List MessagePart
deriving DecidableEq, Repr

/-- A message without values. -/
def Message.ofText (s : String) : Message := ⟨[.text s]⟩

/-- What an assertion looks for. -/
inductive Check where
  /-- The id is no document of any of the collections. -/
  | missing (id : Ref) (collections : List String)
  /-- The source has an outbound edge in the collection. -/
  | edgeExists (source : Ref) (collection : String)
  /-- Another document of the collection agrees with the candidate on all fields. -/
  | duplicateKey (candidate : Ref) (collection : String) (fields : List String)
  /-- An outbound edge of the source points back at it. -/
  | selfLoop (source : Ref) (collection : String)
  /-- Two outbound edges of the source share a target that exists. -/
  | duplicateTarget (source : Ref) (collection : String)
  /-- A target of the source has a second inbound edge. -/
  | sharedTarget (source : Ref) (outbound inbound : List String)
  /-- Some document of the targets has no inbound edge. -/
  | orphanTarget (targets inbound : List String)
  /-- The id exists in the collection and has no inbound edge. -/
  | missingInbound (id : Ref) (collection : String) (inbound : List String)
deriving DecidableEq, Repr

/-- The collections a check reads. -/
def Check.collections : Check → List String
  | missing _ cs => cs
  | edgeExists _ c => [c]
  | duplicateKey _ c _ => [c]
  | selfLoop _ c => [c]
  | duplicateTarget _ c => [c]
  | sharedTarget _ outbound inbound => outbound ++ inbound
  | orphanTarget targets inbound => targets ++ inbound
  | missingInbound _ c inbound => c :: inbound

/-- Which edges at a document are meant. -/
inductive EdgeMatch where
  | outbound
  | any
deriving DecidableEq, Repr

/-- One statement of a script. -/
inductive Statement where
  | comment (text : String)
  /-- Inserts a document with imported fields, as an edge between two ids if they are given, and
  binds the new document. -/
  | insert (var collection : String) (doc : Ref) (imports : List (String × Ref))
      (endpoints : Option (Ref × Ref))
  /-- Merges fields into a document and binds the result. -/
  | update (var collection : String) (id doc : Ref) (imports : List (String × Ref))
  /-- Removes a document if it is there, and binds it or null. -/
  | remove (var collection : String) (id : Ref)
  | removeEdges (collection : String) (endpoint : Ref) (which : EdgeMatch)
  | bind (name : String) (value : Ref)
  | setResult (responseName : String) (value : Ref)
  /-- Runs statements only if a value counts as true. -/
  | guarded (condition : Ref) (body : List Statement)
  | assert (check : Check) (message : Message)
  | fail (message : Message)
deriving Repr

/-- Everything a store needs to run a request at once. -/
structure Transaction where
  write : NameSet
  read : NameSet
  statements : List Statement
  params : Record Json
deriving Repr

end DocGraph
