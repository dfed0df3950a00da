import DocGraph.Schema.Basic

/-! # Definitions as written

What a schema text says, before it becomes a schema: type definitions and extensions with everything
that stands in them, blocks that name the operations, and definitions of directives. Numbers keep their
place, so that one too large for a double can be reported; so do the parts of an operation block. -/

namespace DocGraph.Sdl

/-- A constant in a schema text. A number beyond the doubles has no value. -/
inductive Literal where
  | number (offset : Nat) (value : Option Number)
  | str (s : String)
  | bool (b : Bool)
  | null
  | name (s : String)
  | list (items : List Literal)
  | object (fields : List (String × Literal))
deriving Repr

/-- A directive as it stands at a definition. -/
structure Annotation where
  name : String
  arguments : List (String × Literal)
deriving Repr

/-- An argument of a field, or a field of an input type. -/
structure Parameter where
  name : String
  type : TypeRef
  initial : Option Literal
  annotations : List Annotation
deriving Repr

/-- A field of an object or interface type. -/
structure FieldLine where
  name : String
  parameters : List Parameter
  type : TypeRef
  annotations : List Annotation
deriving Repr

/-- What a type definition holds. -/
inductive Body where
  | scalar
  | object (interfaces : List String) (fields : List FieldLine)
  | interface (interfaces : List String) (fields : List FieldLine)
  | union (members : List String)
  | enumeration (values : List (String × List Annotation))
  | input (fields : List Parameter)
deriving Repr

/-- A type definition, or an extension of one. -/
structure TypeDefinition where
  extending : Bool
  name : String
  annotations : List Annotation
  body : Body
deriving Repr

/-- The operations a schema may name. -/
inductive Operation where
  | query
  | mutation
  | subscription
deriving DecidableEq, Repr

/-- A block that names the types of operations, with the places of the block and of each name. -/
structure OperationBlock where
  offset : Nat
  extending : Bool
  annotations : List Annotation
  operations : List (Operation × Nat)
deriving Repr

/-- One definition of a schema text. -/
inductive Definition where
  | type (definition : TypeDefinition)
  | operations (block : OperationBlock)
  | directive (parameters : List Parameter)
deriving Repr

/-! ### Faults of a text that reads

A text may read and still be refused: for a number beyond the doubles, an operation named twice, or a
block without a query. The first such place in the order of the text counts. -/

mutual

/-- The place of the first number without a value. -/
def Literal.fault? : Literal → Option Nat
  | .number offset none => some offset
  | .list items => itemsFault? items
  | .object fields => fieldsFault? fields
  | _ => none

def itemsFault? : List Literal → Option Nat
  | [] => none
  | v :: rest =>
    match v.fault? with
    | some offset => some offset
    | none => itemsFault? rest

def fieldsFault? : List (String × Literal) → Option Nat
  | [] => none
  | (_, v) :: rest =>
    match v.fault? with
    | some offset => some offset
    | none => fieldsFault? rest

end

def annotationsFault? (annotations : List Annotation) : Option Nat :=
  annotations.findSome? fun a => fieldsFault? a.arguments

def parametersFault? (parameters : List Parameter) : Option Nat :=
  parameters.findSome? fun p =>
    (p.initial.bind Literal.fault?).or (annotationsFault? p.annotations)

def fieldLinesFault? (fields : List FieldLine) : Option Nat :=
  fields.findSome? fun f => (parametersFault? f.parameters).or (annotationsFault? f.annotations)

def Body.fault? : Body → Option Nat
  | .scalar => none
  | .object _ fields => fieldLinesFault? fields
  | .interface _ fields => fieldLinesFault? fields
  | .union _ => none
  | .enumeration values => values.findSome? fun v => annotationsFault? v.2
  | .input fields => parametersFault? fields

/-- The place of the first operation that is named a second time. -/
def repeatedOperation? (seen : List Operation) : List (Operation × Nat) → Option Nat
  | [] => none
  | (o, offset) :: rest =>
    if seen.contains o then some offset else repeatedOperation? (o :: seen) rest

def OperationBlock.fault? (b : OperationBlock) : Option Nat :=
  let noQuery := !b.extending && !(b.operations.any fun o => o.1 == .query)
  ((annotationsFault? b.annotations).or (repeatedOperation? [] b.operations)).or
    (if noQuery then some b.offset else none)

/-- The place of the first fault of a definition. -/
def Definition.fault? : Definition → Option Nat
  | .type d => (annotationsFault? d.annotations).or d.body.fault?
  | .operations b => b.fault?
  | .directive parameters => parametersFault? parameters

end DocGraph.Sdl
