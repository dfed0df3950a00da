import DocGraph.Input.Basic
import DocGraph.Schema.Basic

/-! # Errors

An error is a cause with what it is about, grouped by who has to mend it: the schema, the input, the
way a request is put together, the transaction itself, or the store. `Error.message` holds the wording of
every cause. -/

namespace DocGraph

/-- The schema is inconsistent or does not define what was asked for. -/
inductive SchemaFault where
  | unknownType (name : String)
  | unknownField (type field : String)
  | directiveArgument (directive : String)
  | missingInterfaceField (type interface field : String)
  | extendsUnknown (name : String)
  | redefined (name : String)
  | extendsKind (name : String) (base extension : TypeKind)
  | fieldRedefined (type field : String)
  | filterField (type field : String)
  | keyField (type field : String)
  | notObject (type : String)
deriving Repr

/-- The input does not fit the schema. -/
inductive InputFault where
  | variableAsLiteral (name : String)
  | notObject (value : Input)
  | notDocumentId (text : String)
  | badMoment (text : String)
  | notMoment (value : Json)
  | filterNotObject (value : Json)
  | groupNotList (value : Json)
  | fieldFilterNotObject (field : String) (value : Json)
  | unknownOperator (operator field : String)
  | operandNotList (operator : String) (value : Json)
  | operandNotPattern (operator : String) (value : Json)
  | emptyKey (type : String)
  | exportedTwice (name : String)
  | exportName (name : String)
  | notIdReference (value : Input)
  | unknownField (type field : String)
  | edgeNotObject (type field : String)
  | unionUpdate (type field : String)
  | parentWithoutId
deriving Repr

/-- A request is put together in a way that cannot be submitted. -/
inductive SynthesisFault where
  | closed (transaction : Nat)
  | submitted
  | parameterTaken (name : String)
  | notPending (field : String) (transaction : Nat)
deriving Repr

/-- A transaction ended early. -/
inductive TransactionFault where
  | thrown (text : String)
  | undefinedVariable (name : String)
  | fieldOfNull (field : String)
  | notDocument (value : Json)
  | documentNotFound (collection key : String)
  | invalidHandle (value : Json)
  | requestDropped
deriving Repr

/-- The store refused an operation. -/
inductive StorageFault where
  | unknownCollection (name : String)
  | notWritable (collection : String)
  | invalidEndpoint (field : String)
  | notDocumentRow (value : Json)
  | noCount
deriving Repr

/-- The cause of a failure. -/
inductive Error where
  | malformed (line column : Nat)
  | schema (fault : SchemaFault)
  | input (fault : InputFault)
  | synthesis (fault : SynthesisFault)
  | transaction (fault : TransactionFault)
  | storage (fault : StorageFault)
  | noResult (field : String)
deriving Repr

/-! ### Wording -/

/-- A transaction's name in messages. -/
def transactionName (number : Nat) : String :=
  s!"tx-{number}"

def SchemaFault.message : SchemaFault → String
  | unknownType name => s!"type '{name}' not found in schema"
  | unknownField type field => s!"field '{field}' not found on type '{type}'"
  | directiveArgument directive => s!"directive @{directive} expects exactly one string argument"
  | missingInterfaceField type interface field =>
    s!"type '{type}' implements '{interface}' but lacks its field '{field}'"
  | extendsUnknown name => s!"cannot extend undefined type {name}"
  | redefined name => s!"type {name} is defined more than once"
  | extendsKind name base extension =>
    "cannot extend " ++ base.name ++ " " ++ name ++ " as " ++ extension.name
  | fieldRedefined type field => s!"field {type}.{field} is already defined"
  | filterField type field => s!"cannot filter on unknown field '{field}' of '{type}'"
  | keyField type field => s!"key field '{field}' is not defined on '{type}'"
  | notObject type => s!"'{type}' is not an object type"

def InputFault.message : InputFault → String
  | variableAsLiteral name => s!"variable ${name} cannot be used as a literal value"
  | notObject value => "expected an input object, got " ++ value.describe
  | notDocumentId text => s!"'{text}' is not a document id"
  | badMoment text => s!"invalid DateTime '{text}'"
  | notMoment value => "invalid DateTime " ++ value.text
  | filterNotObject value => "filter must be an object, got " ++ value.text
  | groupNotList value => "boolean filter group must be a list, got " ++ value.text
  | fieldFilterNotObject field value =>
    s!"filter for '{field}' must be an object, got " ++ value.text
  | unknownOperator operator field => s!"unknown filter operator '{operator}' on '{field}'"
  | operandNotList operator value => s!"{operator} expects a list, got " ++ value.text
  | operandNotPattern operator value => s!"{operator} expects a string pattern, got " ++ value.text
  | emptyKey type => s!"empty key for {type}"
  | exportedTwice name => s!"variable ${name} is exported more than once"
  | exportName name => s!"'{name}' cannot be used as an exported variable name"
  | notIdReference value => "expected a document id, got " ++ value.describe
  | unknownField type field => s!"field '{field}' is not defined on '{type}'"
  | edgeNotObject type field => s!"edge input for {type}.{field} must be an object"
  | unionUpdate type field =>
    "Inline updates of fields of union type is not supported! " ++
      s!"(Occurred for {type}.{field})"
  | parentWithoutId => "parent document has no _id"

def SynthesisFault.message : SynthesisFault → String
  | closed transaction =>
    "transaction " ++ transactionName transaction ++ " has already been submitted"
  | submitted => "transaction has already been submitted"
  | parameterTaken name => s!"Parameter name '{name}' has already been allocated"
  | notPending field transaction =>
    s!"'{field}' is not a pending root field of " ++ transactionName transaction

def TransactionFault.message : TransactionFault → String
  | thrown text => text
  | undefinedVariable name => s!"{name} is not defined"
  | fieldOfNull field => s!"Cannot read property '{field}' of null"
  | notDocument value => "expected a document, got " ++ value.text
  | documentNotFound collection key => s!"document not found: {collection}/{key}"
  | invalidHandle value => "invalid document handle: " ++ value.text
  | requestDropped => "request dropped before completion"

def StorageFault.message : StorageFault → String
  | unknownCollection name => s!"collection or view not found: {name}"
  | notWritable collection =>
    s!"collection '{collection}' not registered for write in the transaction"
  | invalidEndpoint field => s!"edge attribute missing or invalid: {field}"
  | notDocumentRow value => "expected a document row, got " ++ value.text
  | noCount => "count query returned no number"

/-- The text of an error. -/
def Error.message : Error → String
  | malformed line column => s!"SDL syntax error at {line}:{column}"
  | schema fault => "Schema error: " ++ fault.message
  | input fault => "Input error: " ++ fault.message
  | synthesis fault => "Synthesis error: " ++ fault.message
  | transaction fault => fault.message
  | storage fault => "Storage error: " ++ fault.message
  | noResult field => s!"Not found: result for '{field}'"

end DocGraph
