import DocGraph.Input.Literal
import DocGraph.Script.Basic

/-! # A transaction in the making

All mutations of one request add to the same context: statements, parameters, locks on collections,
exported variables, and checks that wait for the end. Document variables are `_x0, _x1, …` and parameters
`_0, _1, …`. Closing the context gives the transaction. A step that fails keeps what it has added. -/

namespace DocGraph

/-- What is known of an id when its existence is checked. -/
inductive IdKey where
  /-- The id itself. -/
  | literal (id : String)
  /-- A place that holds the id when the script runs. -/
  | place (text : String)
deriving DecidableEq, Repr

/-- The state of a transaction in the making. -/
structure Context where
  number : Nat
  statements : List Statement
  deferred : List Statement
  params : Record Json
  write : NameSet
  read : NameSet
  nextVar : Nat
  nextParam : Nat
  exports : Record Ref
  /-- Existence checks made so far, by id and type. -/
  memo : List (IdKey × String)
  remembers : Bool
  isOpen : Bool
deriving Repr

/-- A new context. -/
def Context.empty (number : Nat) (remembers : Bool) : Context where
  number := number
  statements := []
  deferred := []
  params := []
  write := []
  read := []
  nextVar := 0
  nextParam := 0
  exports := []
  memo := []
  remembers := remembers
  isOpen := true

/-- A step that adds to a context and may fail; what it added before failing stays. -/
abbrev Synthesis (α : Type) := ExceptT Error (StateM Context) α

namespace Synthesis

/-- A step that fails without adding anything. -/
def ofExcept {α : Type} : Except Error α → Synthesis α
  | .ok a => pure a
  | .error e => throw e

/-- Fails if the context is closed. -/
def ensureOpen : Synthesis Unit := do
  let c ← get
  if !c.isOpen then throw (.synthesis (.closed c.number))

/-! ### Names and parameters -/

/-- The name the next document variable will have. -/
def nextVar : Synthesis String := do
  return s!"_x{(← get).nextVar}"

/-- A new document variable. -/
def freshVar : Synthesis String := do
  let name ← nextVar
  modify fun c => { c with nextVar := c.nextVar + 1 }
  return name

/-- Binds a value to a parameter name that is not taken. -/
def addParam (name : String) (value : Json) : Synthesis Ref := do
  if (← get).params.contains name then throw (.synthesis (.parameterTaken name))
  modify fun c => { c with params := c.params.insert name value }
  return .param name

/-- Binds a value to a new parameter. -/
def freshParam (value : Json) : Synthesis Ref := do
  let n := (← get).nextParam
  modify fun c => { c with nextParam := n + 1 }
  addParam s!"_{n}" value

/-! ### Locks -/

/-- Locks a collection for writing. -/
def lockWrite (collection : String) : Synthesis Unit :=
  modify fun c =>
    { c with read := NameSet.erase c.read collection, write := NameSet.insert c.write collection }

/-- Locks a collection for reading, unless it is locked for writing. -/
def lockRead (collection : String) : Synthesis Unit :=
  modify fun c =>
    if c.write.contains collection then c
    else { c with read := NameSet.insert c.read collection }

/-! ### Statements -/

def push (s : Statement) : Synthesis Unit :=
  modify fun c => { c with statements := c.statements ++ [s] }

def comment (text : String) : Synthesis Unit :=
  push (.comment text)

/-- Makes the script fail at this point. -/
def fail (text : String) : Synthesis Unit :=
  push (.fail (.ofText text))

/-- Adds a statement that runs after those of all fields. -/
def defer (s : Statement) : Synthesis Unit :=
  modify fun c => { c with deferred := c.deferred ++ [s] }

/-- Makes a document the result of a root field. -/
def bindResult (responseName var : String) : Synthesis Unit := do
  comment "bind result for mutation field"
  push (.setResult responseName (.doc var))

/-! ### Exports -/

/-- Records what an exported variable stands for. -/
def exportVar (name : String) (value : Ref) : Synthesis Unit := do
  if (← get).exports.contains name then throw (.input (.exportedTwice name))
  modify fun c => { c with exports := c.exports.insert name value }

/-- Makes the script fail over a variable that nothing exports. -/
def failUnexported (name : String) : Synthesis Unit :=
  fail s!"Variable ${name} has not been exported"

/-- The fields of an input object that are not variables. -/
def literals (data : InputObject) : InputObject :=
  data.filter fun e => e.2.var?.isNone

/-- The fields of an input object that are variables, with what these stand for. A variable that
nothing exports makes the script fail. -/
def imports : InputObject → Synthesis (List (String × Ref))
  | [] => return []
  | (field, .var name) :: rest => do
    match (← get).exports.get? name with
    | some r => return (field, r) :: (← imports rest)
    | none =>
      failUnexported name
      imports rest
  | _ :: rest => imports rest

/-- A reference to the id that an input value gives. -/
def resolveId : Input → Synthesis Ref
  | .str id => freshParam (.str id)
  | .var name => do
    match (← get).exports.get? name with
    | some r => return r
    | none =>
      failUnexported name
      freshParam .null
  | v => throw (.input (.notIdReference v))

/-! ### Existence checks -/

/-- What is known of the id behind a reference. -/
def idKey (c : Context) : Ref → IdKey
  | .param name =>
    match c.params.get? name with
    | some (.str id) => .literal id
    | _ => .place (Ref.param name).text
  | r => .place r.text

/-- Whether the existence of an id as a type has to be checked; records that it is. -/
def needsCheck (id : Ref) (type : String) : Synthesis Bool := do
  let c ← get
  if !c.remembers then return true
  let entry := (idKey c id, type)
  if c.memo.contains entry then return false
  set { c with memo := c.memo ++ [entry] }
  return true

/-- Forgets checks of an id that is deleted; an id known only when the script runs may be any. -/
def forget (id : Ref) : Synthesis Unit :=
  modify fun c =>
    match idKey c id with
    | .literal text => { c with memo := c.memo.filter fun e => e.1 != .literal text }
    | .place _ => { c with memo := [] }

/-! ### Closing -/

/-- Statements with the deferred ones after them. -/
def withDeferred (statements deferred : List Statement) : List Statement :=
  if deferred.isEmpty then statements
  else statements ++ [.comment "final constraint checks"] ++ deferred

/-- Closes the context and gives its transaction. -/
def close : Synthesis Transaction := do
  ensureOpen
  let c ← get
  set { c with
    isOpen := false
    statements := []
    deferred := []
    write := []
    read := []
    params := [] }
  return ⟨c.write, c.read, withDeferred c.statements c.deferred, c.params⟩

end Synthesis

end DocGraph
