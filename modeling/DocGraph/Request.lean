import DocGraph.Mutation.Basic

/-! # Requests

A request has several root fields that share one transaction. Each contributes its mutation; the last
one closes the transaction and hands it over. What becomes of the transaction is then the outcome for
all of them. A field that fails to contribute ends the whole request with its error. -/

namespace DocGraph

/-- How a request ended: the results by response name, or an error. -/
abbrev Outcome := Except Error (Record Json)

/-- The state of a request. -/
structure Request where
  number : Nat
  /-- The transaction in the making, until it is handed over or the request fails. -/
  context : Option Context
  /-- The response names of root fields that have not contributed. -/
  pending : List String
  outcome : Option Outcome
deriving Repr

/-- What a field gets for its contribution. -/
inductive Contribution where
  /-- The field waits for the outcome under its response name. -/
  | waits (responseName : String)
  /-- A field below the root has nothing to wait for. -/
  | nothing
  /-- The field was the last: here is the transaction. -/
  | submits (responseName : String) (transaction : Transaction)
deriving Repr

namespace Request

/-- A new request with the response names of its root fields. -/
def start (number : Nat) (remembers : Bool) (responseNames : List String) : Request where
  number := number
  context := some (Context.empty number remembers)
  pending := responseNames
  outcome := none

/-- Sets the outcome, unless there is one. -/
def finish (r : Request) (o : Outcome) : Request :=
  match r.outcome with
  | some _ => r
  | none => { r with outcome := some o }

/-- Ends the request with an error. -/
def fail (r : Request) (e : Error) : Request :=
  { r with context := none, pending := [] }.finish (.error e)

/-- Hands the transaction over after the last root field. -/
def submit (r : Request) (c : Context) (responseName : String) :
    Except Error Contribution × Request :=
  match Synthesis.close.run c with
  | (.ok t, _) => (.ok (.submits responseName t), { r with context := none })
  | (.error e, _) => (.error e, r.fail e)

/-- Counts a root field as contributed. -/
def contributed (r : Request) (c : Context) (responseName : String) :
    Except Error Contribution × Request :=
  let pending := r.pending.filter fun a => a != responseName
  let r := { r with context := some c, pending := pending }
  if pending.isEmpty then r.submit c responseName else (.ok (.waits responseName), r)

/-- Adds the statements of a field to the transaction in the making. -/
def extend (r : Request) (c : Context) (m : Model) (isRoot : Bool) (selection : Selection)
    (mutation : Mutation) : Except Error Contribution × Request :=
  let exports := if isRoot then some selection else none
  let step : Synthesis Unit := do
    let var ← mutation.synthesize m exports none
    if isRoot then Synthesis.bindResult selection.responseName var
  match step.run c with
  | (.error e, _) => (.error e, r.fail e)
  | (.ok (), c) =>
    if isRoot then r.contributed c selection.responseName
    else (.ok .nothing, { r with context := some c })

/-- One field contributes its mutation. -/
def contribute (r : Request) (m : Model) (isRoot : Bool) (selection : Selection)
    (mutation : Mutation) : Except Error Contribution × Request :=
  match r.outcome, r.context with
  | some _, _ =>
    (.ok (if isRoot then .waits selection.responseName else .nothing), r)
  | none, none => (.error (.synthesis .submitted), r)
  | none, some c =>
    if isRoot && !r.pending.contains selection.responseName then
      (.error (.synthesis (.notPending selection.responseName r.number)), r)
    else r.extend c m isRoot selection mutation

/-- The result of a root field, once there is an outcome. -/
def result? (r : Request) (responseName : String) : Option (Except Error Json) :=
  r.outcome.map fun o => do
    match (← o).get? responseName with
    | some v => return v
    | none => throw (.noResult responseName)

end Request

end DocGraph
