import DocGraph.Mutation.Model

/-! # Checks of directives and keys

The directives on the fields of a type become assertions that run after the statements of all fields of
the request; a key becomes an assertion right after the document is written. -/

namespace DocGraph

/-! ### Directives -/

/-- What a directive on a field forbids for a document of the type, with the message when it
happens. -/
def Directive.check? (s : Schema) (type : String) (f : FieldDef) (id : Ref) :
    Directive → Except Error (Option (Check × String))
  | noLoops =>
    return some (.selfLoop id (edgeCollection type f.name), broken "@noloops")
  | distinct =>
    return some (.duplicateTarget id (edgeCollection type f.name), broken "@distinct")
  | uniqueForTarget =>
    let own := [edgeCollection type f.name]
    return some (.sharedTarget id own own, broken "@uniqueForTarget")
  | uniqueForInterface interface => do
    let all ← s.possibleEdgeCollections interface f.name
    return some (.sharedTarget id all all, broken "@_uniqueForTarget_AccordingToInterface")
  | requiredForTarget => do
    let targets ← s.possibleCollections f.type.base
    return some (.orphanTarget targets [edgeCollection type f.name],
      s!"There are object(s) breaking the @requiredForTarget directive of {place}!")
  | requiredForInterface interface => do
    let targets ← s.possibleCollections f.type.base
    let all ← s.possibleEdgeCollections interface f.name
    return some (.orphanTarget targets all,
      "There are object(s) breaking the inherited @_requiredForTarget_AccordingToInterface " ++
        s!"directive of {place}!")
  | required =>
    match f.reverseEdge? with
    | none => return none
    | some forward => do
      let inbound ← s.possibleEdgeCollections forward.sourceType forward.field
      return some (.missingInbound id type inbound,
        s!"{place} is breaking a @requiredForTarget directive (in reverse)!")
  | exported _ => return none
where
  place : String := s!"Field {f.name} in {type}"
  broken (directive : String) : String := s!"{place} is breaking a {directive} directive!"

namespace Model

variable (m : Model)

/-- Locks what a check reads and gives its assertion. -/
def assertion (check : Check) (message : String) : Synthesis Statement := do
  check.collections.forM Synthesis.lockRead
  return .assert check (.ofText message)

/-- The assertions of the directives on one field. -/
def fieldAssertions (type : String) (id : Ref) (f : FieldDef) : List Directive →
    Synthesis (List Statement)
  | [] => return []
  | d :: rest => do
    match ← Synthesis.ofExcept (d.check? m.schema type f id) with
    | none => fieldAssertions type id f rest
    | some (check, message) =>
      let a ← assertion check message
      return a :: (← fieldAssertions type id f rest)

/-- The assertions of the directives on all fields of a type. -/
def typeAssertions (type : String) (id : Ref) : List FieldDef → Synthesis (List Statement)
  | [] => return []
  | f :: rest => do
    let ds ← Synthesis.ofExcept f.constraints
    let own ← m.fieldAssertions type id f ds
    return own ++ (← typeAssertions type id rest)

/-- Defers the checks of the directives of a type for the document `id`, to run only if the guard,
when there is one, counts as true. -/
def deferChecks (type : String) (id : Ref) (guard? : Option Ref) : Synthesis Unit := do
  if m.settings.skipDirectives then return
  Synthesis.ofExcept (m.schema.checkInterfaceFields type)
  let t ← Synthesis.ofExcept (m.schema.typeDef type)
  let assertions ← m.typeAssertions type id t.fields
  if assertions.isEmpty then return
  match guard? with
  | some condition => Synthesis.defer (.guarded condition assertions)
  | none => assertions.forM Synthesis.defer

/-! ### Keys -/

/-- Makes the script fail if another document of the type agrees with `var` on the key fields. -/
def checkKey (var type : String) : Synthesis Unit := do
  match m.schema.keyType? type with
  | none => return
  | some k =>
    Synthesis.lockRead type
    Synthesis.comment "check key constraint"
    Synthesis.push (.assert (.duplicateKey (.doc var) type (k.fields.map FieldDef.name))
      (.ofText s!"Duplicate key for {type}"))

end Model

end DocGraph
