import DocGraph.Mutation.Basic
import DocGraph.Proofs.Names
import DocGraph.Proofs.Outcome

/-! # What a mutation adds to a transaction

Every mutation adds to the transaction in the making by a few kinds of steps: it names a parameter or
a variable, locks a collection, adds a write together with what the write still owes, adds a check, or
settles a debt. `Emits` lists these steps, with what is known when each of them happens. What is owed
is kept on a stack of *duties*: a name that is to be bound, a key that is to be checked, directives
that are to be deferred, and so on. A mutation starts and ends without duties.

A context that remembers existence checks leaves out those it has already made. `Trace` is a sequence
of steps together with the statements that a context without memory would have added, in which the
checks left out still occur (`Skips`). Everything proved about transactions starts from a trace. -/

namespace DocGraph

/-! ### Bindings -/

/-- What a variable of a script holds. -/
inductive Holding where
  | document
  /-- A document that has been taken out, or null. -/
  | removed
  /-- Any value. -/
  | value
deriving DecidableEq, Repr

/-- The variable that a statement sets, with what it then holds. -/
def Statement.binding? : Statement → Option (String × Holding)
  | .insert var _ _ _ _ => some (var, .document)
  | .update var _ _ _ _ => some (var, .document)
  | .remove var _ _ => some (var, .removed)
  | .bind name _ => some (name, .value)
  | _ => none

/-- The collection that a statement puts a document into. -/
def Statement.target? : Statement → Option String
  | .insert _ collection _ _ _ => some collection
  | .update _ collection _ _ _ => some collection
  | _ => none

/-- The variables that statements set, in order. -/
def bindings (ss : List Statement) : List (String × Holding) :=
  ss.filterMap Statement.binding?

@[simp] theorem bindings_nil : bindings [] = [] := rfl

@[simp] theorem bindings_append (ss tt : List Statement) :
    bindings (ss ++ tt) = bindings ss ++ bindings tt := by
  simp [bindings]

namespace Context

/-! ### Changes of a context -/

/-- Adds statements. -/
def add (c : Context) (ss : List Statement) : Context :=
  { c with statements := c.statements ++ ss }

/-- Binds a value to the next parameter. -/
def addParam (c : Context) (v : Json) : Context :=
  { c with nextParam := c.nextParam + 1, params := c.params.insert (paramName c.nextParam) v }

/-- Takes the next variable. -/
def addVar (c : Context) : Context :=
  { c with nextVar := c.nextVar + 1 }

/-- Locks a collection for writing. -/
def lockWrite (c : Context) (collection : String) : Context :=
  { c with read := NameSet.erase c.read collection, write := NameSet.insert c.write collection }

/-- Locks a collection for reading. -/
def lockRead (c : Context) (collection : String) : Context :=
  if c.write.contains collection then c
  else { c with read := NameSet.insert c.read collection }

/-- Takes note of an existence check. -/
def memoize (c : Context) (entry : IdKey × String) : Context :=
  { c with memo := if c.remembers then c.memo ++ [entry] else c.memo }

/-- Records an export. -/
def addExport (c : Context) (name : String) : Context :=
  { c with exports := c.exports.insert name (.exported name) }

/-- Adds statements that run after all others. -/
def addDeferred (c : Context) (ss : List Statement) : Context :=
  { c with deferred := c.deferred ++ ss }

/-- Forgets the existence checks of an id. -/
def forget (c : Context) (id : Ref) : Context :=
  match Synthesis.idKey c id with
  | .literal text => { c with memo := c.memo.filter fun e => e.1 != .literal text }
  | .place _ => { c with memo := [] }

/-- The same context without memory, with other statements. -/
def plain (c : Context) (ss : List Statement) : Context :=
  { c with statements := ss, memo := [], remembers := false }

/-! ### What a context knows -/

/-- A collection is locked in one way or the other. -/
def Locked (c : Context) (collection : String) : Prop :=
  collection ∈ c.write ∨ collection ∈ c.read

/-- The references that an id argument resolves to: a parameter or an export. -/
inductive Given (c : Context) : Ref → Prop
  | param {name : String} {v : Json} : c.params.get? name = some v → Given c (.param name)
  | exported {name : String} {r : Ref} : c.exports.get? name = some r → Given c r

/-- The references to ids: those of id arguments, and the ids of documents that have been written. -/
inductive Known (c : Context) : Ref → Prop
  | given {r : Ref} : c.Given r → Known c r
  | document {var : String} : (var, .document) ∈ bindings c.statements → Known c (Ref.doc var).id

/-- The references that stand for imported fields. -/
def Imported (c : Context) (imports : List (String × Ref)) : Prop :=
  ∀ e ∈ imports, ∃ name, c.exports.get? name = some e.2

/-- A later context: what was known stays known. -/
structure Extends (c c' : Context) : Prop where
  params : ∀ {p v}, c.params.get? p = some v → c'.params.get? p = some v
  exports : ∀ {n r}, c.exports.get? n = some r → c'.exports.get? n = some r
  statements : ∀ {s}, s ∈ c.statements → s ∈ c'.statements
  write : ∀ {C}, C ∈ c.write → C ∈ c'.write
  locked : ∀ {C}, c.Locked C → c'.Locked C

/-- Of two ids the same is known, now and later. -/
def Alike (c : Context) (r r' : Ref) : Prop :=
  ∀ c', c.Extends c' → Synthesis.idKey c' r = Synthesis.idKey c' r'

/-- A document variable that has been written into a collection. -/
def Wrote (c : Context) (var collection : String) : Prop :=
  ∃ s ∈ c.statements, s.binding? = some (var, .document) ∧ s.target? = some collection

/-- The references to ids that a script knows to be ids of documents in some of the collections: the
document has been written, or it has been looked for. -/
inductive Vouches (c : Context) (collections : List String) : Ref → Prop
  | written {var collection : String} (wrote : c.Wrote var collection)
      (possible : collection ∈ collections) : Vouches c collections (Ref.doc var).id
  | checked {r r' : Ref} {message : Message} (given : c.Given r) (given' : c.Given r')
      (alike : c.Alike r r') (asserted : .assert (.missing r' collections) message ∈ c.statements) :
      Vouches c collections r

/-- The field is a list, or the last statement asserts that the source has no edge of the field. -/
def AssertsFree (s : Schema) (c : Context) (type field : String) (source : Ref) : Prop :=
  ∃ f, s.fieldDef type field = .ok f ∧
    (f.type.isList = false → ∃ message,
      c.statements.getLast? = some (.assert (.edgeExists source (edgeCollection type field)) message))

end Context

/-! ### Duties -/

/-- What a mutation still owes to the script. -/
inductive Duty where
  /-- A name that has been taken and is not bound. -/
  | bind (var : String)
  /-- A document that has been written and whose key is not checked. -/
  | key (var type : String)
  /-- A document that has been taken out, with its edges still there. -/
  | edges (var type : String)
  /-- Directives of a type that are not deferred. -/
  | directives (type : String) (id : Ref) (guard? : Option Ref)
  /-- A deleted id whose existence checks are remembered. -/
  | forget (id : Ref)
deriving Repr

/-- No deleted id is still to be forgotten. -/
def Calm (ds : List Duty) : Prop :=
  ∀ id, .forget id ∉ ds

theorem Calm.cons {ds : List Duty} (h : Calm ds) (d : Duty) (hd : ∀ id, d ≠ .forget id) :
    Calm (d :: ds) := by
  intro id hm
  rcases List.mem_cons.mp hm with same | hm
  · exact hd id same.symm
  · exact h id hm

/-- The statements that check the existence of an id. -/
def existsCheck (id : Ref) (type label : String) (collections : List String) : List Statement :=
  [.comment label, .assert (.missing id collections)
    ⟨[.text "Object '", .value id, .text s!"' does not exist as instance of {type}"]⟩]

/-- The statements that wait for the end of the script. -/
def deferral (assertions : List Statement) : Option Ref → List Statement
  | none => assertions
  | some condition => if assertions.isEmpty then [] else [.guarded condition assertions]

/-- An assertion of a directive on a field of a type, for the document `id`. -/
def IsDirectiveAssertion (s : Schema) (t : TypeDef) (type : String) (id : Ref)
    (a : Statement) : Prop :=
  ∃ f ∈ t.fields, ∃ ds, f.constraints = .ok ds ∧ ∃ d ∈ ds, ∃ check message,
    d.check? s type f id = .ok (some (check, message)) ∧ a = .assert check (.ofText message)

/-! ### Steps -/

/-- What is asked of deletions: of the checks remembered, the type and what is known of the id. -/
abbrev DeletionRule := List (IdKey × String) → String → IdKey → Prop

/-- What is asked of the mutations of a request. -/
structure Demands where
  deletion : DeletionRule
  /-- Edges may be updated. -/
  edgeUpdates : Prop

variable (m : Model) (D : Demands)

/-- `Emits m D c ds ss c' ds'`: one step adds the statements `ss` and turns the context `c` with the
duties `ds` into `c'` with `ds'`. -/
inductive Emits :
    Context → List Duty → List Statement → Context → List Duty → Prop
  | remark {c : Context} {ds : List Duty} (text : String) :
      Emits c ds [.comment text] (c.add [.comment text]) ds
  | abort {c : Context} {ds : List Duty} (text : String) :
      Emits c ds [.fail (.ofText text)] (c.add [.fail (.ofText text)]) ds
  | param {c : Context} {ds : List Duty} (v : Json)
      (free : c.params.contains (paramName c.nextParam) = false) :
      Emits c ds [] (c.addParam v) ds
  | name {c : Context} {ds : List Duty} :
      Emits c ds [] c.addVar (.bind (varName c.nextVar) :: ds)
  | lockWrite {c : Context} {ds : List Duty} (collection : String) :
      Emits c ds [] (c.lockWrite collection) ds
  | lockRead {c : Context} {ds : List Duty} (collection : String) :
      Emits c ds [] (c.lockRead collection) ds
  -- Writes bind the name that is on top of the stack and leave their own duties in its place.
  | insert {c : Context} {ds : List Duty} {var type p : String} {fields : Document}
      {imports : List (String × Ref)} (document : c.params.get? p = some (.obj fields))
      (imported : c.Imported imports) (locked : type ∈ c.write)
      (object : ∃ t, m.objectType type = .ok t) :
      Emits c (.bind var :: ds) [.insert var type (.param p) imports none]
        (c.add [.insert var type (.param p) imports none])
        (.key var type :: .directives type (Ref.doc var).id none :: ds)
  | insertEdge {c : Context} {ds : List Duty} {var type field p : String} {fields : Document}
      {imports : List (String × Ref)} {source target : Ref}
      (document : c.params.get? p = some (.obj fields)) (imported : c.Imported imports)
      (source_known : c.Known source) (target_known : c.Known target)
      (locked : edgeCollection type field ∈ c.write)
      (validated : m.settings.skipEdgeValidation = false →
        (∃ sources, m.schema.possibleCollections type = .ok sources ∧ c.Vouches sources source) ∧
          ∃ targets, c.Vouches targets target)
      (unoccupied : m.settings.skipEdgeValidation = false →
        c.AssertsFree m.schema type field source) :
      Emits c (.bind var :: ds)
        [.insert var (edgeCollection type field) (.param p) imports (some (source, target))]
        (c.add [.insert var (edgeCollection type field) (.param p) imports (some (source, target))])
        (.directives type source none :: ds)
  | update {c : Context} {var type p : String} {fields : Document}
      {imports : List (String × Ref)} {id : Ref} (document : c.params.get? p = some (.obj fields))
      (imported : c.Imported imports) (given : c.Given id) (locked : type ∈ c.write)
      (object : ∃ t, m.objectType type = .ok t) :
      Emits c [.bind var] [.update var type id (.param p) imports]
        (c.add [.update var type id (.param p) imports])
        [.key var type, .directives type (Ref.doc var).id none]
  | updateEdge {c : Context} {var type field p : String} {fields : Document}
      {imports : List (String × Ref)} {id : Ref} (document : c.params.get? p = some (.obj fields))
      (imported : c.Imported imports) (given : c.Given id)
      (locked : edgeCollection type field ∈ c.write) (allowed : D.edgeUpdates) :
      Emits c [.bind var] [.update var (edgeCollection type field) id (.param p) imports]
        (c.add [.update var (edgeCollection type field) id (.param p) imports]) []
  | remove {c : Context} {var type : String} {id : Ref} (given : c.Given id)
      (locked : type ∈ c.write) (rule : D.deletion c.memo type (Synthesis.idKey c id))
      (object : ∃ t, m.objectType type = .ok t) :
      Emits c [.bind var] [.remove var type id] (c.add [.remove var type id])
        [.edges var type, .directives type (Ref.doc var).id (some (.doc var)), .forget id]
  | removeEdge {c : Context} {var type field : String} {id : Ref} (given : c.Given id)
      (locked : edgeCollection type field ∈ c.write) :
      Emits c [.bind var] [.remove var (edgeCollection type field) id]
        (c.add [.remove var (edgeCollection type field) id])
        [.directives type (.field (.doc var) Field.source) (some (.doc var))]
  | dropEdges {c : Context} {ds : List Duty} {type field : String} {id : Ref} (given : c.Given id)
      (locked : edgeCollection type field ∈ c.write) (owed : ∃ r, .directives type r none ∈ ds) :
      Emits c ds [.removeEdges (edgeCollection type field) id .outbound]
        (c.add [.removeEdges (edgeCollection type field) id .outbound]) ds
  -- Checks, and what settles a duty.
  | assertExists {c : Context} {ds : List Duty} {id : Ref} {type label : String}
      {collections : List String} (given : c.Given id)
      (possible : m.schema.possibleCollections type = .ok collections)
      (locked : ∀ C ∈ collections, c.Locked C) :
      Emits c ds (existsCheck id type label collections)
        ((c.memoize (Synthesis.idKey c id, type)).add (existsCheck id type label collections)) ds
  | assertFree {c : Context} {ds : List Duty} {source : Ref} {collection : String} {field : String}
      (known : c.Known source) (locked : c.Locked collection) :
      Emits c ds
        [.assert (.edgeExists source collection)
          ⟨[.text s!"Edge already exists for {field} from '", .value source, .text "'"]⟩]
        (c.add [.assert (.edgeExists source collection)
          ⟨[.text s!"Edge already exists for {field} from '", .value source, .text "'"]⟩]) ds
  | export {c : Context} {ds : List Duty} {var field name : String}
      (legal : isExportName name = true) (free : c.exports.contains name = false)
      (bound : (var, .document) ∈ bindings c.statements) :
      Emits c ds [.bind name (.field (.doc var) field)]
        ((c.addExport name).add [.bind name (.field (.doc var) field)]) ds
  | assertKey {c : Context} {ds : List Duty} {var type : String} {k : TypeDef}
      (key : m.schema.keyType? type = some k) (locked : c.Locked type) :
      Emits c (.key var type :: ds)
        [.assert (.duplicateKey (.doc var) type (k.fields.map FieldDef.name))
          (.ofText s!"Duplicate key for {type}")]
        (c.add [.assert (.duplicateKey (.doc var) type (k.fields.map FieldDef.name))
          (.ofText s!"Duplicate key for {type}")]) ds
  | noKey {c : Context} {ds : List Duty} {var type : String}
      (key : m.schema.keyType? type = none) : Emits c (.key var type :: ds) [] c ds
  | clearEdges {c : Context} {ds : List Duty} {var type : String} {collections : List String}
      (edges : ∀ C ∈ collections, ∃ t f, C = edgeCollection t f)
      (locked : ∀ C ∈ collections, C ∈ c.write)
      (owed : .directives type (Ref.doc var).id (some (.doc var)) ∈ ds) :
      Emits c (.edges var type :: ds)
        [.guarded (.doc var) (collections.map fun C => .removeEdges C (Ref.doc var).id .any)]
        (c.add [.guarded (.doc var)
          (collections.map fun C => .removeEdges C (Ref.doc var).id .any)]) ds
  | defer {c : Context} {ds : List Duty} {type : String} {id : Ref} {guard? : Option Ref}
      {t : TypeDef} {assertions : List Statement} (type_def : m.schema.typeDef type = .ok t)
      (directives : ∀ a, a ∈ assertions ↔ IsDirectiveAssertion m.schema t type id a)
      (locked : ∀ check message, .assert check message ∈ assertions →
        ∀ C ∈ check.collections, c.Locked C)
      (legible : ∀ f ∈ t.fields, ∃ rules, f.constraints = .ok rules) :
      Emits c (.directives type id guard? :: ds) [] (c.addDeferred (deferral assertions guard?)) ds
  | waive {c : Context} {ds : List Duty} {type : String} {id : Ref} {guard? : Option Ref}
      (skipped : m.settings.skipDirectives = true) :
      Emits c (.directives type id guard? :: ds) [] c ds
  | forget {c : Context} {ds : List Duty} {id : Ref} :
      Emits c (.forget id :: ds) [] (c.forget id) ds

/-- An existence check that a context leaves out because it has made it before. -/
inductive Skips (c : Context) : List Statement → Prop
  | mk {id : Ref} {type label : String} {collections : List String} (given : c.Given id)
      (remembered : (Synthesis.idKey c id, type) ∈ c.memo)
      (possible : m.schema.possibleCollections type = .ok collections) :
      Skips c (existsCheck id type label collections)

/-- A sequence of steps, with the statements of a context without memory. -/
inductive Trace (c : Context) (ds : List Duty) : List Statement → Context → List Duty → Prop
  | refl : Trace c ds [] c ds
  | step {ss tt : List Statement} {c₁ c₂ : Context} {ds₁ ds₂ : List Duty} :
      Trace c ds ss c₁ ds₁ → Emits m D c₁ ds₁ tt c₂ ds₂ → Trace c ds (ss ++ tt) c₂ ds₂
  | skip {ss tt : List Statement} {c₁ : Context} {ds₁ : List Duty} :
      Trace c ds ss c₁ ds₁ → Skips m c₁ tt → Calm ds₁ → Trace c ds (ss ++ tt) c₁ ds₁

/-! ### What steps keep -/

namespace Context

theorem Extends.refl (c : Context) : c.Extends c :=
  ⟨id, id, id, id, id⟩

theorem Extends.trans {c₁ c₂ c₃ : Context} (h : c₁.Extends c₂) (h' : c₂.Extends c₃) :
    c₁.Extends c₃ :=
  ⟨fun e => h'.params (h.params e), fun e => h'.exports (h.exports e),
    fun e => h'.statements (h.statements e), fun e => h'.write (h.write e),
    fun e => h'.locked (h.locked e)⟩

theorem Extends.bindings {c c' : Context} {b : String × Holding} (h : c.Extends c')
    (hb : b ∈ bindings c.statements) : b ∈ DocGraph.bindings c'.statements := by
  obtain ⟨s, hs, hb⟩ := List.mem_filterMap.mp hb
  exact List.mem_filterMap.mpr ⟨s, h.statements hs, hb⟩

theorem Given.mono {c c' : Context} {r : Ref} (h : c.Given r) (e : c.Extends c') : c'.Given r := by
  cases h with
  | param h => exact .param (e.params h)
  | exported h => exact .exported (e.exports h)

theorem Known.mono {c c' : Context} {r : Ref} (h : c.Known r) (e : c.Extends c') : c'.Known r := by
  cases h with
  | given h => exact .given (h.mono e)
  | document h => exact .document (e.bindings h)

theorem Imported.mono {c c' : Context} {imports : List (String × Ref)} (h : c.Imported imports)
    (e : c.Extends c') : c'.Imported imports := by
  intro i hi
  obtain ⟨n, hn⟩ := h i hi
  exact ⟨n, e.exports hn⟩

theorem Alike.mono {c c' : Context} {r r' : Ref} (h : c.Alike r r') (e : c.Extends c') :
    c'.Alike r r' :=
  fun c'' e' => h c'' (e.trans e')

theorem Wrote.mono {c c' : Context} {var collection : String} (h : c.Wrote var collection)
    (e : c.Extends c') : c'.Wrote var collection := by
  obtain ⟨s, hs, writes⟩ := h
  exact ⟨s, e.statements hs, writes⟩

theorem Wrote.bound {c : Context} {var collection : String} (h : c.Wrote var collection) :
    (var, .document) ∈ DocGraph.bindings c.statements := by
  obtain ⟨s, hs, hb, _⟩ := h
  exact List.mem_filterMap.mpr ⟨s, hs, hb⟩

theorem Vouches.mono {c c' : Context} {collections : List String} {r : Ref}
    (h : c.Vouches collections r) (e : c.Extends c') : c'.Vouches collections r := by
  cases h with
  | written wrote possible => exact .written (wrote.mono e) possible
  | checked given given' alike asserted =>
      exact .checked (given.mono e) (given'.mono e) (alike.mono e) (e.statements asserted)

theorem extends_add (c : Context) (ss : List Statement) : c.Extends (c.add ss) :=
  ⟨id, id, fun h => by simpa [add] using Or.inl h, id, id⟩

theorem mem_add_existsCheck (c : Context) (id : Ref) (type label : String)
    (collections : List String) :
    ∃ message, .assert (.missing id collections) message ∈
      (c.add (existsCheck id type label collections)).statements :=
  ⟨_, List.mem_append_right _ (List.mem_cons_of_mem _ List.mem_cons_self)⟩

theorem mem_add (c : Context) (s : Statement) : s ∈ (c.add [s]).statements :=
  List.mem_append_right _ (List.mem_singleton.mpr rfl)

theorem mem_bindings_add {c : Context} {s : Statement} {b : String × Holding}
    (h : s.binding? = some b) : b ∈ DocGraph.bindings (c.add [s]).statements := by
  simp [add, DocGraph.bindings, h]

theorem extends_lockWrite (c : Context) (collection : String) :
    c.Extends (c.lockWrite collection) := by
  refine ⟨id, id, id, fun h => NameSet.mem_insert.mpr (Or.inr h), fun {C} h => ?_⟩
  by_cases hC : C = collection
  · exact Or.inl (NameSet.mem_insert.mpr (Or.inl hC))
  · rcases h with h | h
    · exact Or.inl (NameSet.mem_insert.mpr (Or.inr h))
    · exact Or.inr (NameSet.mem_erase.mpr ⟨h, hC⟩)

theorem extends_lockRead (c : Context) (collection : String) :
    c.Extends (c.lockRead collection) := by
  unfold lockRead
  split
  · exact Extends.refl c
  · refine ⟨id, id, id, id, fun h => ?_⟩
    rcases h with h | h
    · exact Or.inl h
    · exact Or.inr (NameSet.mem_insert.mpr (Or.inr h))

/-- After locking a collection for reading it is locked. -/
theorem locked_lockRead (c : Context) (collection : String) :
    (c.lockRead collection).Locked collection := by
  unfold lockRead
  split
  · rename_i h
    exact Or.inl (List.contains_iff_mem.mp h)
  · exact Or.inr (NameSet.mem_insert.mpr (Or.inl rfl))

theorem extends_memoize (c : Context) (entry : IdKey × String) : c.Extends (c.memoize entry) :=
  ⟨id, id, id, id, id⟩

theorem get?_addParam (c : Context) (v : Json) :
    (c.addParam v).params.get? (paramName c.nextParam) = some v := by
  simp [addParam, Record.get?_insert]

theorem extends_addParam {c : Context} (v : Json)
    (free : c.params.contains (paramName c.nextParam) = false) : c.Extends (c.addParam v) := by
  refine ⟨fun {p w} h => ?_, id, id, id, id⟩
  simp only [addParam, Record.get?_insert]
  rw [if_neg, h]
  rintro rfl
  simp [Record.contains, h] at free

theorem extends_addExport {c : Context} {name : String}
    (free : c.exports.contains name = false) : c.Extends (c.addExport name) := by
  refine ⟨id, fun {n r} h => ?_, id, id, id⟩
  simp only [addExport, Record.get?_insert]
  rw [if_neg, h]
  rintro rfl
  simp [Record.contains, h] at free

theorem forget_eq (c : Context) (id : Ref) : ∃ memo, c.forget id = { c with memo := memo } := by
  unfold forget
  split
  · exact ⟨_, rfl⟩
  · exact ⟨_, rfl⟩

end Context

/-- Forgetting an id does not touch a remembered check. -/
def IdKey.Spares : IdKey → IdKey × String → Prop
  | .literal i, e => e.1 ≠ .literal i
  | .place _, _ => False

theorem Context.mem_memo_forget (c : Context) (id : Ref) {e : IdKey × String} :
    e ∈ (c.forget id).memo ↔ e ∈ c.memo ∧ (Synthesis.idKey c id).Spares e := by
  unfold forget
  cases Synthesis.idKey c id with
  | literal i => simp [IdKey.Spares]
  | place text => simp [IdKey.Spares]

/-- A step adds its statements at the end. -/
theorem Emits.statements_eq {m : Model} {D : Demands} {c c' : Context} {ds ds' : List Duty}
    {ss : List Statement} (h : Emits m D c ds ss c' ds') : c'.statements = c.statements ++ ss := by
  cases h with
  | lockRead C =>
      unfold Context.lockRead
      split <;> exact (List.append_nil _).symm
  | forget =>
      obtain ⟨memo, e⟩ := c.forget_eq _
      rw [e, List.append_nil]
  | param | name | lockWrite | noKey | defer | waive => exact (List.append_nil _).symm
  | remark | abort | insert | insertEdge | update | updateEdge | remove | removeEdge | dropEdges
  | assertExists | assertFree | «export» | assertKey | clearEdges => rfl

theorem Emits.extends {m : Model} {D : Demands} {c c' : Context} {ds ds' : List Duty}
    {ss : List Statement} (h : Emits m D c ds ss c' ds') : c.Extends c' := by
  cases h with
  | param v free => exact Context.extends_addParam v free
  | lockWrite C => exact c.extends_lockWrite C
  | lockRead C => exact c.extends_lockRead C
  | «export» legal free bound =>
      exact (Context.extends_addExport free).trans (Context.extends_add _ _)
  | assertExists => exact (c.extends_memoize _).trans (Context.extends_add _ _)
  | forget =>
      obtain ⟨memo, e⟩ := c.forget_eq _
      rw [e]
      exact ⟨id, id, id, id, id⟩
  | name | defer | waive | noKey => exact ⟨id, id, id, id, id⟩
  | remark | abort | insert | insertEdge | update | updateEdge | remove | removeEdge | dropEdges
  | assertFree | assertKey | clearEdges => exact c.extends_add _

theorem Trace.extends {m : Model} {D : Demands} {c c' : Context} {ds ds' : List Duty}
    {ss : List Statement} (h : Trace m D c ds ss c' ds') : c.Extends c' := by
  induction h with
  | refl => exact .refl c
  | step _ h ih => exact ih.trans h.extends
  | skip _ _ _ ih => exact ih

/-- What every step keeps, a trace keeps. -/
theorem Trace.invariant {m : Model} {D : Demands} {c c' : Context} {ds ds' : List Duty}
    {ss : List Statement} {I : Context → List Duty → Prop} (h : Trace m D c ds ss c' ds')
    (step : ∀ {c c' : Context} {ds ds' : List Duty} {ss : List Statement},
      Emits m D c ds ss c' ds' → I c ds → I c' ds') (start : I c ds) : I c' ds' := by
  induction h with
  | refl => exact start
  | step _ e ih => exact step e ih
  | skip _ _ _ ih => exact ih

theorem Trace.trans {m : Model} {D : Demands} {c₁ c₂ c₃ : Context} {ds₁ ds₂ ds₃ : List Duty}
    {ss tt : List Statement} (h : Trace m D c₁ ds₁ ss c₂ ds₂) (h' : Trace m D c₂ ds₂ tt c₃ ds₃) :
    Trace m D c₁ ds₁ (ss ++ tt) c₃ ds₃ := by
  induction h' with
  | refl => simpa using h
  | step _ e ih => simpa using ih.step e
  | skip _ e calm ih => simpa using ih.skip e calm

/-- What is known of an id argument stays the same. -/
theorem Context.Given.idKey_eq {c c' : Context} {r : Ref} (given : c.Given r)
    (exported : ∀ {n r}, c.exports.get? n = some r → r = .exported n) (e : c.Extends c') :
    Synthesis.idKey c' r = Synthesis.idKey c r := by
  cases given with
  | param h => rw [Synthesis.idKey, Synthesis.idKey, h, e.params h]
  | exported h =>
      obtain rfl := exported h
      rfl

/-- A check that has been made: its collections are locked and the script has it. -/
structure Context.Made (s : Schema) (c : Context) (e : IdKey × String) (collections : List String) :
    Prop where
  possible : s.possibleCollections e.2 = .ok collections
  locked : ∀ C ∈ collections, c.Locked C
  asserted : ∃ r message, c.Given r ∧ Synthesis.idKey c r = e.1 ∧
    .assert (.missing r collections) message ∈ c.statements

theorem Context.Made.mono {s : Schema} {c c' : Context} {e : IdKey × String}
    {collections : List String} (h : c.Made s e collections)
    (exported : ∀ {n r}, c.exports.get? n = some r → r = .exported n) (ext : c.Extends c') :
    c'.Made s e collections where
  possible := h.possible
  locked C hC := ext.locked (h.locked C hC)
  asserted := by
    obtain ⟨r, message, given, key, asserted⟩ := h.asserted
    exact ⟨r, message, given.mono ext, (given.idKey_eq exported ext).trans key,
      ext.statements asserted⟩

/-- What holds of a context at all times: exports stand for themselves, and every check that is
remembered has been made. -/
structure Context.Tidy (s : Schema) (c : Context) : Prop where
  sorted : NameSet.Sorted c.read
  exported : ∀ {n r}, c.exports.get? n = some r → r = .exported n
  made : ∀ e ∈ c.memo, ∃ collections, c.Made s e collections

theorem Context.Tidy.empty (s : Schema) (number : Nat) (remembers : Bool) :
    (Context.empty number remembers).Tidy s where
  sorted := List.Pairwise.nil
  exported h := by cases h
  made _ h := by cases h

/-- Locks only grow, so that a context with fewer memories and more locks is tidy too. -/
theorem Context.Tidy.of_extends {s : Schema} {c c' : Context} (h : c.Tidy s) (e : c.Extends c')
    (sorted : NameSet.Sorted c'.read) (exports : c'.exports = c.exports)
    (memo : ∀ x ∈ c'.memo, x ∈ c.memo) : c'.Tidy s := by
  refine ⟨sorted, fun hn => h.exported (exports ▸ hn), fun x hx => ?_⟩
  obtain ⟨collections, made⟩ := h.made x (memo x hx)
  exact ⟨collections, made.mono h.exported e⟩

theorem Emits.tidy {m : Model} {D : Demands} {c c' : Context} {ds ds' : List Duty}
    {ss : List Statement} (h : Emits m D c ds ss c' ds') (t : c.Tidy m.schema) : c'.Tidy m.schema := by
  have e := h.extends
  cases h with
  | lockWrite C => exact t.of_extends e (t.sorted.erase C) rfl fun _ h => h
  | lockRead C =>
      by_cases hC : c.write.contains C = true
      · have hc : c.lockRead C = c := if_pos hC
        rw [hc]
        exact t
      · have hc : c.lockRead C = { c with read := NameSet.insert c.read C } := if_neg hC
        rw [hc] at e ⊢
        exact t.of_extends e (t.sorted.insert C) rfl fun _ h => h
  | «export» legal free bound =>
      refine ⟨t.sorted, fun {n r} h => ?_, fun x hx => ?_⟩
      · simp only [Context.add, Context.addExport, Record.get?_insert] at h
        split at h
        · rename_i hn
          rw [hn, Option.some.inj h]
        · exact t.exported h
      · obtain ⟨collections, made⟩ := t.made x hx
        exact ⟨collections, made.mono t.exported e⟩
  | @assertExists _ i ty _ cs given possible locked =>
      refine ⟨t.sorted, t.exported, fun x hx => ?_⟩
      have old : x ∈ c.memo → ∃ collections, Context.Made m.schema _ x collections := fun hx => by
        obtain ⟨collections, made⟩ := t.made x hx
        exact ⟨collections, made.mono t.exported e⟩
      simp only [Context.add, Context.memoize] at hx
      split at hx
      · rcases List.mem_append.mp hx with hx | hx
        · exact old hx
        · rw [List.mem_singleton.mp hx]
          obtain ⟨message, asserted⟩ := Context.mem_add_existsCheck (c.memoize _) i ty _ cs
          exact ⟨cs, possible, fun C hC => e.locked (locked C hC), i, message, given.mono e,
            given.idKey_eq t.exported e, asserted⟩
      · exact old hx
  | @forget _ i =>
      refine t.of_extends e ?_ ?_ ?_
      · obtain ⟨memo, h⟩ := c.forget_eq i
        rw [h]
        exact t.sorted
      · obtain ⟨memo, h⟩ := c.forget_eq i
        rw [h]
      · exact fun x hx => ((c.mem_memo_forget i).mp hx).1
  | remark | abort | param | name | insert | insertEdge | update | updateEdge | remove | removeEdge
  | dropEdges | assertFree | assertKey | noKey | clearEdges | defer | waive =>
      exact t.of_extends e t.sorted rfl fun _ h => h

theorem Trace.tidy {m : Model} {D : Demands} {c c' : Context} {ds ds' : List Duty}
    {ss : List Statement} (h : Trace m D c ds ss c' ds') (t : c.Tidy m.schema) : c'.Tidy m.schema :=
  h.invariant (I := fun c _ => c.Tidy m.schema) (fun e t => e.tidy t) t

end DocGraph
