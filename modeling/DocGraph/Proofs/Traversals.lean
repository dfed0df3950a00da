import DocGraph.Proofs.Engines
import DocGraph.Proofs.Paging
import DocGraph.Proofs.Required

/-! # Traversals in both directions

An edge field is followed from the source of its edges, and its reverse field from their target. The two
find their collection in different ways, look at opposite ends of the edges, and look up what is at the
other end by its id. Each finds a document as often as there are edges (`Database.Reachable.occursIn`), as
long as the id of the document leads back to it. So the two agree: `endpoints_converse`. -/

namespace DocGraph

variable {m : Model} {s : Session} {db : Database} {a b d : Document} {C U i : String}

/-! ### Documents by their ids -/

/-- What an id means has that id. -/
theorem Database.Reachable.text?_of_document? (h : db.Reachable) (found : db.store.document? i = some d) :
    d.text? Field.id = some i := by
  unfold Store.document? at found
  split at found
  · rename_i id parsed
    rw [← Store.get?_documents] at found
    have stored := h.keyed _ _ (NameMap.mem_of_get? found)
    rw [Document.text?, stored, text_of_parse parsed]
    rfl
  · cases found

/-- The id of a document in a collection of a proper name means the document. -/
theorem Database.Reachable.document?_of_mem (h : db.Reachable) (proper : IsCollectionName U)
    (hb : b ∈ NameMap.values (db.store.documents U)) :
    ∃ i, b.text? Field.id = some i ∧ db.store.document? i = some b := by
  obtain ⟨e, he, rfl⟩ := List.mem_map.mp hb
  obtain ⟨n, key, id⟩ := h.exists_id he
  refine ⟨_, Document.read_eq_str.mp id, ?_⟩
  obtain ⟨read, parsed, collection, same⟩ := (text_ofKey_eq_iff proper (toString_ne_empty n)).mp rfl
  unfold Store.document?
  rw [parsed]
  dsimp only
  rw [← Store.get?_documents, collection, same, ← key]
  exact (h.ordered U).get?_of_mem he

/-! ### What a traversal finds -/

/-- What the edges of a collection at one document lead to, once for each of them. -/
def Store.neighbours (store : Store) (C : String) (direction : Direction) (start : String) :
    List Document :=
  ((NameMap.values (store.documents C)).filter fun e => e.text? direction.near == some start).filterMap
    fun e => (e.text? direction.far).bind store.document?

theorem Store.answer_traversal {store : Store} (there : (store.collection? C).isSome = true)
    (direction : Direction) (start : String) :
    store.answer (ReadQuery.ofSource (.traversal start direction [C] .vertex) documentRow) =
      .ok ((store.neighbours C direction start).map .obj) := by
  have rows : store.rows [C] = .ok (NameMap.values (store.documents C)) := by
    rw [Store.rows_eq fun D hD => List.mem_singleton.mp hD ▸ there]
    simp
  simp [answer, ReadQuery.ofSource, sourceRows, edgesAt, rows, Except.map, bind, Except.bind, pure,
    Except.pure, Condition.allHold, rowsAfter, limited, follow, neighbours]

/-- A document is among rows so many times: that many have its id, and they are the document. -/
def Document.OccursIn (d : Document) (n : Nat) (rows : List Document) : Prop :=
  rows.filter (fun e => e.text? Field.id == d.text? Field.id) = List.replicate n d

/-- A traversal finds a document as often as edges lead to it. -/
theorem Database.Reachable.occursIn (h : db.Reachable) (proper : IsCollectionName U)
    (hb : b ∈ NameMap.values (db.store.documents U)) (direction : Direction) (C start : String) :
    b.OccursIn ((NameMap.values (db.store.documents C)).countP fun e =>
      e.text? direction.near == some start && e.text? direction.far == b.text? Field.id)
      (db.store.neighbours C direction start) := by
  obtain ⟨i, id, found⟩ := h.document?_of_mem proper hb
  unfold Document.OccursIn Store.neighbours
  rw [id]
  induction NameMap.values (db.store.documents C) with
  | nil => rfl
  | cons e edges ih =>
      by_cases near : (e.text? direction.near == some start) = true
      · by_cases far : e.text? direction.far = some i
        · simpa [near, far, found, id, List.replicate_succ] using ih
        · -- The edge leads to nothing, or to a document of another id.
          rcases other : (e.text? direction.far).bind db.store.document? with _ | d
          · simpa [near, far, other] using ih
          · obtain ⟨j, at_end, there⟩ := Option.bind_eq_some_iff.mp other
            have elsewhere : j ≠ i := fun same => far (same ▸ at_end)
            simpa [near, far, other, h.text?_of_document? there, elsewhere] using ih
      · simpa [near] using ih

/-! ### Reads of a session -/

theorem FieldDef.reverseEdge?_eq_none {f : FieldDef} (plain : Text.startsWith f.name "_" = false) :
    f.reverseEdge? = none := by
  simp [reverseEdge?, Text.dropStart?, plain]

/-- A field whose name is not marked is followed along its own edges. -/
theorem Schema.endpointQuery_forward {schema : Schema} {type field : String} {f : FieldDef}
    (known : schema.fieldDef type field = .ok f) (plain : Text.startsWith field "_" = false) (i : String) :
    schema.endpointQuery type i field none =
      .ok (ReadQuery.ofSource (.traversal i .outbound [edgeCollection type field] .vertex) documentRow,
        f.type.isList) := by
  rw [← name_of_fieldDef known] at plain
  simp [endpointQuery, known, FieldDef.reverseEdge?_eq_none plain, filterConditions, bind, Except.bind, pure,
    Except.pure]
  rfl

/-- The reverse of a field of an object type is followed against the edges of that field. -/
theorem Schema.endpointQuery_reverse {schema : Schema} {type field source : String} {r : FieldDef}
    {t : TypeDef} (known : schema.fieldDef type ("_" ++ field ++ "From" ++ source) = .ok r)
    (base : r.type.base = source) (named : field ≠ "") (found : schema.typeDef source = .ok t)
    (object : t.kind = .object) (i : String) :
    schema.endpointQuery type i ("_" ++ field ++ "From" ++ source) none =
      .ok (ReadQuery.ofSource (.traversal i .inbound [edgeCollection source field] .vertex) documentRow,
        r.type.isList) := by
  have reversed := FieldDef.reverseEdge?_eq (name_of_fieldDef known) base named
  simp [endpointQuery, known, reversed, filterConditions, possibleEdgeCollections,
    possibleTypes_of_object found object, name_of_typeDef found, Except.map, bind, Except.bind, pure,
    Except.pure]
  rfl

/-- The rows behind the documents at the other end of an edge field, with none of them left out. -/
def Session.endpointRows (s : Session) (parent : Document) (type field : String) :
    Except Error (List Json) := do
  let id ← parentId parent
  let q ← s.model.schema.endpointQuery type id field none
  s.engine.database.store.answer q.1

/-- What is at the other end of a field is what a traversal of one collection finds, in the shape of the
field. -/
theorem Session.outcome_endpoint {type field : String} {f : FieldDef} {direction : Direction}
    (real : s.engine.nextRows = none) (id : a.text? Field.id = some i)
    (made : s.model.schema.endpointQuery type i field none =
      .ok (ReadQuery.ofSource (.traversal i direction [C] .vertex) documentRow, f.type.isList))
    (there : (s.engine.database.store.collection? C).isSome = true) :
    s.endpointRows a type field = .ok ((s.engine.database.store.neighbours C direction i).map .obj) ∧
      outcome (Session.endpoint a type field none) s =
        (.ok (.ofRows (s.engine.database.store.neighbours C direction i) f.type.isList), s) := by
  have parent : parentId a = .ok i := by
    unfold parentId
    rw [id]
  have answer := Store.answer_traversal there direction i
  constructor
  · simp [endpointRows, parent, made, answer, bind, Except.bind]
  · unfold Session.endpoint
    rw [parent]
    refine (outcome_bind_of_ok (a := i) (t := s) rfl _).trans ?_
    rw [outcome_bind_of_ok (outcome_get s), made]
    refine (outcome_bind_of_ok (t := s) rfl _).trans ?_
    exact outcome_bind_of_ok (outcome_documents real answer) _

/-! ### Both directions -/

/-- How many edges of a collection lead from one document to another. -/
def Store.edgesBetween (store : Store) (C : String) (a b : Document) : Nat :=
  (NameMap.values (store.documents C)).countP fun e =>
    e.text? Field.source == a.text? Field.id && e.text? Field.target == b.text? Field.id

/-- Where there are documents of a stored type, there is a collection for the edges of each of its edge
fields. -/
theorem Session.Reachable.isSome_edgeCollection {kind : EngineKind} {S : String} {t : TypeDef} {f : FieldDef}
    (h : Session.Reachable m kind s) (found : m.schema.typeDef S = .ok t)
    (stored : Schema.isStored t = true) (field : f ∈ t.fields) (forward : m.schema.IsForward f)
    (ha : a ∈ NameMap.values (s.engine.database.store.documents S)) :
    (s.engine.database.store.collection? (edgeCollection S f.name)).isSome = true := by
  obtain ⟨e, he, rfl⟩ := List.mem_map.mp ha
  obtain ⟨c, there⟩ := Store.exists_of_mem_documents he
  rcases h.collections with none | all
  · cases (none S).symm.trans there
  · rw [all]
    refine ⟨t, Schema.mem_types_of_typeDef found, stored, .inr ⟨f, field, forward, ?_⟩⟩
    rw [Schema.name_of_typeDef found]

/-- A stored type has an edge field, and another type has the reverse of that field. -/
structure Schema.Pairs (s : Schema) (S f U : String) (t : TypeDef) (field reverse : FieldDef) : Prop where
  source : s.typeDef S = .ok t
  stored : isStored t = true
  known : s.fieldDef S f = .ok field
  forward : s.IsForward field
  back : s.fieldDef U ("_" ++ f ++ "From" ++ S) = .ok reverse
  base : reverse.type.base = S

/-- Traversals of a field and of its reverse field are converse. In every session that can be reached, a
document is found from another through an edge field as many times as the other is found from it through the
reverse field, and both are as many as there are edges from the other to it. (The names of the two types are
not empty and have no slash, and that of the field is not empty.) -/
theorem endpoints_converse (m : Model) (kind : EngineKind) (s : Session) (S U f : String) (t : TypeDef)
    (field reverse : FieldDef) (a b : Document) (reachable : Session.Reachable m kind s)
    (pairs : m.schema.Pairs S f U t field reverse) (properS : IsCollectionName S)
    (properU : IsCollectionName U) (named : f ≠ "")
    (ha : a ∈ NameMap.values (s.engine.database.store.documents S))
    (hb : b ∈ NameMap.values (s.engine.database.store.documents U)) :
    ∃ rows rows', s.endpointRows a S f = .ok (rows.map .obj) ∧
      outcome (Session.endpoint a S f none) s = (.ok (.ofRows rows field.type.isList), s) ∧
      s.endpointRows b U ("_" ++ f ++ "From" ++ S) = .ok (rows'.map .obj) ∧
      outcome (Session.endpoint b U ("_" ++ f ++ "From" ++ S) none) s =
        (.ok (.ofRows rows' reverse.type.isList), s) ∧
      b.OccursIn (s.engine.database.store.edgesBetween (edgeCollection S f) a b) rows ∧
      a.OccursIn (s.engine.database.store.edgesBetween (edgeCollection S f) a b) rows' := by
  have real := reachable.nextRows
  have schema := reachable.schema
  have object := Schema.kind_of_isStored pairs.stored
  have name := Schema.name_of_fieldDef pairs.known
  have there := reachable.isSome_edgeCollection pairs.source pairs.stored
    (Schema.mem_fields_of_fieldDef pairs.source pairs.known) pairs.forward ha
  rw [name] at there
  obtain ⟨i, id, _⟩ := reachable.database.document?_of_mem properS ha
  obtain ⟨j, id', _⟩ := reachable.database.document?_of_mem properU hb
  have out := Schema.endpointQuery_forward pairs.known (name ▸ pairs.forward.1) i
  have back := Schema.endpointQuery_reverse pairs.back pairs.base named pairs.source object j
  rw [← schema] at out back
  obtain ⟨rows, found⟩ := Session.outcome_endpoint real id out there
  obtain ⟨rows', found'⟩ := Session.outcome_endpoint real id' back there
  refine ⟨_, _, rows, found, rows', found', ?_, ?_⟩
  · have occurs := reachable.database.occursIn properU hb .outbound (edgeCollection S f) i
    rw [← id] at occurs
    exact occurs
  · have occurs := reachable.database.occursIn properS ha .inbound (edgeCollection S f) j
    rw [← id'] at occurs
    unfold Store.edgesBetween
    simp only [Bool.and_comm (_ == a.text? Field.id)]
    exact occurs

/-- The first document of a collection of an id. -/
def Session.documentWithId? (s : Session) (C i : String) : Option Document :=
  (NameMap.values (s.engine.database.store.documents C)).find? fun d => d.text? Field.id == some i

/-- Persons, with the persons that they know and those that they are known by. -/
def villagers : Model where
  schema := .ofTypes [
    ⟨"Person", .object, [⟨"name", .named "String", []⟩, ⟨"knows", .list (.named "Person"), []⟩,
      ⟨"_knowsFromPerson", .list (.named "Person"), []⟩], [], [], []⟩]
  settings := .default
  now := 0

/-- A person who knows another one twice. -/
def village : Option Session :=
  Session.after? villagers [
    (Mutation.create "Person" [("name", .str "Ann"),
      ("knows", .list [.obj [("create", .obj [("name", .str "Ben")])]])]).request,
    (Mutation.createEdge "Person" "knows" (.str "Person/1") (.str "Person/2") []).request]

theorem endpoints_converse_village :
    ∃ s a b rows rows', Session.Reachable villagers .plain s ∧ a.text? Field.id = some "Person/1" ∧
      b.text? Field.id = some "Person/2" ∧
      s.endpointRows a "Person" "knows" = .ok (rows.map .obj) ∧
      s.endpointRows b "Person" "_knowsFromPerson" = .ok (rows'.map .obj) ∧
      b.OccursIn 2 rows ∧ a.OccursIn 2 rows' := by
  have counted : (village.bind fun s => (s.documentWithId? "Person" "Person/1").bind fun a =>
      (s.documentWithId? "Person" "Person/2").map fun b =>
        s.engine.database.store.edgesBetween "KnowsEdgeFromPerson" a b) = some 2 := by
    decide +kernel
  obtain ⟨s, made, counted⟩ := Option.bind_eq_some_iff.mp counted
  obtain ⟨a, first, counted⟩ := Option.bind_eq_some_iff.mp counted
  obtain ⟨b, second, counted⟩ := Option.map_eq_some_iff.mp counted
  have reachable : Session.Reachable villagers .plain s := Session.reachable_of_after made
  obtain ⟨rows, rows', found, _, found', _, occurs, occurs'⟩ := endpoints_converse villagers .plain s
    "Person" "Person" "knows" _ _ _ a b reachable
    ⟨rfl, by decide +kernel, rfl, ⟨rfl, rfl⟩, rfl, rfl⟩ (by decide) (by decide) (by decide)
    (List.mem_of_find?_eq_some first) (List.mem_of_find?_eq_some second)
  have same : edgeCollection "Person" "knows" = "KnowsEdgeFromPerson" := by decide +kernel
  rw [same, counted] at occurs occurs'
  exact ⟨s, a, b, rows, rows', reachable, by simpa using List.find?_some first,
    by simpa using List.find?_some second, found, found', occurs, occurs'⟩

/-- A type with a field that leads to persons, and the reverse field of persons. -/
def staffed (type field : String) : Model where
  schema := .ofTypes [
    ⟨type, .object, [⟨field, .list (.named "Person"), []⟩], [], [], []⟩,
    ⟨"Person", .object, [⟨"_" ++ field ++ "From" ++ type, .list (.named type), []⟩], [], [], []⟩]
  settings := .default
  now := 0

/-- An object of the type with a person. -/
def staff (type field : String) : Option Session :=
  Session.after? (staffed type field)
    [(Mutation.create type [(field, .list [.obj [("create", .obj [])]])]).request]

/-- Where the name of a type has a slash, the ids of its documents are read as ids of another collection,
so that the way back finds nothing. And the reverse of a field without a name does not count as one, so that
the way back looks for a collection that is not there. -/
theorem endpoints_one_way :
    (∃ t f r s a b, (staffed "Dept/A" "staff").schema.Pairs "Dept/A" "staff" "Person" t f r ∧
      Session.Reachable (staffed "Dept/A" "staff") .plain s ∧
      a ∈ NameMap.values (s.engine.database.store.documents "Dept/A") ∧
      b ∈ NameMap.values (s.engine.database.store.documents "Person") ∧
      s.engine.database.store.edgesBetween (edgeCollection "Dept/A" "staff") a b = 1 ∧
      s.endpointRows b "Person" "_staffFromDept/A" = .ok []) ∧
    ∃ t f r s b e, (staffed "Dept" "").schema.Pairs "Dept" "" "Person" t f r ∧
      Session.Reachable (staffed "Dept" "") .plain s ∧
      b ∈ NameMap.values (s.engine.database.store.documents "Person") ∧
      s.endpointRows b "Person" "_FromDept" = .error e := by
  have slash : ((staff "Dept/A" "staff").bind fun s => (s.documentWithId? "Dept/A" "Dept/A/1").bind fun a =>
      (s.documentWithId? "Person" "Person/2").map fun b =>
        (s.engine.database.store.edgesBetween (edgeCollection "Dept/A" "staff") a b,
          (s.endpointRows b "Person" "_staffFromDept/A").toOption.map List.length)) = some (1, some 0) := by
    decide +kernel
  have nameless : ((staff "Dept" "").bind fun s => (s.documentWithId? "Person" "Person/2").map fun b =>
      (s.endpointRows b "Person" "_FromDept").toOption.isSome) = some false := by
    decide +kernel
  refine ⟨?_, ?_⟩
  · obtain ⟨s, made, slash⟩ := Option.bind_eq_some_iff.mp slash
    obtain ⟨a, first, slash⟩ := Option.bind_eq_some_iff.mp slash
    obtain ⟨b, second, slash⟩ := Option.map_eq_some_iff.mp slash
    obtain ⟨between, nothing⟩ := Prod.mk.inj slash
    refine ⟨_, _, _, s, a, b, ⟨rfl, by decide +kernel, rfl, ⟨rfl, rfl⟩, rfl, rfl⟩,
      Session.reachable_of_after made, List.mem_of_find?_eq_some first, List.mem_of_find?_eq_some second,
      between, ?_⟩
    rcases found : s.endpointRows b "Person" "_staffFromDept/A" with e | rows
    · rw [found] at nothing
      cases nothing
    · rw [found] at nothing
      exact congrArg Except.ok (List.length_eq_zero_iff.mp (Option.some.inj nothing))
  · obtain ⟨s, made, nameless⟩ := Option.bind_eq_some_iff.mp nameless
    obtain ⟨b, second, nothing⟩ := Option.map_eq_some_iff.mp nameless
    rcases found : s.endpointRows b "Person" "_FromDept" with e | rows
    · exact ⟨_, _, _, s, b, e, ⟨rfl, by decide +kernel, rfl, ⟨rfl, rfl⟩, rfl, rfl⟩,
        Session.reachable_of_after made, List.mem_of_find?_eq_some second, found⟩
    · rw [found] at nothing
      cases nothing

end DocGraph
