import DocGraph.Proofs.Edges

/-! # Directives about the targets of edges

A check at the end of a request looks at the edges of the documents that the request has touched, and
counts only targets that exist. Yet what it rules out stays ruled out in the whole store. Of two edges
that end at one document, either one is new, and then its source has been checked; or both were there
before, and then so was the document, since an id that has lost its document never gets one again:
`Course.checked_or_both_old`. From this it follows for every session that can be reached that the edges
of a field with `@distinct` are distinct (`reachable_distinct_targets`) and that those of a field with
`@uniqueForTarget`, or of all fields that have it from an interface, have unique targets
(`reachable_unique_targets`). -/

namespace DocGraph

variable {m : Model} {schema : Schema} {c : Context} {ss : List Statement} {db : Database} {run : Run}
  {store : Store} {C C' i : String} {number : Nat} {remembers : Bool}
  {answers : List (String × String)} {a b : String × Document}

/-! ### Edges to the same document -/

/-- The source of an edge has been checked with the directives of a type. -/
def Store.Checked (schema : Schema) (store : Store) (C : String) (d : Document) : Prop :=
  ∃ type field s, C = edgeCollection type field ∧ d.text? Field.source = some s ∧
    store.Upholds schema type (.str s)

theorem Linked.exists_source {k : Nat} {d : Document} (h : Linked schema k C d) :
    ∃ s, d.read Field.source = .str s := by
  obtain ⟨_, _, _, _, s, _, _, _, source, _⟩ := h.source
  exact ⟨s, Document.read_of_get? source⟩

theorem Linked.issued_target {k : Nat} {d : Document} (h : Linked schema k C d)
    (target : d.read Field.target = .str i) : ∃ B, IssuedIn k B i := by
  obtain ⟨B, j, get, given⟩ := h.target
  cases target.symm.trans (Document.read_of_get? get)
  exact ⟨B, given⟩

/-- Of two edges that end at one document, one has been checked, or both were there before and so was
the document. -/
theorem Course.checked_or_both_old (course : Course m .fixedEdges number remembers c ss answers)
    (validating : m.settings.skipEdgeValidation = false)
    (checking : m.settings.skipDirectives = false) (free : m.schema.Free C)
    (free' : m.schema.Free C') (linked : db.Linked m.schema) (finishes : Finishes m.schema c db run)
    (ha : a ∈ run.store.documents C) (hb : b ∈ run.store.documents C')
    (target : Document.read a.2 Field.target = .str i)
    (existing : (run.store.document? i).isSome = true) :
    run.store.Checked m.schema C a.2 ∨ run.store.Checked m.schema C' b.2 ∨
      a ∈ db.store.documents C ∧ b ∈ db.store.documents C' ∧
        (db.store.document? i).isSome = true := by
  have after := course.linked id validating linked finishes.ran
  have checked_or_old : ∀ {C : String} {d : String × Document}, m.schema.Free C →
      d ∈ run.store.documents C → run.store.Checked m.schema C d.2 ∨ d ∈ db.store.documents C := by
    intro C d free hd
    rcases course.checked_or_old id checking free finishes hd with old | ⟨type, field, same, upheld⟩
    · exact Or.inr old
    · obtain ⟨s, source⟩ := (after.edges C free d hd).exists_source
      rw [source] at upheld
      exact Or.inl ⟨type, field, s, same, Document.read_eq_str.mp source, upheld⟩
  rcases checked_or_old free ha with checked | old
  · exact Or.inl checked
  · rcases checked_or_old free' hb with checked | old'
    · exact Or.inr (Or.inl checked)
    · obtain ⟨B, given⟩ := (linked.edges C free a old).issued_target target
      exact Or.inr (Or.inr ⟨old, old', finishes.ran.isSome_document? linked.issued given existing⟩)

/-! ### Distinct targets -/

/-- No two edges of a collection have the same source and the same target, if that is the id of a
document. -/
def Store.DistinctTargets (store : Store) (C : String) : Prop :=
  ∀ a ∈ store.documents C, ∀ b ∈ store.documents C, ∀ i,
    Document.read a.2 Field.source = Document.read b.2 Field.source →
      Document.read a.2 Field.target = .str i → Document.read b.2 Field.target = .str i →
        (store.document? i).isSome = true → a.1 = b.1

/-- Stored documents are the same if their ids are. -/
theorem eq_of_id_eq {lastKey : Nat} (keyed : store.Keyed) (issued : store.Issued lastKey)
    (ha : a ∈ store.documents C) (hb : b ∈ store.documents C')
    (same : Document.id a.2 = Document.id b.2) : C = C' ∧ a.1 = b.1 := by
  rw [keyed.id_eq ha, keyed.id_eq hb] at same
  obtain ⟨n, _, key⟩ := issued C a ha
  obtain ⟨n', _, key'⟩ := issued C' b hb
  rw [key, key'] at same ⊢
  obtain ⟨rfl, rfl⟩ := ofKey_toString_inj (Json.str.inj same)
  exact ⟨rfl, rfl⟩

section distinct

variable {T : String} {t : TypeDef} {f : FieldDef}

/-- Among the edges of a source that has been checked, targets are distinct. -/
theorem Store.Checked.eq_of_distinct {d : Document}
    (h : store.Checked schema (edgeCollection T f.name) d) (type_def : schema.typeDef T = .ok t)
    (hf : f ∈ t.fields) (carries : f.Carries .distinct)
    (own : schema.OnlyFrom T (edgeCollection T f.name))
    (ha : a ∈ store.documents (edgeCollection T f.name))
    (hb : b ∈ store.documents (edgeCollection T f.name))
    (source_a : Document.read a.2 Field.source = d.read Field.source)
    (source_b : Document.read b.2 Field.source = d.read Field.source)
    (target_a : Document.read a.2 Field.target = .str i)
    (target_b : Document.read b.2 Field.target = .str i)
    (existing : (store.document? i).isSome = true) : a.2 = b.2 := by
  obtain ⟨type, field, s, same, source, upheld⟩ := h
  obtain ⟨u, hu, _, rfl⟩ := upheld.exists_type
  rw [own u hu field same.symm] at upheld
  obtain ⟨scope, id, value, clean⟩ := upheld.clean type_def hf carries
  have read := Document.read_eq_str.mpr source
  exact eq_of_duplicateTarget_clean (clean _ _ rfl) value ha hb
    (Document.read_eq_str.mp (source_a.trans read)) (Document.read_eq_str.mp (source_b.trans read))
    (Document.read_eq_str.mp target_a) (Document.read_eq_str.mp target_b) existing

/-- A transaction keeps targets distinct. -/
theorem Course.distinctTargets (course : Course m .fixedEdges number remembers c ss answers)
    (validating : m.settings.skipEdgeValidation = false)
    (checking : m.settings.skipDirectives = false) (type_def : m.schema.typeDef T = .ok t)
    (hf : f ∈ t.fields) (carries : f.Carries .distinct)
    (own : m.schema.OnlyFrom T (edgeCollection T f.name))
    (free : m.schema.Free (edgeCollection T f.name)) (linked : db.Linked m.schema)
    (finishes : Finishes m.schema c db run)
    (h : db.store.DistinctTargets (edgeCollection T f.name)) :
    run.store.DistinctTargets (edgeCollection T f.name) := by
  have after := course.linked id validating linked finishes.ran
  intro a ha b hb i sources target_a target_b existing
  have checked : ∀ {d : Document}, run.store.Checked m.schema (edgeCollection T f.name) d →
      Document.read a.2 Field.source = d.read Field.source → a.1 = b.1 := by
    intro d checked source
    have same := checked.eq_of_distinct type_def hf carries own ha hb source
      (sources.symm.trans source) target_a target_b existing
    exact (eq_of_id_eq after.keyed after.issued ha hb (by rw [same])).2
  rcases course.checked_or_both_old validating checking free free linked finishes ha hb target_a
    existing with new | new | ⟨ha, hb, existing⟩
  · exact checked new rfl
  · exact checked new sources
  · exact h a ha b hb i sources target_a target_b existing

end distinct

/-- In every session that can be reached without updates of edges, and with edges validated and
directives checked: if a field of an object type has `@distinct`, and no other type has edges in its
collection and no object type the name of the collection, then no two edges of the collection have the
same source and the same target, unless the target does not exist. -/
theorem reachable_distinct_targets (m : Model) (kind : EngineKind) (s : Session)
    (reachable : Session.ReachableBy (fun mutation => mutation.updatesEdge = false) m kind s)
    (validating : m.settings.skipEdgeValidation = false)
    (checking : m.settings.skipDirectives = false) (T : String) (t : TypeDef) (f : FieldDef)
    (object : m.objectType T = .ok t) (hf : f ∈ t.fields) (carries : f.Carries .distinct)
    (own : m.schema.OnlyFrom T (edgeCollection T f.name))
    (free : m.schema.Free (edgeCollection T f.name)) :
    s.engine.database.store.DistinctTargets (edgeCollection T f.name) := by
  have type_def := (Model.typeDef_of_objectType object).1
  refine (reachable.maintains (P := fun store => store.DistinctTargets (edgeCollection T f.name))
    validating (fun store vacant a ha => ?_) fun course linked finishes h => ?_).2
  · rw [vacant] at ha
    cases ha
  · exact course.distinctTargets validating checking type_def hf carries own free linked finishes h

/-- A field with a list of persons and one directive. -/
def personsField (name : String) (use : DirectiveUse) : FieldDef :=
  ⟨name, .list (.named "Person"), [use]⟩

def personType : TypeDef :=
  ⟨"Person", .object, [⟨"name", .named "String", []⟩, personsField "knows" ⟨"distinct", []⟩,
    personsField "mentors" ⟨"uniqueForTarget", []⟩], [], [], []⟩

/-- A type of groups; no person is a member of two groups, of whatever type they are. -/
def groupType (name : String) : TypeDef :=
  ⟨name, .object, [personsField "members"
    ⟨"_uniqueForTarget_AccordingToInterface", [("interfaceName", .str "Group")]⟩], ["Group"], [], []⟩

/-- Persons who know each other, and groups of persons. -/
def society : Model where
  schema := .ofTypes [personType,
    ⟨"Group", .interface, [⟨"members", .list (.named "Person"), []⟩], [], [], []⟩,
    groupType "Team", groupType "Choir"]
  settings := .default
  now := 0

/-- A person is created who knows two others. -/
def gathering : Mutation :=
  .create "Person" [("name", .str "Ann"), ("knows", .list [
    .obj [("create", .obj [("name", .str "Ben")])], .obj [("create", .obj [("name", .str "Cid")])]])]

/-- An edge between the first two persons. -/
def tieOf (field : String) : Mutation :=
  .createEdge "Person" field (.str "Person/1") (.str "Person/2") []

theorem reachable_distinct_targets_society :
    ∃ s, Session.after? society [gathering.request, (tieOf "knows").request] = some s ∧
      s.engine.database.store.ends "KnowsEdgeFromPerson" =
        [(some "Person/1", some "Person/2"), (some "Person/1", some "Person/4")] ∧
      s.engine.database.store.DistinctTargets "KnowsEdgeFromPerson" := by
  have ends : (Session.after? society [gathering.request, (tieOf "knows").request]).map
      (fun s => s.engine.database.store.ends "KnowsEdgeFromPerson") =
        some [(some "Person/1", some "Person/2"), (some "Person/1", some "Person/4")] := by
    decide +kernel
  obtain ⟨s, after, ends⟩ := Option.map_eq_some_iff.mp ends
  refine ⟨s, after, ends, ?_⟩
  exact reachable_distinct_targets society .plain s (Session.reachable_after after (by decide)) rfl rfl
    "Person" personType (personsField "knows" ⟨"distinct", []⟩) rfl
    (List.mem_cons_of_mem _ List.mem_cons_self) ⟨_, List.mem_cons_self, rfl⟩
    (Schema.onlyFrom_of_suffix (by decide +kernel)) (by decide +kernel)

/-! ### Unique targets -/

/-- No document has two edges of some collections that end at it. -/
def Store.UniqueTargets (store : Store) (collections : List String) : Prop :=
  ∀ C ∈ collections, ∀ C' ∈ collections, ∀ a ∈ store.documents C, ∀ b ∈ store.documents C', ∀ i,
    Document.read a.2 Field.target = .str i → Document.read b.2 Field.target = .str i →
      (store.document? i).isSome = true → C = C' ∧ a.1 = b.1

/-- Whatever type has edges in one of the collections has a directive on a field that forbids targets
to be shared among all of them. -/
def Schema.Watches (s : Schema) (collections : List String) : Prop :=
  ∀ C ∈ collections, ∀ u ∈ s.types, ∀ field, edgeCollection u.name field = C →
    ∃ t, s.typeDef u.name = .ok t ∧ ∃ f ∈ t.fields, ∃ d, f.Carries d ∧
      ∀ id, ∃ message,
        d.check? s u.name f id = .ok (some (.sharedTarget id collections collections, message))

section unique

variable {collections : List String}

/-- All edges that end at a target of a source that has been checked are the same. -/
theorem Store.Checked.eq_of_watched {lastKey : Nat} (h : store.Checked schema C a.2)
    (watches : schema.Watches collections) (hC : C ∈ collections) (hC' : C' ∈ collections)
    (keyed : store.Keyed) (issued : store.Issued lastKey) (ha : a ∈ store.documents C)
    (hb : b ∈ store.documents C') (target_a : Document.read a.2 Field.target = .str i)
    (target_b : Document.read b.2 Field.target = .str i)
    (existing : (store.document? i).isSome = true) : C = C' ∧ a.1 = b.1 := by
  obtain ⟨type, field, s, same, source, upheld⟩ := h
  obtain ⟨u, hu, _, rfl⟩ := upheld.exists_type
  obtain ⟨t, type_def, f, hf, d, carries, forbids⟩ := watches C hC u hu field same.symm
  obtain ⟨scope, id, value, clean⟩ := upheld.clean type_def hf carries
  obtain ⟨message, check⟩ := forbids id
  have same := same_of_sharedTarget_clean (clean _ _ check) value hC hC' ha hb source
    (Document.read_eq_str.mp target_a) (Document.read_eq_str.mp target_b) existing
  refine eq_of_id_eq keyed issued ha hb ?_
  rw [keyed.id_eq ha] at same ⊢
  exact (Json.same_str.mp same).symm

/-- A transaction keeps targets unique. -/
theorem Course.uniqueTargets (course : Course m .fixedEdges number remembers c ss answers)
    (validating : m.settings.skipEdgeValidation = false)
    (checking : m.settings.skipDirectives = false) (watches : m.schema.Watches collections)
    (free : ∀ C ∈ collections, m.schema.Free C) (linked : db.Linked m.schema)
    (finishes : Finishes m.schema c db run) (h : db.store.UniqueTargets collections) :
    run.store.UniqueTargets collections := by
  have after := course.linked id validating linked finishes.ran
  intro C hC C' hC' a ha b hb i target_a target_b existing
  rcases course.checked_or_both_old validating checking (free C hC) (free C' hC') linked finishes ha hb
    target_a existing with new | new | ⟨ha, hb, existing⟩
  · exact new.eq_of_watched watches hC hC' after.keyed after.issued ha hb target_a target_b existing
  · obtain ⟨same, keys⟩ := new.eq_of_watched watches hC' hC after.keyed after.issued hb ha target_b
      target_a existing
    exact ⟨same.symm, keys.symm⟩
  · exact h C hC C' hC' a ha b hb i target_a target_b existing

/-- The collection of a field with `@uniqueForTarget`. -/
theorem Schema.watches_field {s : Schema} {T : String} {t : TypeDef} {f : FieldDef}
    (type_def : s.typeDef T = .ok t) (hf : f ∈ t.fields) (carries : f.Carries .uniqueForTarget)
    (own : s.OnlyFrom T (edgeCollection T f.name)) : s.Watches [edgeCollection T f.name] := by
  intro C hC u hu field same
  rw [List.mem_singleton.mp hC] at same
  rw [own u hu field same]
  exact ⟨t, type_def, f, hf, .uniqueForTarget, carries, fun id => ⟨_, rfl⟩⟩

/-- The collections of a field that all implementers of an interface have with the directive of the
interface. -/
theorem Schema.watches_interface {s : Schema} {I field : String} {t : TypeDef}
    (type_def : s.typeDef I = .ok t) (interface : t.kind = .interface)
    (declared : ∀ u ∈ s.implementers I, ∃ t, s.typeDef u.name = .ok t ∧
      ∃ f ∈ t.fields, f.name = field ∧ f.Carries (.uniqueForInterface I))
    (own : ∀ u ∈ s.implementers I, ∀ v ∈ s.types, ∀ g,
      edgeCollection v.name g = edgeCollection u.name field → ∃ w ∈ s.implementers I, w.name = v.name) :
    s.Watches ((s.implementers I).map fun u => edgeCollection u.name field) := by
  intro C hC v hv g same
  obtain ⟨u, hu, rfl⟩ := List.mem_map.mp hC
  obtain ⟨w, hw, name⟩ := own u hu v hv g same
  obtain ⟨t', type_def', f, hf, rfl, carries⟩ := declared w hw
  rw [name] at type_def'
  refine ⟨t', type_def', f, hf, .uniqueForInterface I, carries, fun id => ?_⟩
  have possible : s.possibleEdgeCollections I f.name =
      .ok ((s.implementers I).map fun u => edgeCollection u.name f.name) := by
    simp [Schema.possibleEdgeCollections, Schema.possibleTypes, type_def, interface, Except.map, bind,
      Except.bind, pure, Except.pure]
  simp only [Directive.check?, possible]
  exact ⟨_, rfl⟩

end unique

theorem Session.ReachableBy.uniqueTargets {kind : EngineKind} {s : Session} {collections : List String}
    (reachable : Session.ReachableBy (fun mutation => mutation.updatesEdge = false) m kind s)
    (validating : m.settings.skipEdgeValidation = false)
    (checking : m.settings.skipDirectives = false) (watches : m.schema.Watches collections)
    (free : ∀ C ∈ collections, m.schema.Free C) :
    s.engine.database.store.UniqueTargets collections := by
  refine (reachable.maintains (P := fun store => store.UniqueTargets collections) validating
    (fun store vacant C _ C' _ a ha => ?_) fun course linked finishes h => ?_).2
  · rw [vacant] at ha
    cases ha
  · exact course.uniqueTargets validating checking watches free linked finishes h

/-- In every session that can be reached without updates of edges, and with edges validated and
directives checked, a document has at most one edge that ends at it in the collection of a field with
`@uniqueForTarget`, and at most one in all collections together of a field that every implementer of an
interface has with the directive of the interface. No object type may have the name of one of these
collections, and no type but the ones in question edges in them. -/
theorem reachable_unique_targets (m : Model) (kind : EngineKind) (s : Session)
    (reachable : Session.ReachableBy (fun mutation => mutation.updatesEdge = false) m kind s)
    (validating : m.settings.skipEdgeValidation = false)
    (checking : m.settings.skipDirectives = false) :
    (∀ (T : String) (t : TypeDef) (f : FieldDef), m.objectType T = .ok t → f ∈ t.fields →
      f.Carries .uniqueForTarget → m.schema.OnlyFrom T (edgeCollection T f.name) →
      m.schema.Free (edgeCollection T f.name) →
      s.engine.database.store.UniqueTargets [edgeCollection T f.name]) ∧
    ∀ (I : String) (t : TypeDef) (field : String), m.schema.typeDef I = .ok t → t.kind = .interface →
      (∀ u ∈ m.schema.implementers I, ∃ t, m.schema.typeDef u.name = .ok t ∧
        ∃ f ∈ t.fields, f.name = field ∧ f.Carries (.uniqueForInterface I)) →
      (∀ u ∈ m.schema.implementers I, ∀ v ∈ m.schema.types, ∀ g,
        edgeCollection v.name g = edgeCollection u.name field →
          ∃ w ∈ m.schema.implementers I, w.name = v.name) →
      (∀ u ∈ m.schema.implementers I, m.schema.Free (edgeCollection u.name field)) →
      s.engine.database.store.UniqueTargets
        ((m.schema.implementers I).map fun u => edgeCollection u.name field) := by
  refine ⟨fun T t f object hf carries own free => ?_,
    fun I t field type_def interface declared own free => ?_⟩
  · refine reachable.uniqueTargets validating checking
      (Schema.watches_field (Model.typeDef_of_objectType object).1 hf carries own) fun C hC => ?_
    rw [List.mem_singleton.mp hC]
    exact free
  · refine reachable.uniqueTargets validating checking
      (Schema.watches_interface type_def interface declared own) fun C hC => ?_
    obtain ⟨u, hu, rfl⟩ := List.mem_map.mp hC
    exact free u hu

/-- A group of the first person. -/
def founding (type : String) : Mutation :=
  .create type [("members", .list [.obj [("connect", .str "Person/1")]])]

/-- Persons, a mentor and groups, with a second mentor and a second group that are refused. -/
def upbringing : List (List Operation) :=
  [gathering.request, (tieOf "mentors").request, (tieOf "mentors").request,
    (founding "Team").request, (founding "Choir").request]

theorem reachable_unique_targets_society :
    ∃ s, Session.after? society upbringing = some s ∧
      (["MentorsEdgeFromPerson", "MembersEdgeFromTeam", "MembersEdgeFromChoir"].map
        s.engine.database.store.ends =
          [[(some "Person/1", some "Person/2")], [(some "Team/8", some "Person/1")], []]) ∧
      s.engine.database.store.UniqueTargets ["MentorsEdgeFromPerson"] ∧
      s.engine.database.store.UniqueTargets ["MembersEdgeFromTeam", "MembersEdgeFromChoir"] := by
  have ends : (Session.after? society upbringing).map
      (fun s => ["MentorsEdgeFromPerson", "MembersEdgeFromTeam", "MembersEdgeFromChoir"].map
        s.engine.database.store.ends) =
          some [[(some "Person/1", some "Person/2")], [(some "Team/8", some "Person/1")], []] := by
    decide +kernel
  obtain ⟨s, after, ends⟩ := Option.map_eq_some_iff.mp ends
  obtain ⟨of_field, of_interface⟩ := reachable_unique_targets society .plain s
    (Session.reachable_after after (by decide)) rfl rfl
  have groups : society.schema.implementers "Group" = [groupType "Team", groupType "Choir"] := rfl
  refine ⟨s, after, ends, ?_, ?_⟩
  · exact of_field "Person" personType (personsField "mentors" ⟨"uniqueForTarget", []⟩) rfl
      (List.mem_cons_of_mem _ (List.mem_cons_of_mem _ List.mem_cons_self))
      ⟨_, List.mem_cons_self, rfl⟩ (Schema.onlyFrom_of_suffix (by decide +kernel)) (by decide +kernel)
  · refine of_interface "Group" _ "members" rfl rfl ?_ ?_ (by decide +kernel)
    · rw [groups]
      intro u hu
      simp only [List.mem_cons, List.not_mem_nil, or_false] at hu
      rcases hu with rfl | rfl
      · exact ⟨_, rfl, _, List.mem_cons_self, rfl, _, List.mem_cons_self, rfl⟩
      · exact ⟨_, rfl, _, List.mem_cons_self, rfl, _, List.mem_cons_self, rfl⟩
    · have suffixes : ∀ u ∈ society.schema.implementers "Group", ∀ v ∈ society.schema.types,
          ("EdgeFrom" ++ Text.capitalize v.name).toList.isSuffixOf
            (edgeCollection u.name "members").toList = true →
              ∃ w ∈ society.schema.implementers "Group", w.name = v.name := by decide +kernel
      exact fun u hu v hv g same => suffixes u hu v hv (same ▸ suffix_edgeCollection v.name g)

end DocGraph
