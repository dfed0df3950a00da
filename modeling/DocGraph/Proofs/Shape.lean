import DocGraph.Proofs.Exports
import DocGraph.Proofs.Keys
import DocGraph.Proofs.Moves
import DocGraph.Proofs.Nesting

/-! # The shape of stored documents

A document of a type says so, and has no fields but those of its type that are stored and those that every
document has (`Document.HasShape`). Literals are held against the type when a mutation is put into statements:
a field that is not declared is refused, at any depth. What a name stands for is set when the script runs,
whatever the field is; so the main statement, `reachable_shaped`, is about mutations that use names in place
of stored fields only. -/

namespace DocGraph

variable {α : Type} {m : Model} {c : Context} {schema : Schema} {t : TypeDef} {write : NameSet}
  {params : Record Json} {ss : List Statement} {run run' : Run} {d old patch : Document}

open Synthesis

/-! ### Entries of a record -/

theorem Record.eq_or_mem_of_mem_insert {r : Record α} {n : String} {v : α} {e : String × α}
    (h : e ∈ r.insert n v) : e = (n, v) ∨ e ∈ r := by
  induction r with
  | nil => exact .inl (List.mem_singleton.mp h)
  | cons first rest ih =>
      obtain ⟨k, w⟩ := first
      rw [Record.insert] at h
      split at h
      · exact (List.mem_cons.mp h).imp_right (List.mem_cons_of_mem _)
      · rcases List.mem_cons.mp h with rfl | later
        · exact .inr List.mem_cons_self
        · exact (ih later).imp_right (List.mem_cons_of_mem _)

theorem Record.mem_or_mem_of_mem_insertAll {r es : Record α} {e : String × α}
    (h : e ∈ Record.insertAll r es) : e ∈ r ∨ e ∈ es := by
  induction es generalizing r with
  | nil => exact .inl h
  | cons first rest ih =>
      rcases ih (r := r.insert first.1 first.2) h with h | later
      · rcases Record.eq_or_mem_of_mem_insert h with rfl | h
        · exact .inr List.mem_cons_self
        · exact .inl h
      · exact .inr (List.mem_cons_of_mem _ later)

/-! ### Shapes -/

/-- The fields that documents have whatever their type, apart from the one that says the type. -/
def systemFields : List String := [Field.id, Field.key, Field.created, Field.updated]

/-- Documents of a type may have a field: they all have it, or it is declared and stored. -/
def Schema.Allows (schema : Schema) (t : TypeDef) (field : String) : Prop :=
  field ∈ systemFields ∨ ∃ f, t.field? field = some f ∧ schema.isDocumentField f = .ok true

/-- A document says its type, and its other fields are those that the type allows. -/
structure Document.HasShape (schema : Schema) (t : TypeDef) (d : Document) : Prop where
  typeName : Record.get? d Field.typeName = some (.str t.name)
  fields : ∀ e ∈ d, e.1 ≠ Field.typeName → schema.Allows t e.1

/-- The documents of all stored types have the shapes of their types. -/
def Store.Shaped (schema : Schema) (s : Store) : Prop :=
  ∀ type ∈ schema.documentCollections, ∀ e ∈ s.documents type,
    ∃ t, schema.typeDef type = .ok t ∧ Document.HasShape schema t e.2

namespace Document.HasShape

/-- The fields are stored, and the type is set over whatever they say. -/
theorem of_fields (h : ∀ e ∈ d, e.1 ≠ Field.typeName → schema.Allows t e.1) :
    HasShape schema t (Record.insert d Field.typeName (.str t.name)) where
  typeName := (Record.get?_insert ..).trans (if_pos rfl)
  fields e he other := by
    rcases Record.eq_or_mem_of_mem_insert he with rfl | he
    · exact absurd rfl other
    · exact h e he other

theorem insertAll {es : Record Json} (h : HasShape schema t d)
    (allowed : ∀ e ∈ es, e.1 ≠ Field.typeName ∧ schema.Allows t e.1) :
    HasShape schema t (Record.insertAll d es) where
  typeName := (Record.get?_insertAll fun e he => (allowed e he).1).trans h.typeName
  fields e he other := by
    rcases Record.mem_or_mem_of_mem_insertAll he with he | he
    · exact h.fields e he other
    · exact (allowed e he).2

/-- Documents keep their shape when they are given a key and an id. -/
theorem keyed (h : HasShape schema t d) (collection key : String) :
    HasShape schema t (Run.keyed collection key d) := by
  have own : Field.key ≠ Field.typeName ∧ Field.key ∈ systemFields ∧
      Field.id ≠ Field.typeName ∧ Field.id ∈ systemFields := by decide
  have both : ∀ e ∈ [(Field.key, Json.str key), (Field.id, .str (DocumentId.ofKey collection key).text)],
      e.1 ≠ Field.typeName ∧ schema.Allows t e.1 := by
    intro e he
    simp only [List.mem_cons, List.not_mem_nil, or_false] at he
    rcases he with rfl | rfl
    · exact ⟨own.1, .inl own.2.1⟩
    · exact ⟨own.2.2.1, .inl own.2.2.2⟩
  exact h.insertAll both

/-- A patch is merged entry by entry, so the type stays if the patch has each of its fields once. -/
theorem merge (h : HasShape schema t old) (h' : HasShape schema t patch)
    (plain : (patch.map Prod.fst).Nodup) : HasShape schema t (Run.merge old patch) where
  typeName := get?_merge_of_nodup plain h'.typeName (by decide)
  fields e he other := by
    rcases Record.mem_or_mem_of_mem_insertAll he with he | he
    · exact h.fields e he other
    · exact h'.fields e (List.mem_of_mem_filter he) other

end Document.HasShape

/-! ### Documents from input objects -/

/-- The fields that are read are declared and stored. -/
theorem storedFields_allowed {data : InputObject} (read : m.storedFields t data = .ok d) :
    ∀ e ∈ d, m.schema.Allows t e.1 := by
  induction data generalizing d with
  | nil =>
      cases read
      intro e he
      cases he
  | cons e rest ih =>
      obtain ⟨f, declared, ⟨stored, _, _, others, _, _, later, rfl⟩ | ⟨_, later⟩⟩ :=
        Model.storedFields_cons read
      · intro e he
        rcases List.mem_cons.mp he with rfl | he
        · exact .inr ⟨f, declared, stored⟩
        · exact ih later e he
      · exact ih later

/-- The fields with a date and the type over whatever they say. -/
theorem hasShape_stamp {data : InputObject} {type : String} (field : String) (now : Int)
    (found : m.objectType type = .ok t) (read : m.storedFields t data = .ok d)
    (system : field ∈ systemFields) :
    Document.HasShape m.schema t ((Record.insert d field (.int now)).insert Field.typeName (.str type)) := by
  obtain rfl := Schema.name_of_typeDef (Model.typeDef_of_objectType found).1
  refine .of_fields fun e he _ => ?_
  rcases Record.eq_or_mem_of_mem_insert he with rfl | he
  · exact .inl system
  · exact storedFields_allowed read e he

/-- In an input object of a type, names stand for stored fields only, and no field is given twice. -/
structure Model.ImportsStored (m : Model) (t : TypeDef) (data : InputObject) : Prop where
  distinct : (data.map Prod.fst).Nodup
  named : ∀ field x, (field, .var x) ∈ data → field ≠ Field.typeName ∧ m.schema.Allows t field

/-- What is imported keeps the shape. -/
theorem hasShape_bodyOf {p : String} {body : Document} {data : InputObject}
    {imported : List (String × Ref)} (h : Document.HasShape m.schema t d) (proper : m.ImportsStored t data)
    (names : ∀ e ∈ imported, ∃ x, (e.1, .var x) ∈ data) (given : params.get? p = some (.obj d))
    (read : Run.bodyOf (run.scope params) (.param p) imported = .ok body) :
    Document.HasShape m.schema t body := by
  unfold Run.bodyOf at read
  obtain ⟨d', document, read⟩ := exists_of_andThen_ok read
  obtain ⟨values, mapped, read⟩ := exists_of_andThen_ok read
  cases read
  simp only [Ref.document, Ref.value, Run.scope, given, bind, Except.bind] at document
  cases document
  refine h.insertAll fun e he => ?_
  obtain ⟨a, ha, made⟩ := exists_of_mem_mapM mapped he
  obtain ⟨_, _, rfl⟩ := exists_of_map_ok made
  obtain ⟨x, hx⟩ := names a ha
  exact proper.named a.1 x hx

/-! ### Statements -/

/-- A change keeps the shapes of documents. -/
abbrev KeepsShape (schema : Schema) (s s' : Store) : Prop :=
  s.Shaped schema → s'.Shaped schema

/-- A document of the shape of its type takes its place in the collection. -/
theorem keepsShape_put {s : Store} {type key : String} {coll : Collection}
    (found : schema.typeDef type = .ok t) (there : s.collection? type = some coll)
    (shape : type ∈ schema.documentCollections → s.Shaped schema → Document.HasShape schema t d) :
    KeepsShape schema s (s.set type (coll.put key d)) := by
  intro h C stored e he
  rcases Store.eq_or_mem_of_mem_documents_put there he with ⟨rfl, rfl⟩ | he
  · exact ⟨t, found, shape stored h⟩
  · exact h C stored e he

/-- Statements that put nothing into the collections of stored types keep the shapes. -/
theorem PerformsAll.keepsShape (p : PerformsAll write params ss run run')
    (apart : ∀ b ∈ partsOf ss, ∀ C ∈ schema.documentCollections, b.target? ≠ some C) :
    KeepsShape schema run.store run'.store :=
  fun h C stored e he => h C stored e (p.mem_documents (fun b hb => apart b hb C stored) he)

theorem admits_keepsShape (m : Model) :
    Admits m m.ImportsStored fun _ s s' => KeepsShape m.schema s s' where
  refl _ _ := id
  trans h h' := h' ∘ h
  document {_ _ _ _ _ type _ _ _ _ _} found proper stored names given _ performed := by
    cases performed with
    | insert read withEnds _ there =>
        cases withEnds
        refine keepsShape_put (Model.typeDef_of_objectType found).1 there fun _ _ => ?_
        have stamp := hasShape_stamp Field.created m.now found stored (by decide)
        exact (hasShape_bodyOf stamp proper names given read).keyed _ _
  edge _ performed := by
    refine (performsAll_singleton.mpr performed).keepsShape fun b hb C stored same => ?_
    cases List.mem_singleton.mp hb
    exact ne_edgeCollection stored _ _ (Option.some.inj same).symm

/-! ### Mutations -/

/-- The statements of a part of a mutation keep the shapes of documents. -/
abbrev Shapely (m : Model) (x : Synthesis α) (c : Context) : Prop :=
  Changes (fun _ s s' => KeepsShape m.schema s s') x c

theorem push_shapely {s : Statement}
    (apart : ∀ b ∈ s.parts, ∀ C ∈ m.schema.documentCollections, b.target? ≠ some C) :
    Shapely m (push s) c := by
  intro a c' done
  cases done
  refine ⟨⟨id, Nat.le_refl _⟩, [s], rfl, ?_⟩
  intro write params run run' _ _ p
  exact p.keepsShape fun b hb => apart b (by simpa [partsOf] using hb)

theorem delete_shapely (type : String) (id : Input) : Shapely m (m.delete type id none) c := by
  have admits := admits_keepsShape m
  unfold Model.delete
  refine Idle.ensureOpen.bind_changes fun _ c₁ => (Idle.ofExcept _).bind_changes fun u c₂ => ?_
  refine (Idle.comment _).bind_changes fun _ c₃ => (Idle.resolveId _).bind_changes fun target c₄ => ?_
  refine (Idle.varOr _).bind_changes fun var c₅ => (Idle.lockWrite _).bind_changes fun _ c₆ => ?_
  refine admits.bind (push_shapely ?_) fun _ c₇ => (Idle.ofExcept _).bind_changes fun touching c₈ => ?_
  · intro b hb C _ same
    cases List.mem_singleton.mp hb
    cases same
  refine (Idle.lockWrites _).bind_changes fun _ c₉ => admits.bind (push_shapely ?_) fun _ c₁₀ => ?_
  · intro b hb C _ same
    obtain ⟨s, hs, hb⟩ := mem_partsOf.mp hb
    obtain ⟨_, _, rfl⟩ := List.mem_map.mp hs
    cases List.mem_singleton.mp hb
    cases same
  refine (Idle.deferChecks _ _ _).bind_changes fun _ c₁₁ => ?_
  exact (Idle.forget _).bind_changes fun _ c₁₂ => admits.of_idle (.pure _)

theorem deleteEdge_shapely (type field : String) (id : Input) :
    Shapely m (m.deleteEdge type field id none) c := by
  have admits := admits_keepsShape m
  unfold Model.deleteEdge
  refine Idle.ensureOpen.bind_changes fun _ c₁ => (Idle.comment _).bind_changes fun _ c₂ => ?_
  refine (Idle.resolveId _).bind_changes fun target c₃ => (Idle.varOr _).bind_changes fun var c₄ => ?_
  refine (Idle.lockWrite _).bind_changes fun _ c₅ => admits.bind (push_shapely ?_) fun _ c₆ => ?_
  · intro b hb C _ same
    cases List.mem_singleton.mp hb
    cases same
  exact (Idle.deferChecks _ _ _).bind_changes fun _ c₇ => admits.of_idle (.pure _)

theorem createEdge_shapely (type field : String) (source target : Input) (annotations : InputObject)
    (exports : Option Selection) :
    Shapely m (m.createEdge type field source target annotations exports none) c := by
  unfold Model.createEdge
  refine Idle.ensureOpen.bind_changes fun _ c₁ => (Idle.ofExcept _).bind_changes fun f c₂ => ?_
  refine (Idle.resolveId _).bind_changes fun source c₃ => (Idle.resolveId _).bind_changes fun target c₄ => ?_
  exact (admits_keepsShape m).insertEdge _ _ _ _ _ _ _ _ _

theorem updateEdge_shapely (type field : String) (id : Input) (data : InputObject)
    (exports : Option Selection) : Shapely m (m.updateEdge type field id data exports none) c := by
  have admits := admits_keepsShape m
  unfold Model.updateEdge
  refine Idle.ensureOpen.bind_changes fun _ c₁ => (Idle.varOr _).bind_changes fun var c₂ => ?_
  refine (Idle.lockWrite _).bind_changes fun _ c₃ => (Idle.comment _).bind_changes fun _ c₄ => ?_
  refine (Idle.imports _).bind_changes fun imported c₅ => (Idle.ofExcept _).bind_changes fun d c₆ => ?_
  refine (Idle.freshParam _).bind_changes fun doc c₇ => (Idle.resolveId _).bind_changes fun target c₈ => ?_
  refine admits.bind (push_shapely ?_) fun _ c₉ => ?_
  · intro b hb C stored same
    cases List.mem_singleton.mp hb
    exact ne_edgeCollection stored _ _ (Option.some.inj same).symm
  exact admits.bind (admits.exportSelection _ _) fun _ c₁₀ => admits.of_idle (.pure _)

theorem dropEdges_shapely (type : String) (f : FieldDef) (id : Ref) :
    Shapely m (Model.dropEdges type f id) c := by
  unfold Model.dropEdges
  refine (Idle.lockWrite _).bind_changes fun _ c₁ => (Idle.comment _).bind_changes fun _ c₂ => ?_
  refine push_shapely fun b hb C _ same => ?_
  cases List.mem_singleton.mp hb
  cases same

theorem update_shapely {type : String} {data : InputObject} (id : Input) (exports : Option Selection)
    (proper : ∀ t, m.objectType type = .ok t → m.Throughout m.ImportsStored t data) :
    Shapely m (m.update type id data exports none) c := by
  have admits := admits_keepsShape m
  unfold Model.update
  refine Idle.ensureOpen.bind_changes fun _ c₁ => Effects.ofExcept_bind fun t found => ?_
  have own := (proper t found).here
  refine (Idle.comment _).bind_changes fun _ c₂ => (Idle.resolveId _).bind_changes fun target c₃ => ?_
  refine (imports_effects data).bind fun imported c₄ _ => Effects.ofExcept_bind fun d read => ?_
  refine Effects.freshParam_bind fun p c₅ _ => (Idle.varOr _).bind_effects fun var c₆ _ => ?_
  refine (Idle.lockWrite _).bind_effects fun _ c₇ _ => Effects.push_bind ?_
  refine Effects.mono (E := fun _ _ run run' => KeepsShape m.schema run.store run'.store) ?_ ?_
  · refine admits.edges_bind (admits.objectEdges _ _ _ _ _ (proper t found).fields ?_)
    exact fun _ _ _ _ _ _ _ _ => dropEdges_shapely _ _ _
  · rintro _ params run₁ run' later write run issued first given _ ⟨rfl, names⟩
    refine later ∘ ?_
    cases first with
    | update body _ _ there _ held =>
        refine keepsShape_put (Model.typeDef_of_objectType found).1 there fun stored shaped => ?_
        have stamp := hasShape_stamp Field.updated m.now found read (by decide)
        have plain : (d.map Prod.fst).Nodup :=
          (storedFields_names read).nodup ((List.filter_sublist.map _).nodup own.distinct)
        have entry := NameMap.mem_of_get? held
        rw [← Store.documents_eq there] at entry
        obtain ⟨u, found', shape⟩ := shaped type stored _ entry
        cases (Model.typeDef_of_objectType found).1.symm.trans found'
        refine shape.merge (hasShape_bodyOf stamp own names given body) ?_
        exact nodup_bodyOf given (Record.nodup_insert (Record.nodup_insert plain _ _) _ _) body

/-- In all objects of a mutation, names stand for stored fields only. -/
def Mutation.ImportsStored (m : Model) (mutation : Mutation) : Prop :=
  ∀ type data t, mutation.document? = some (type, data) → m.objectType type = .ok t →
    m.Throughout m.ImportsStored t data

theorem synthesize_shapely {mutation : Mutation} (exports : Option Selection)
    (proper : mutation.ImportsStored m) : Shapely m (mutation.synthesize m exports none) c := by
  cases mutation with
  | create type data => exact (admits_keepsShape m).create fun t found => proper type data t rfl found
  | update type id data => exact update_shapely id exports fun t found => proper type data t rfl found
  | delete type id => exact delete_shapely type id
  | createEdge type field source target annotations =>
      exact createEdge_shapely type field source target annotations exports
  | updateEdge type field id data => exact updateEdge_shapely type field id data exports
  | deleteEdge type field id => exact deleteEdge_shapely type field id

/-! ### Time does not matter -/

theorem Mutation.ImportsStored.at_time {mutation : Mutation} (h : mutation.ImportsStored m) (now : Int) :
    mutation.ImportsStored { m with now := now } := by
  intro type data t given found u inner describes
  obtain ⟨distinct, named⟩ := h type data t given found u inner (describes.of_schema rfl)
  exact ⟨distinct, named⟩

/-! ### Sessions -/

/-- Whenever the statements of a context run, they keep the shapes of documents. -/
structure Context.KeepsShape (m : Model) (c : Context) : Prop where
  onCourse : c.OnCourse m .any
  keeps : ∀ {write params run run'}, (∀ {p v}, c.params.get? p = some v → params.get? p = some v) →
    run.store.Issued run.lastKey → PerformsAll write params c.statements run run' →
      DocGraph.KeepsShape m.schema run.store run'.store

theorem lasting_keepsShape (m : Model) :
    Lasting m (Mutation.ImportsStored m) (Context.KeepsShape m) where
  start number remembers := by
    refine ⟨(lasting_onCourse m .any).start number remembers, fun _ _ p => ?_⟩
    cases p
    exact id
  mutate {call c c' var} proper before synthesis := by
    obtain ⟨on, on'⟩ := (lasting_onCourse m .any).mutate (call.mutation.meets_any ·) before.onCourse synthesis
    obtain ⟨grows, ss, statements, keeps⟩ := synthesize_shapely _ (proper.at_time call.now) _ _ synthesis
    have after : c'.KeepsShape m := by
      refine ⟨on, fun within issued p => ?_⟩
      rw [statements] at p
      obtain ⟨mid, p₁, p₂⟩ := performsAll_append.mp p
      have first := before.keeps (fun h => within (grows.params h)) issued p₁
      exact (keeps within (p₁.issued issued) p₂) ∘ first
    refine ⟨after, on', fun within issued p => ?_⟩
    obtain ⟨mid, p₁, p₂⟩ := performsAll_append.mp p
    refine p₂.keepsShape (fun b hb C _ same => ?_) ∘ after.keeps within issued p₁
    rcases eq_of_mem_answerStatements hb with rfl | rfl
    · cases same
    · cases same

/-- A database in which all keys have been given out and documents have the shapes of their types. -/
structure Database.Shaped (schema : Schema) (db : Database) : Prop where
  issued : db.store.Issued db.lastKey
  shaped : db.store.Shaped schema

theorem Database.Shaped.of_vacant {db : Database} (h : db.store.Vacant) : db.Shaped schema where
  issued C e he := by
    rw [h C] at he
    cases he
  shaped type _ e he := by
    rw [h type] at he
    cases he

theorem kept_shaped (m : Model) : KeptUnder (Context.KeepsShape m) (Database.Shaped m.schema) := by
  rintro db t ⟨c, keeps, rfl⟩ h
  obtain ⟨_, _, _, _, course⟩ := keeps.onCourse
  rcases course.same_or_finishes db with ⟨same, le⟩ | ⟨run, finishes, ran⟩
  · refine ⟨fun C e he => ?_, same ▸ h.shaped⟩
    obtain ⟨n, hn, key⟩ := h.issued C e (same ▸ he)
    exact ⟨n, Nat.le_trans hn le, key⟩
  · rw [ran]
    exact ⟨finishes.ran.issued h.issued, keeps.keeps id h.issued finishes.ran h.shaped⟩

/-! ### Fields that are not declared -/

section nested

variable {u : TypeDef} {data inner : InputObject}

/-- The literals of an input object are read, and its edges have been put into statements somewhere. -/
structure Model.Accepts (m : Model) (t : TypeDef) (data : InputObject) : Prop where
  stored : ∃ d, m.storedFields t (literals data) = .ok d
  edges : ∃ var replacing c c', outcome (m.objectEdges var t replacing data) c = (.ok ⟨⟩, c')

theorem create_accepts {type : String} {exports : Option Selection} {var? : Option String}
    (found : m.objectType type = .ok t) :
    Ensures (m.create type data exports var?) c fun _ _ => m.Accepts t data := by
  unfold Model.create Model.insertDocument
  refine Idle.ensureOpen.exportless.before fun _ c₁ _ => .ofExcept_bind fun t' found' => ?_
  cases found.symm.trans found'
  refine (Idle.comment _).exportless.before fun _ c₂ _ => ?_
  refine (Idle.imports data).exportless.before fun imported c₃ _ => .ofExcept_bind fun d read => ?_
  refine (Exportless.freshParam _).before fun doc c₄ _ => (Exportless.varOr _).before fun var c₅ _ => ?_
  refine (Idle.lockWrite _).exportless.before fun _ c₆ _ => (Exportless.push _).before fun _ c₇ _ => ?_
  refine Ensures.bind (fun _ _ done => done) fun _ c₈ edged => ?_
  exact fun _ _ _ => ⟨⟨d, read⟩, var, none, c₇, c₈, edged⟩

theorem update_accepts {type : String} {id : Input} {exports : Option Selection} {var? : Option String}
    (found : m.objectType type = .ok t) :
    Ensures (m.update type id data exports var?) c fun _ _ => m.Accepts t data := by
  unfold Model.update
  refine Idle.ensureOpen.exportless.before fun _ c₁ _ => .ofExcept_bind fun t' found' => ?_
  cases found.symm.trans found'
  refine (Idle.comment _).exportless.before fun _ c₂ _ => ?_
  refine (Idle.resolveId id).exportless.before fun target c₃ _ => ?_
  refine (Idle.imports data).exportless.before fun imported c₄ _ => .ofExcept_bind fun d read => ?_
  refine (Exportless.freshParam _).before fun doc c₅ _ => (Exportless.varOr _).before fun var c₆ _ => ?_
  refine (Idle.lockWrite _).exportless.before fun _ c₇ _ => (Exportless.push _).before fun _ c₈ _ => ?_
  refine Ensures.bind (fun _ _ done => done) fun _ c₉ edged => ?_
  exact fun _ _ _ => ⟨⟨d, read⟩, var, some target, c₈, c₉, edged⟩

theorem Model.Accepts.inside (h : m.Accepts t data) (spawns : m.Spawns (t, data) (u, inner)) :
    m.Accepts u inner := by
  obtain ⟨var, replacing, c, c', edged⟩ := h.edges
  cases spawns with
  | mk field edge entry unconnected chosen given found =>
      obtain ⟨_, c₁, _, c₂, _, created, _⟩ :=
        objectEdges_creates field edge entry unconnected chosen given _ _ edged
      exact create_accepts found _ _ created

/-- An input object is accepted with all the objects that it creates. -/
theorem Model.Accepts.throughout (h : m.Accepts t data) : m.Throughout m.Accepts t data := by
  intro u inner describes
  have each : ∀ b : TypeDef × InputObject, Relation.ReflTransGen m.Spawns (t, data) b →
      m.Accepts b.1 b.2 := by
    intro b chain
    induction chain with
    | refl => exact h
    | tail _ spawns ih => exact ih.inside spawns
  exact each _ describes

theorem synthesize_accepts {mutation : Mutation} {type : String} {exports : Option Selection}
    (document : mutation.document? = some (type, data)) (found : m.objectType type = .ok t) :
    Ensures (mutation.synthesize m exports none) c fun _ _ => m.Accepts t data := by
  cases mutation with
  | create =>
      cases document
      exact create_accepts found
  | update =>
      cases document
      exact update_accepts found
  | delete | createEdge | updateEdge | deleteEdge => cases document

/-- Literals are read against the declared fields. -/
theorem exists_field_of_storedFields (read : m.storedFields t data = .ok d) {name : String} {value : Input}
    (mem : (name, value) ∈ data) : ∃ f, t.field? name = some f := by
  induction data generalizing d with
  | nil => cases mem
  | cons e rest ih =>
      obtain ⟨f, declared, kinds⟩ := Model.storedFields_cons read
      rcases List.mem_cons.mp mem with rfl | later
      · exact ⟨f, declared⟩
      · rcases kinds with ⟨_, _, _, _, _, _, read, _⟩ | ⟨_, read⟩
        · exact ih read later
        · exact ih read later

/-- A mutation with a literal under a field that is not declared, at any depth, is refused. -/
theorem refuses_undeclared {call : Call} {r : Request} {type name : String} {value : Input}
    (running : r.outcome = none) (document : call.mutation.document? = some (type, data))
    (found : m.objectType type = .ok t) (describes : m.Describes t data u inner)
    (given : (name, value) ∈ inner) (literal : value.var? = none) (undeclared : u.field? name = none) :
    ∃ e, (r.call m call).1 = .error e := by
  have fails : ∀ {c var c'}, outcome (call.synthesis m) c ≠ (.ok var, c') := by
    intro c var c' done
    have accepted := synthesize_accepts (m := { m with now := call.now }) document found _ _ done
    obtain ⟨d, read⟩ := (accepted.throughout u inner (describes.of_schema rfl)).stored
    have kept : (name, value) ∈ literals inner := List.mem_filter.mpr ⟨given, by simp [literal]⟩
    obtain ⟨f, declared⟩ := exists_field_of_storedFields read kept
    cases undeclared.symm.trans declared
  have turn := call_turn m r call
  generalize (r.call m call).1 = reply, (r.call m call).2 = r' at turn ⊢
  cases turn with
  | late ended => exact absurd running ended
  | outstanding | refused | failed | closed => exact ⟨_, rfl⟩
  | below _ _ _ synthesis | waits _ _ _ _ synthesis | submits _ _ _ _ synthesis =>
      exact absurd synthesis fails

end nested

/-- As long as names stand for stored fields only, every document of a stored type says its type, and its
other fields are declared and stored, or are those that every document has; so no value of an edge field gets
into a document. And whatever names there are, a literal under a field that is not declared is refused. -/
theorem reachable_shaped (m : Model) (kind : EngineKind) (s : Session)
    (reachable : Session.ReachableBy (Mutation.ImportsStored m) m kind s) :
    (∀ type ∈ m.schema.documentCollections, ∀ e ∈ s.engine.database.store.documents type,
      ∃ t, m.schema.typeDef type = .ok t ∧ Document.HasShape m.schema t e.2) ∧
    ∀ (r : Request) (call : Call) (type : String) (data inner : InputObject) (t u : TypeDef) (name : String)
      (value : Input), r.outcome = none → call.mutation.document? = some (type, data) →
        m.objectType type = .ok t → m.Describes t data u inner → (name, value) ∈ inner →
          value.var? = none → u.field? name = none → ∃ e, (r.call m call).1 = .error e := by
  have sound := reachable.follows (lasting_keepsShape m) (kept_shaped m) fun _ new => .of_vacant new.vacant
  exact ⟨sound.database.shaped, fun r call type data inner t u name value running document found describes
    given literal undeclared => refuses_undeclared running document found describes given literal undeclared⟩

/-- Persons, as they are declared among acquaintances. -/
def person : TypeDef :=
  ⟨"Person", .object, [⟨"name", .named "String", []⟩, ⟨"knows", .list (.named "Person"), [⟨"noloops", []⟩]⟩],
    [], [], []⟩

/-- A person is created and exports the name; then fields of another one are given. -/
def greetings (data : InputObject) : List Operation :=
  [⟨true, greeting.selection, greeting.mutation, "ann"⟩, ⟨true, ⟨"ben", []⟩, .create "Person" data, "ben"⟩]

/-- A person of the exported name who knows a new person of that name. -/
def twins : InputObject :=
  [("name", .var "called"), ("knows", .list [.obj [("create", .obj [("name", .var "called")])]])]

theorem objectType_person : acquaintances.objectType "Person" = .ok person := rfl

/-- A stored field creates nothing. -/
theorem edgeField?_of_stored {name : String} {f : FieldDef} (declared : t.field? name = some f)
    (stored : m.schema.isDocumentField f = .ok true) (value : Input) : m.edgeField? t name value = none := by
  unfold Model.edgeField?
  rw [declared]
  cases value.var? with
  | none => simp only [stored]
  | some x => rfl

theorem allows_name : acquaintances.schema.Allows person "name" :=
  .inr ⟨⟨"name", .named "String", []⟩, rfl, rfl⟩

theorem edgeField?_name (value : Input) : acquaintances.edgeField? person "name" value = none :=
  edgeField?_of_stored (f := ⟨"name", .named "String", []⟩) rfl rfl value

/-- A person who is given a name alone, whether by a literal or not. -/
theorem importsStored_name (v : Input) :
    acquaintances.Throughout acquaintances.ImportsStored person [("name", v)] := by
  refine .of_inside ⟨by simp, fun field x mem => ?_⟩ fun u inner spawns => ?_
  · cases List.mem_singleton.mp mem
    exact ⟨by decide, allows_name⟩
  · cases spawns with
    | mk field edge =>
        cases List.mem_singleton.mp field
        cases (edgeField?_name v).symm.trans edge

theorem importsStored_twins :
    acquaintances.Throughout acquaintances.ImportsStored person twins := by
  refine .of_inside ⟨by decide, fun field x mem => ?_⟩ fun u inner spawns => ?_
  · simp only [twins, List.mem_cons, List.not_mem_nil, or_false] at mem
    rcases mem with same | same
    · cases same
      exact ⟨by decide, allows_name⟩
    · cases same
  · cases spawns with
    | mk field edge entry _ chosen given found =>
        simp only [twins, List.mem_cons, List.not_mem_nil, or_false] at field
        rcases field with same | same
        · cases same
          cases (edgeField?_name _).symm.trans edge
        · cases same
          have knows : acquaintances.edgeField? person "knows"
              (.list [.obj [("create", .obj [("name", .var "called")])]]) =
              some ⟨"knows", .list (.named "Person"), [⟨"noloops", []⟩]⟩ := rfl
          have object : acquaintances.schema.kindOf "Person" = .ok .object := rfl
          cases List.mem_singleton.mp entry
          cases knows.symm.trans edge
          cases chosen with
          | concrete =>
              rw [Record.get?_cons, if_pos rfl] at given
              cases given
              cases objectType_person.symm.trans found
              exact importsStored_name _
          | among known abstract =>
              cases object.symm.trans known
              rcases abstract with no | no
              · cases no
              · cases no

theorem greetings_importsStored {data : InputObject}
    (proper : acquaintances.Throughout acquaintances.ImportsStored person data) :
    ∀ o ∈ greetings data, o.mutation.ImportsStored acquaintances := by
  intro o ho type data' t document found
  simp only [greetings, List.mem_cons, List.not_mem_nil, or_false] at ho
  rcases ho with rfl | rfl
  · cases document
    cases objectType_person.symm.trans found
    exact importsStored_name _
  · cases document
    cases objectType_person.symm.trans found
    exact proper

theorem reachable_shaped_twins :
    ∃ s, Session.ReachableBy (Mutation.ImportsStored acquaintances) acquaintances .plain s ∧
      (s.engine.database.store.documents "Person").length = 3 ∧
      (∀ e ∈ s.engine.database.store.documents "Person", ∃ t, acquaintances.schema.typeDef "Person" = .ok t ∧
        Document.HasShape acquaintances.schema t e.2) ∧
      ∀ x, ∃ e, ((Request.start 1 true ["ann"]).call acquaintances
        ⟨0, true, ⟨"ann", []⟩, .create "Person" [("bogus", .str x)]⟩).1 = .error e := by
  have ran : (Session.after? acquaintances [greetings twins]).any (fun s =>
      (s.engine.database.store.documents "Person").length == 3) = true := by
    decide +kernel
  obtain ⟨s, after, three⟩ := (Option.any_eq_true _ _).mp ran
  have reachable : Session.ReachableBy (Mutation.ImportsStored acquaintances) acquaintances .plain s := by
    refine Session.reachable_after after fun operations mem => ?_
    rw [List.mem_singleton.mp mem]
    exact greetings_importsStored importsStored_twins
  obtain ⟨shaped, refuses⟩ := reachable_shaped acquaintances .plain s reachable
  refine ⟨s, reachable, beq_iff_eq.mp three, shaped "Person" (by decide +kernel), fun x => ?_⟩
  exact refuses _ _ "Person" [("bogus", .str x)] _ person person "bogus" (.str x) rfl rfl objectType_person
    .refl List.mem_cons_self rfl (by cbv)

/-- A name in place of a field that is not declared, or of a field of edges, is not refused: what it stands
for gets into the document. -/
theorem reachable_misshapen :
    ∃ s, Session.ReachableBy (fun _ => True) acquaintances .plain s ∧
      "Person" ∈ acquaintances.schema.documentCollections ∧
      acquaintances.schema.typeDef "Person" = .ok person ∧ person.field? "bogus" = none ∧
      ∃ e ∈ s.engine.database.store.documents "Person",
        Document.text? e.2 "bogus" = some "Ann" ∧ Document.text? e.2 "knows" = some "Ann" := by
  have ran : (Session.after? acquaintances
      [greetings [("bogus", .var "called"), ("knows", .var "called")]]).any (fun s =>
        (s.engine.database.store.documents "Person").any fun e =>
          Document.text? e.2 "bogus" == some "Ann" && Document.text? e.2 "knows" == some "Ann") = true := by
    decide +kernel
  obtain ⟨s, after, found⟩ := (Option.any_eq_true _ _).mp ran
  obtain ⟨e, he, both⟩ := List.any_eq_true.mp found
  rw [Bool.and_eq_true] at both
  exact ⟨s, Session.reachable_after after fun _ _ _ _ => trivial, by decide +kernel,
    (Model.typeDef_of_objectType objectType_person).1, by cbv, e, he, beq_iff_eq.mp both.1,
    beq_iff_eq.mp both.2⟩

end DocGraph
