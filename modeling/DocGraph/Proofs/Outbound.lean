import DocGraph.Proofs.Atomicity
import DocGraph.Proofs.Edges

/-! # Edges that leave a document

Two rules about the edges from one source. A field with `@noloops` has no edge that leads back to where
it starts: the sources of new edges are checked at the end of the request, and only edges that are there
by then count. This needs no validation of the ends, since a collection of edges refuses an end that is
no id (`Database.Edged`); `reachable_no_loops` is what it comes to. A field that is not a list has at
most one edge from each source: here the check stands right before every insertion, so that the rule
holds after every single statement. `reachable_single_edges` is what it comes to. -/

namespace DocGraph

variable {m : Model} {D : Demands} {schema : Schema} {c c' : Context} {ds ds' : List Duty}
  {ss : List Statement} {write : NameSet} {params : Record Json} {db : Database} {run run' : Run}
  {C : String} {number : Nat} {remembers : Bool} {answers : List (String × String)}

/-! ### Edges that start at an id -/

/-- Every edge of a collection starts at a text. -/
def Store.Rooted (store : Store) (C : String) : Prop :=
  ∀ d ∈ store.documents C, ∃ s, Document.read d.2 Field.source = .str s

/-- The collections that no object type has the name of are for edges, and their edges start at a
text. -/
structure Database.Edged (schema : Schema) (db : Database) : Prop where
  kinds : ∀ {C coll}, schema.Free C → db.store.collection? C = some coll → coll.kind = .edge
  rooted : ∀ C, schema.Free C → db.store.Rooted C

/-- No object type is stored in a collection that is free of them. -/
theorem Schema.Free.not_mem (free : schema.Free C) : C ∉ schema.documentCollections := by
  intro mem
  obtain ⟨u, stored, name⟩ := List.mem_map.mp mem
  obtain ⟨hu, stored⟩ := List.mem_filter.mp stored
  have object : u.kind = .object := by
    unfold Schema.isStored at stored
    simp only [Bool.and_eq_true, beq_iff_eq] at stored
    exact stored.1.1.1.1
  exact free u hu object name

theorem Database.IsNew.edged (new : db.IsNew schema) : db.Edged schema where
  kinds free there := (new.kinds there).resolve_left free.not_mem
  rooted C _ d hd := by
    rw [new.vacant C] at hd
    cases hd

theorem exists_text_of_isEnd {v : Option Json} (h : Run.isEnd v = true) : ∃ s, v = some (.str s) := by
  unfold Run.isEnd at h
  split at h
  · exact ⟨_, rfl⟩
  · cases h

/-- A step puts only edges that start at a text into a collection of edges. -/
theorem Emits.rooted (e : Emits m D c ds ss c' ds') (st : Stage write params db c ds run)
    (fixed : ¬ D.edgeUpdates) (free : m.schema.Free C) (edged : db.Edged m.schema)
    (p : PerformsAll write params ss run run') (h : run.store.Rooted C) : run'.store.Rooted C := by
  intro d hd
  rcases e.untouched_or_putsEdge fixed free with untouched | puts
  · exact h d (p.mem_documents untouched hd)
  · cases puts with
    | mk =>
        cases performsAll_singleton.mp p with
        | insert _ _ _ there ended =>
            rcases Store.eq_or_mem_of_mem_documents_put there hd with ⟨_, rfl⟩ | old
            · -- The collection has had its kind since before the script.
              obtain ⟨coll, before, same⟩ := st.ran.frame.kind_eq there
              have kind := same.trans (edged.kinds free before)
              obtain ⟨s, source⟩ := exists_text_of_isEnd (ended kind).1
              refine ⟨s, Document.read_of_get? ?_⟩
              simpa [Run.keyed, Record.get?_insert, Field.source, Field.id, Field.key] using source
            · exact h d old

/-- A transaction keeps the edges of a collection starting at a text. -/
theorem Course.rooted (course : Course m D number remembers c ss answers) (fixed : ¬ D.edgeUpdates)
    (free : m.schema.Free C) (edged : db.Edged m.schema)
    (p : PerformsAll c.write c.params c.statements (Run.start db) run) : run.store.Rooted C := by
  refine course.along (J := fun _ _ r => r.store.Rooted C) (edged.rooted C free)
    (fun st e p hr => e.rooted st fixed free edged p hr) (fun r r' store _ _ hr => ?_) id p
  rw [store]
  exact hr

theorem kept_edged (fixed : ¬ D.edgeUpdates) : Kept m D (Database.Edged m.schema) := by
  rintro db t ⟨c, _, _, _, _, course, rfl⟩ h
  rcases course.same_or_finishes db with ⟨same, _⟩ | ⟨run, finishes, ran⟩
  · exact ⟨fun free there => h.kinds free (same ▸ there), fun C free => same ▸ h.rooted C free⟩
  · rw [ran]
    refine ⟨fun free there => ?_, fun C free => course.rooted fixed free h finishes.ran⟩
    obtain ⟨coll, before, same⟩ := finishes.ran.frame.kind_eq there
    exact same.trans (h.kinds free before)

/-! ### No loops -/

/-- No edge of a collection leads back to where it starts. -/
def Store.NoLoops (store : Store) (C : String) : Prop :=
  ∀ d ∈ store.documents C, Document.read d.2 Field.source ≠ Document.read d.2 Field.target

section loops

variable {T : String} {t : TypeDef} {f : FieldDef}

/-- A source that has been found in order has no edge that leads back to it. -/
theorem Store.Upholds.no_loop {store : Store} {s : String} {d : String × Document}
    (h : store.Upholds schema T (.str s)) (type_def : schema.typeDef T = .ok t) (hf : f ∈ t.fields)
    (carries : f.Carries .noLoops) (hd : d ∈ store.documents (edgeCollection T f.name))
    (source : Document.read d.2 Field.source = .str s) : Document.read d.2 Field.target ≠ .str s := by
  obtain ⟨scope, id, value, clean⟩ := h.clean type_def hf carries
  intro target
  exact ne_of_selfLoop_clean (clean _ _ rfl) value hd (Document.read_eq_str.mp source)
    (Document.read_eq_str.mp target)

/-- A transaction keeps a collection free of loops. -/
theorem Course.noLoops (course : Course m .fixedEdges number remembers c ss answers)
    (checking : m.settings.skipDirectives = false) (type_def : m.schema.typeDef T = .ok t)
    (hf : f ∈ t.fields) (carries : f.Carries .noLoops)
    (own : m.schema.OnlyFrom T (edgeCollection T f.name))
    (free : m.schema.Free (edgeCollection T f.name)) (edged : db.Edged m.schema)
    (finishes : Finishes m.schema c db run) (h : db.store.NoLoops (edgeCollection T f.name)) :
    run.store.NoLoops (edgeCollection T f.name) := by
  intro d hd
  rcases course.checked_or_old id checking free finishes hd with old | ⟨type, field, same, upheld⟩
  · exact h d old
  · obtain ⟨s, source⟩ := course.rooted id free edged finishes.ran d hd
    obtain ⟨u, hu, _, rfl⟩ := upheld.exists_type
    rw [own u hu field same.symm, source] at upheld
    rw [source]
    exact (upheld.no_loop type_def hf carries hd source).symm

end loops

/-- In every session that can be reached without updates of edges, and with directives checked, whether
edges are validated or not: if a field of an object type has `@noloops`, and no other type has edges in
its collection and no object type the name of the collection, then no edge of the collection leads back
to where it starts. -/
theorem reachable_no_loops (m : Model) (kind : EngineKind) (s : Session)
    (reachable : Session.ReachableBy (fun mutation => mutation.updatesEdge = false) m kind s)
    (checking : m.settings.skipDirectives = false) (T : String) (t : TypeDef) (f : FieldDef)
    (object : m.objectType T = .ok t) (hf : f ∈ t.fields) (carries : f.Carries .noLoops)
    (own : m.schema.OnlyFrom T (edgeCollection T f.name))
    (free : m.schema.Free (edgeCollection T f.name)) :
    s.engine.database.store.NoLoops (edgeCollection T f.name) := by
  have type_def := (Model.typeDef_of_objectType object).1
  refine (reachable.upkeep (P := fun store => store.NoLoops (edgeCollection T f.name))
    (kept_edged id) (fun db new => ⟨new.edged, fun d hd => ?_⟩)
    fun course edged finishes h => ?_).2
  · rw [new.vacant] at hd
    cases hd
  · exact course.noLoops checking type_def hf carries own free edged finishes h

/-- Persons of a family, who may know each other but not themselves, and have at most one spouse. -/
def kinsmanType : TypeDef :=
  ⟨"Kinsman", .object, [⟨"name", .named "String", []⟩,
    ⟨"knows", .list (.named "Kinsman"), [⟨"noloops", []⟩]⟩, ⟨"spouse", .named "Kinsman", []⟩],
    [], [], []⟩

def family (settings : Settings) : Model where
  schema := .ofTypes [kinsmanType]
  settings := settings
  now := 0

/-- A person is created, and another one as the spouse. -/
def wedding : Mutation :=
  .create "Kinsman" [("name", .str "Ann"), ("spouse", .obj [("create", .obj [("name", .str "Ben")])])]

/-- An edge between two persons. -/
def bond (field source target : String) : Mutation :=
  .createEdge "Kinsman" field (.str source) (.str target) []

/-- Nobody checks that the ends of edges exist, yet a person who knows themselves is refused. -/
def introductions : List (List Operation) :=
  [wedding.request, (bond "knows" "Kinsman/1" "Kinsman/1").request,
    (bond "knows" "Kinsman/1" "Kinsman/2").request, (bond "knows" "Kinsman/8" "Kinsman/9").request]

theorem reachable_no_loops_family :
    ∃ s, Session.after? (family (Settings.default.withEdgeValidation false)) introductions = some s ∧
      s.engine.database.store.ends "KnowsEdgeFromKinsman" =
        [(some "Kinsman/1", some "Kinsman/2"), (some "Kinsman/8", some "Kinsman/9")] ∧
      s.engine.database.store.NoLoops "KnowsEdgeFromKinsman" := by
  have ends : (Session.after? (family (Settings.default.withEdgeValidation false)) introductions).map
      (fun s => s.engine.database.store.ends "KnowsEdgeFromKinsman") =
        some [(some "Kinsman/1", some "Kinsman/2"), (some "Kinsman/8", some "Kinsman/9")] := by
    decide +kernel
  obtain ⟨s, after, ends⟩ := Option.map_eq_some_iff.mp ends
  refine ⟨s, after, ends, ?_⟩
  exact reachable_no_loops _ .plain s (Session.reachable_after after (by decide)) rfl "Kinsman"
    kinsmanType ⟨"knows", .list (.named "Kinsman"), [⟨"noloops", []⟩]⟩ rfl
    (List.mem_cons_of_mem _ List.mem_cons_self) ⟨_, List.mem_cons_self, rfl⟩
    (Schema.onlyFrom_of_suffix (by decide +kernel)) (by decide +kernel)

/-! ### One edge from each source -/

/-- A collection has at most one edge from each source. -/
def Store.SingleEdges (store : Store) (C : String) : Prop :=
  ∀ i, ((store.documents C).filter fun e => Document.text? e.2 Field.source == some i).length ≤ 1

/-- No two edges of a collection have the same source. -/
def Store.DistinctSources (store : Store) (C : String) : Prop :=
  ∀ a ∈ store.documents C, ∀ b ∈ store.documents C,
    Document.read a.2 Field.source = Document.read b.2 Field.source → a.1 = b.1

theorem Store.DistinctSources.singleEdges {store : Store} (h : store.DistinctSources C)
    (ordered : store.Ordered) : store.SingleEdges C := by
  intro i
  refine ((ordered C).filter _).length_le_one fun a ha b hb => ?_
  obtain ⟨ha, source⟩ := List.mem_filter.mp ha
  obtain ⟨hb, source'⟩ := List.mem_filter.mp hb
  refine h a ha b hb ?_
  rw [Document.read_eq_str.mpr (beq_iff_eq.mp source), Document.read_eq_str.mpr (beq_iff_eq.mp source')]

/-- No other field than one of a type has edges in a collection. -/
def Schema.OnlyOf (s : Schema) (T field C : String) : Prop :=
  ∀ u ∈ s.types, ∀ g ∈ u.fields, edgeCollection u.name g.name = C → u.name = T ∧ g.name = field

instance (s : Schema) (T field C : String) : Decidable (s.OnlyOf T field C) :=
  inferInstanceAs (Decidable (∀ u ∈ s.types, ∀ g ∈ u.fields,
    edgeCollection u.name g.name = C → u.name = T ∧ g.name = field))

/-- A check that stands at the end has found nothing. -/
theorem PerformsAll.clean_of_getLast? {check : Check} {message : Message}
    (p : PerformsAll write params ss run run') (last : ss.getLast? = some (.assert check message)) :
    check.violated run'.store (run'.scope params) = .ok false := by
  obtain ⟨front, rfl⟩ := List.getLast?_eq_some_iff.mp last
  obtain ⟨mid, _, q⟩ := performsAll_append.mp p
  cases performsAll_singleton.mp q with
  | assert clean => exact clean

section single

variable {T field : String} {f : FieldDef}

/-- Before an edge is inserted into the collection, it has none that leaves the same source. -/
theorem Stage.clear {type g : String} {source : Ref} {i : String} (st : Stage write params db c ds run)
    (declared : m.schema.fieldDef T field = .ok f) (single : f.type.isList = false)
    (own : m.schema.OnlyOf T field C) (name : C = edgeCollection type g)
    (asserts : c.AssertsFree m.schema type g source)
    (value : source.value (run.scope params) = .ok (.str i)) :
    ∀ d ∈ run.store.documents C, Document.read d.2 Field.source ≠ .str i := by
  subst name
  intro d hd
  obtain ⟨f', declared', free⟩ := asserts
  obtain ⟨u, hu, rfl, hf, rfl⟩ := Schema.exists_of_fieldDef declared'
  obtain ⟨rfl, rfl⟩ := own u hu f' hf rfl
  cases declared.symm.trans declared'
  obtain ⟨message, last⟩ := free single
  rw [ne_eq, Document.read_eq_str]
  exact ne_of_edgeExists_clean (st.ran.clean_of_getLast? last) value hd

theorem Emits.distinctSources (e : Emits m D c ds ss c' ds') (st : Stage write params db c ds run)
    (fixed : ¬ D.edgeUpdates) (validating : m.settings.skipEdgeValidation = false)
    (declared : m.schema.fieldDef T field = .ok f) (single : f.type.isList = false)
    (own : m.schema.OnlyOf T field C) (free : m.schema.Free C) (linked : db.Linked m.schema)
    (p : PerformsAll write params ss run run') (h : run.store.DistinctSources C) :
    run'.store.DistinctSources C := by
  intro a ha b hb same
  rcases e.untouched_or_putsEdge fixed free with untouched | puts
  · exact h a (p.mem_documents untouched ha) b (p.mem_documents untouched hb) same
  · cases puts with
    | mk name _ _ validated unoccupied =>
        obtain ⟨⟨_, _, vouched⟩, _⟩ := validated validating
        obtain ⟨i, value, _⟩ := st.vouched linked.keyed linked.issued vouched
        have clear := st.clear declared single own name (unoccupied validating) value
        -- The new edge leaves `i`, and no other one does.
        have old_or_new : ∀ d ∈ run'.store.documents C, d ∈ run.store.documents C ∧
            Document.read d.2 Field.source ≠ .str i ∨
              d.1 = run.nextKey ∧ Document.read d.2 Field.source = .str i := by
          intro d hd
          rcases (performsAll_singleton.mp p).ends_of_mem hd with old | ⟨key, v, _, hv, _, source, _⟩
          · exact Or.inl ⟨old, clear d old⟩
          · cases hv.symm.trans value
            exact Or.inr ⟨key, Document.read_of_get? source⟩
        rcases old_or_new a ha with ⟨old, other⟩ | ⟨key, source⟩
        · rcases old_or_new b hb with ⟨old', _⟩ | ⟨_, source'⟩
          · exact h a old b old' same
          · exact absurd (same.trans source') other
        · rcases old_or_new b hb with ⟨_, other'⟩ | ⟨key', _⟩
          · exact absurd (same.symm.trans source) other'
          · exact key.trans key'.symm

/-- A transaction keeps sources distinct. -/
theorem Course.distinctSources (course : Course m D number remembers c ss answers)
    (fixed : ¬ D.edgeUpdates) (validating : m.settings.skipEdgeValidation = false)
    (declared : m.schema.fieldDef T field = .ok f) (single : f.type.isList = false)
    (own : m.schema.OnlyOf T field C) (free : m.schema.Free C) (linked : db.Linked m.schema)
    (p : PerformsAll c.write c.params c.statements (Run.start db) run)
    (h : db.store.DistinctSources C) : run.store.DistinctSources C := by
  refine course.along (J := fun _ _ r => r.store.DistinctSources C) h (fun st e p hr => ?_)
    (fun r r' store _ _ hr => ?_) id p
  · exact e.distinctSources st fixed validating declared single own free linked p hr
  · rw [store]
    exact hr

end single

/-- In every session that can be reached without updates of edges, and with edges validated: if a field
is not a list, and no other field has edges in its collection and no object type the name of the
collection, then the collection has at most one edge from each source. -/
theorem reachable_single_edges (m : Model) (kind : EngineKind) (s : Session)
    (reachable : Session.ReachableBy (fun mutation => mutation.updatesEdge = false) m kind s)
    (validating : m.settings.skipEdgeValidation = false) (T field : String) (f : FieldDef)
    (declared : m.schema.fieldDef T field = .ok f) (single : f.type.isList = false)
    (own : m.schema.OnlyOf T field (edgeCollection T field))
    (free : m.schema.Free (edgeCollection T field)) :
    s.engine.database.store.SingleEdges (edgeCollection T field) := by
  suffices both : s.engine.database.store.Ordered ∧
      s.engine.database.store.DistinctSources (edgeCollection T field) from
    both.2.singleEdges both.1
  refine (reachable.maintains
    (P := fun store => store.Ordered ∧ store.DistinctSources (edgeCollection T field)) validating
    (fun store vacant => ?_) fun course linked finishes h => ?_).2
  · refine ⟨.of_empty vacant, fun a ha => ?_⟩
    rw [vacant] at ha
    cases ha
  · exact ⟨finishes.ran.ordered h.1,
      course.distinctSources id validating declared single own free linked finishes.ran h.2⟩

/-- A spouse takes the place of another one, whereas a second one at the same time is refused. -/
def weddings : List (List Operation) :=
  [wedding.request, wedding.request, (bond "spouse" "Kinsman/1" "Kinsman/4").request,
    (Mutation.update "Kinsman" (.str "Kinsman/1")
      [("spouse", .obj [("connect", .str "Kinsman/5")])]).request]

theorem reachable_single_edges_family :
    ∃ s, Session.after? (family .default) weddings = some s ∧
      s.engine.database.store.ends "SpouseEdgeFromKinsman" =
        [(some "Kinsman/4", some "Kinsman/5"), (some "Kinsman/1", some "Kinsman/5")] ∧
      s.engine.database.store.SingleEdges "SpouseEdgeFromKinsman" := by
  have ends : (Session.after? (family .default) weddings).map
      (fun s => s.engine.database.store.ends "SpouseEdgeFromKinsman") =
        some [(some "Kinsman/4", some "Kinsman/5"), (some "Kinsman/1", some "Kinsman/5")] := by
    decide +kernel
  obtain ⟨s, after, ends⟩ := Option.map_eq_some_iff.mp ends
  refine ⟨s, after, ends, ?_⟩
  exact reachable_single_edges _ .plain s (Session.reachable_after after (by decide)) rfl "Kinsman"
    "spouse" ⟨"spouse", .named "Kinsman", []⟩ rfl rfl (by decide +kernel) (by decide +kernel)

end DocGraph
