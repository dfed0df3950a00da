import DocGraph.Proofs.Checks
import DocGraph.Proofs.Moves

/-! # Edges of a collection

Where no object type has the name of a collection of edges and no edge is updated, the collection changes
in few ways: edges are inserted with their ends, and taken out (`Emits.untouched_or_putsEdge`). If the
ends of new edges are validated, every edge leaves a document that the type of its field may stand for,
and both of its ends have been given out: `Linked`. What contexts that finish keep on such databases
holds in every session (`Session.ReachableBy.maintains`). If directives are checked, the source of every
new edge is checked at the end: `Course.checked_or_old`. -/

namespace DocGraph

variable {m : Model} {D : Demands} {schema : Schema} {c c' : Context} {ds ds' : List Duty}
  {ss : List Statement} {write : NameSet} {params : Record Json} {db : Database} {run run' : Run}
  {C : String} {number : Nat} {remembers : Bool} {answers : List (String × String)}

/-! ### Steps that put edges into a collection -/

/-- No object type has the name of a collection. -/
def Schema.Free (s : Schema) (C : String) : Prop :=
  ∀ u ∈ s.types, u.kind = .object → u.name ≠ C

instance (s : Schema) (C : String) : Decidable (s.Free C) :=
  inferInstanceAs (Decidable (∀ u ∈ s.types, u.kind = .object → u.name ≠ C))

/-- No other type than `T` has edges in a collection. -/
def Schema.OnlyFrom (s : Schema) (T C : String) : Prop :=
  ∀ u ∈ s.types, ∀ field, edgeCollection u.name field = C → u.name = T

/-- The type of an edge can be read off the end of the name of its collection. -/
theorem suffix_edgeCollection (type field : String) :
    ("EdgeFrom" ++ Text.capitalize type).toList.isSuffixOf (edgeCollection type field).toList = true := by
  simp [edgeCollection]

theorem Schema.onlyFrom_of_suffix {s : Schema} {T C : String}
    (h : ∀ u ∈ s.types,
      ("EdgeFrom" ++ Text.capitalize u.name).toList.isSuffixOf C.toList = true → u.name = T) :
    s.OnlyFrom T C := by
  intro u hu field same
  exact h u hu (same ▸ suffix_edgeCollection u.name field)

theorem Schema.Free.ne {type : String} (free : m.schema.Free C)
    (object : ∃ t, m.objectType type = .ok t) : type ≠ C := by
  obtain ⟨t, ht⟩ := object
  obtain ⟨type_def, kind⟩ := Model.typeDef_of_objectType ht
  have ne := free t (Schema.mem_types_of_typeDef type_def) kind
  rwa [Schema.name_of_typeDef type_def] at ne

/-- A step that inserts an edge into a collection, with what is known of its ends. -/
inductive PutsEdge (m : Model) (c : Context) (ds : List Duty) (C : String) : List Statement → Prop
  | mk {var type field p : String} {imports : List (String × Ref)} {source target : Ref}
      (name : C = edgeCollection type field) (duty : .directives type source none ∈ ds)
      (known : c.Known source)
      (validated : m.settings.skipEdgeValidation = false →
        (∃ sources, m.schema.possibleCollections type = .ok sources ∧ c.Vouches sources source) ∧
          ∃ targets, c.Vouches targets target)
      (unoccupied : m.settings.skipEdgeValidation = false →
        c.AssertsFree m.schema type field source) :
      PutsEdge m c ds C [.insert var C (.param p) imports (some (source, target))]

/-- A step puts nothing into a collection of edges only, or it inserts an edge. -/
theorem Emits.untouched_or_putsEdge (e : Emits m D c ds ss c' ds') (fixed : ¬ D.edgeUpdates)
    (free : m.schema.Free C) : (∀ b ∈ partsOf ss, b.target? ≠ some C) ∨ PutsEdge m c ds' C ss := by
  have nowhere : (none : Option String) ≠ some C := Ne.symm (Option.some_ne_none C)
  have elsewhere : ∀ {type : String}, (∃ t, m.objectType type = .ok t) → some type ≠ some C :=
    fun object same => free.ne object (Option.some.inj same)
  have nothing : ∀ b ∈ partsOf [], b.target? ≠ some C := fun b hb => by cases hb
  cases e with
  | param | name | lockWrite | lockRead | noKey | defer | waive | forget => exact Or.inl nothing
  | remark | abort | remove | removeEdge | dropEdges | assertFree | «export» | assertKey =>
      exact Or.inl (forall_partsOf_one rfl nowhere)
  | insert _ _ _ object => exact Or.inl (forall_partsOf_one rfl (elsewhere object))
  | update _ _ _ _ object => exact Or.inl (forall_partsOf_one rfl (elsewhere object))
  | updateEdge _ _ _ _ allowed => exact absurd allowed fixed
  | @insertEdge _ _ type field _ _ _ _ _ _ _ known _ _ validated unoccupied =>
      by_cases same : edgeCollection type field = C
      · subst same
        exact Or.inr (.mk rfl List.mem_cons_self known validated unoccupied)
      · exact Or.inl (forall_partsOf_one rfl fun h => same (Option.some.inj h))
  | assertExists => exact Or.inl (forall_partsOf_existsCheck nowhere fun _ => nowhere)
  | clearEdges => exact Or.inl (forall_partsOf_clear fun _ _ => nowhere)

/-- The ids at the ends of the edges of a collection. -/
def Store.ends (store : Store) (C : String) : List (Option String × Option String) :=
  (store.documents C : List (String × Document)).map fun e =>
    (Document.text? e.2 Field.source, Document.text? e.2 Field.target)

/-- A new edge has the next key and the values of its two ends. -/
theorem Performs.ends_of_mem {var p : String} {imports : List (String × Ref)} {source target : Ref}
    {e : String × Document}
    (q : Performs write params (.insert var C (.param p) imports (some (source, target))) run run')
    (he : e ∈ run'.store.documents C) :
    e ∈ run.store.documents C ∨
      e.1 = run.nextKey ∧
        ∃ a b, source.value (run.scope params) = .ok a ∧ target.value (run.scope params) = .ok b ∧
          Record.get? e.2 Field.source = some a ∧ Record.get? e.2 Field.target = some b := by
  cases q with
  | insert read withEnds writable there =>
      rcases Store.eq_or_mem_of_mem_documents_put there he with ⟨_, rfl⟩ | old
      · obtain ⟨a, ha, rest⟩ := exists_of_andThen_ok withEnds
        obtain ⟨b, hb, rest⟩ := exists_of_andThen_ok rest
        cases rest
        refine Or.inr ⟨rfl, a, b, ha, hb, ?_, ?_⟩
        · simp [Run.keyed, Record.get?_insert, Field.source, Field.target, Field.id, Field.key]
        · simp [Run.keyed, Record.get?_insert, Field.target, Field.id, Field.key]
      · exact Or.inl old

/-! ### Validated edges -/

/-- An edge of a field of some type: it leaves a document that the type may stand for, and the ids at
both ends have been given out. -/
structure Linked (schema : Schema) (lastKey : Nat) (C : String) (d : Document) : Prop where
  source : ∃ type field sources A i, C = edgeCollection type field ∧
    schema.possibleCollections type = .ok sources ∧ A ∈ sources ∧
    Record.get? d Field.source = some (.str i) ∧ IssuedIn lastKey A i
  target : ∃ B i, Record.get? d Field.target = some (.str i) ∧ IssuedIn lastKey B i

theorem Linked.mono {k k' : Nat} {d : Document} (h : Linked schema k C d) (le : k ≤ k') :
    Linked schema k' C d := by
  obtain ⟨⟨type, field, sources, A, i, name, possible, hA, source, given⟩, B, j, target, given'⟩ := h
  exact ⟨⟨type, field, sources, A, i, name, possible, hA, source, given.mono le⟩, B, j, target,
    given'.mono le⟩

/-- Every edge of a collection is linked. -/
def Store.AllLinked (schema : Schema) (store : Store) (lastKey : Nat) (C : String) : Prop :=
  ∀ d ∈ store.documents C, Linked schema lastKey C d.2

theorem Emits.allLinked (e : Emits m D c ds ss c' ds') (st : Stage write params db c ds run)
    (fixed : ¬ D.edgeUpdates) (validating : m.settings.skipEdgeValidation = false)
    (free : m.schema.Free C) (keyed : db.store.Keyed) (issued : db.store.Issued db.lastKey)
    (p : PerformsAll write params ss run run') (h : run.store.AllLinked m.schema run.lastKey C) :
    run'.store.AllLinked m.schema run'.lastKey C := by
  intro d hd
  rcases e.untouched_or_putsEdge fixed free with untouched | puts
  · exact (h d (p.mem_documents untouched hd)).mono p.lastKey_le
  · cases puts with
    | mk name duty known validated =>
        rcases (performsAll_singleton.mp p).ends_of_mem hd with
          old | ⟨_, a, b, ha, hb, source, target⟩
        · exact (h d old).mono p.lastKey_le
        · obtain ⟨⟨sources, possible, vouched⟩, targets, vouched'⟩ := validated validating
          obtain ⟨i, value, A, hA, given⟩ := st.vouched keyed issued vouched
          obtain ⟨j, value', B, _, given'⟩ := st.vouched keyed issued vouched'
          cases ha.symm.trans value
          cases hb.symm.trans value'
          exact ⟨⟨_, _, sources, A, i, name, possible, hA, source, given.mono p.lastKey_le⟩,
            B, j, target, given'.mono p.lastKey_le⟩

/-- A database whose edges are linked, with every document under the key in its id and every key
given out. -/
structure Database.Linked (schema : Schema) (db : Database) : Prop where
  keyed : db.store.Keyed
  issued : db.store.Issued db.lastKey
  edges : ∀ C, schema.Free C → db.store.AllLinked schema db.lastKey C

theorem Database.Linked.of_vacant (h : db.store.Vacant) : db.Linked schema where
  keyed C e he := by
    rw [h C] at he
    cases he
  issued C e he := by
    rw [h C] at he
    cases he
  edges C _ e he := by
    rw [h C] at he
    cases he

theorem Course.linked (course : Course m D number remembers c ss answers) (fixed : ¬ D.edgeUpdates)
    (validating : m.settings.skipEdgeValidation = false) (h : db.Linked m.schema)
    (p : PerformsAll c.write c.params c.statements (Run.start db) run) :
    (⟨run.store, run.lastKey⟩ : Database).Linked m.schema where
  keyed := p.keyed h.keyed
  issued := p.issued h.issued
  edges C free := by
    refine course.along (J := fun _ _ r => r.store.AllLinked m.schema r.lastKey C) (h.edges C free)
      (fun st e p hr => ?_) (fun r r' store _ lastKey hr => ?_) id p
    · exact e.allLinked st fixed validating free h.keyed h.issued p hr
    · rw [store, lastKey]
      exact hr

/-- Transactions keep edges linked. -/
theorem kept_linked (fixed : ¬ D.edgeUpdates) (validating : m.settings.skipEdgeValidation = false) :
    Kept m D (Database.Linked m.schema) := by
  rintro db t ⟨c, _, _, _, _, course, rfl⟩ h
  rcases course.same_or_finishes db with ⟨same, le⟩ | ⟨run, finishes, ran⟩
  · refine ⟨same ▸ h.keyed, fun C e he => ?_, fun C free d hd => ?_⟩
    · obtain ⟨n, hn, key⟩ := h.issued C e (same ▸ he)
      exact ⟨n, Nat.le_trans hn le, key⟩
    · exact (h.edges C free d (same ▸ hd)).mono le
  · rw [ran]
    exact course.linked fixed validating h finishes.ran

/-- Next to a property of databases that transactions keep, what a new store has and contexts that
finish keep holds in every session that can be reached without updates of edges. -/
theorem Session.ReachableBy.upkeep {kind : EngineKind} {s : Session} {Q : Database → Prop}
    {P : Store → Prop}
    (reachable : Session.ReachableBy (fun mutation => mutation.updatesEdge = false) m kind s)
    (kept : Kept m .fixedEdges Q)
    (begins : ∀ db : Database, db.IsNew m.schema → Q db ∧ P db.store)
    (keeps : ∀ {number remembers c ss answers db run},
      Course m .fixedEdges number remembers c ss answers → Q db → Finishes m.schema c db run →
        P db.store → P run.store) :
    Q s.engine.database ∧ P s.engine.database.store := by
  have both : Kept m .fixedEdges fun db => Q db ∧ P db.store := by
    intro db t on h
    refine ⟨kept db t on h.1, ?_⟩
    obtain ⟨c, _, _, _, _, course, rfl⟩ := on
    rcases course.same_or_finishes db with ⟨same, _⟩ | ⟨run, finishes, ran⟩
    · rw [same]
      exact h.2
    · rw [ran]
      exact keeps course h.1 finishes h.2
  exact (reachable.sound both (fun _ => Mutation.meets_fixedEdges) begins).database

/-- What an empty store has, and what contexts that finish keep, holds in every session that can be
reached without updates of edges and with edges validated. -/
theorem Session.ReachableBy.maintains {kind : EngineKind} {s : Session} {P : Store → Prop}
    (reachable : Session.ReachableBy (fun mutation => mutation.updatesEdge = false) m kind s)
    (validating : m.settings.skipEdgeValidation = false)
    (begins : ∀ store : Store, store.Vacant → P store)
    (keeps : ∀ {number remembers c ss answers db run},
      Course m .fixedEdges number remembers c ss answers → db.Linked m.schema →
        Finishes m.schema c db run → P db.store → P run.store) :
    s.engine.database.Linked m.schema ∧ P s.engine.database.store :=
  reachable.upkeep (kept_linked id validating)
    (fun _ new => ⟨.of_vacant new.vacant, begins _ new.vacant⟩) keeps

/-! ### Edges whose source is checked -/

/-- The source of an edge is going to be checked. -/
def Heeded (schema : Schema) (c : Context) (ds : List Duty) (scope : Scope) (C : String)
    (d : Document) : Prop :=
  ∃ type field, C = edgeCollection type field ∧
    Attended schema c ds scope type (d.read Field.source)

theorem Emits.heeded {P : String × Document → Prop} (e : Emits m D c ds ss c' ds')
    (st : Stage write params db c ds run) (fixed : ¬ D.edgeUpdates)
    (checking : m.settings.skipDirectives = false) (free : m.schema.Free C)
    (p : PerformsAll write params ss run run')
    (h : ∀ d ∈ run.store.documents C, P d ∨ Heeded m.schema c ds (run.scope params) C d.2) :
    ∀ d ∈ run'.store.documents C, P d ∨ Heeded m.schema c' ds' (run'.scope params) C d.2 := by
  intro d hd
  have old : d ∈ run.store.documents C →
      P d ∨ Heeded m.schema c' ds' (run'.scope params) C d.2 := by
    intro hd
    refine (h d hd).imp_right fun ⟨type, field, same, attended⟩ => ⟨type, field, same, ?_⟩
    exact attended.step st.scoping e checking p
  rcases e.untouched_or_putsEdge fixed free with untouched | puts
  · exact old (p.mem_documents untouched hd)
  · cases puts with
    | @mk _ type field _ _ source _ name duty known _ =>
        rcases (performsAll_singleton.mp p).ends_of_mem hd with hd | ⟨_, a, b, ha, _, get, _⟩
        · exact old hd
        · refine Or.inr ⟨type, field, name, .of_duty (e.scoping st.scoping) duty ?_⟩
          have fixes : c.Fixes source := .of_reads (st.scoping.reads_known known)
          rw [fixes.value_eq (e.setsAnew st.scoping) p, ha, Document.read_of_get? get]

/-- When a transaction has run, every edge of the collection was there before, or the directives of
its source have been found in order. -/
theorem Course.checked_or_old {d : String × Document}
    (course : Course m D number remembers c ss answers) (fixed : ¬ D.edgeUpdates)
    (checking : m.settings.skipDirectives = false) (free : m.schema.Free C)
    (finishes : Finishes m.schema c db run) (hd : d ∈ run.store.documents C) :
    d ∈ db.store.documents C ∨
      ∃ type field, C = edgeCollection type field ∧
        run.store.Upholds m.schema type (Document.read d.2 Field.source) := by
  have heeded : ∀ d ∈ run.store.documents C, d ∈ db.store.documents C ∨
      Heeded m.schema c [] (run.scope c.params) C d.2 := by
    refine course.along (J := fun c₁ ds r => ∀ d ∈ r.store.documents C, d ∈ db.store.documents C ∨
      Heeded m.schema c₁ ds (r.scope c.params) C d.2) (fun d hd => Or.inl hd)
      (fun st e p h => e.heeded st fixed checking free p h) (fun r r' store vars _ h d hd => ?_) id
      finishes.ran
    refine (h d (store ▸ hd)).imp_right fun ⟨type, field, same, attended⟩ => ?_
    exact ⟨type, field, same, attended.answer vars⟩
  refine (heeded d hd).imp_right fun ⟨type, field, same, attended⟩ => ?_
  exact ⟨type, field, same, finishes.upholds attended⟩

end DocGraph
