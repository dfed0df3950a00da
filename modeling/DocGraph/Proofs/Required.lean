import DocGraph.Proofs.Edges

/-! # Targets that need an edge

A field with `@requiredForTarget` asks for an edge to every document that it may lead to, and the reverse
field of these documents asks for the same with `@required`. The first is checked when a document of
the source type or one of its edges is written or taken out, the second when a target is written. At
every stage of a run either a check of the first kind is going to be made, or every target has an edge
or is going to be checked itself: `Minded`. For this one has to know which edges a step takes out
(`Emits.kept_or_lost`) and which documents it adds (`Emits.old_or_attended`). The main statement is
`reachable_required_targets`. It needs that the targets have no name of a collection of other edges,
since nobody checks an edge as a target: `reachable_astray_target`. -/

namespace DocGraph

variable {m : Model} {D : Demands} {schema : Schema} {c c' : Context} {ds ds' : List Duty}
  {ss : List Statement} {write : NameSet} {params : Record Json} {db : Database}
  {run run' : Run} {store : Store} {C U i : String} {number : Nat} {remembers : Bool}
  {answers : List (String × String)} {e : String × Document}

/-! ### Edges that stay -/

/-- The collection in which a statement changes documents or takes them out. -/
def Statement.alters? : Statement → Option String
  | .update _ collection _ _ _ => some collection
  | .remove _ collection _ => some collection
  | .removeEdges collection _ _ => some collection
  | _ => none

/-- A collection keeps its documents as they are unless some part changes them or takes them out. -/
theorem PerformsAll.mem_of_unaltered (p : PerformsAll write params ss run run')
    (issued : run.store.Issued run.lastKey) (h : ∀ b ∈ partsOf ss, b.alters? ≠ some C)
    (he : e ∈ run.store.documents C) : e ∈ run'.store.documents C := by
  refine (p.invariant (I := fun r => r.store.Issued r.lastKey ∧ e ∈ r.store.documents C) ss
    (fun b hb r r' q hr => ⟨(performsAll_singleton.mpr q).issued hr.1, ?_⟩) ⟨issued, he⟩).2
  obtain ⟨issued, he⟩ := hr
  have other := h b hb
  cases q with
  | @insert _ _ collection _ _ _ _ _ _ _ _ _ there =>
      rw [Store.documents_set]
      split
      · rename_i same
        subst same
        rw [Store.documents_eq there] at he
        refine NameMap.mem_insert_of_ne he fun taken => ?_
        obtain ⟨n, hn, key⟩ := issued C e (Store.documents_eq there ▸ he)
        have : n = r.lastKey + 1 := toString_inj (key.symm.trans taken)
        omega
      · exact he
  | update | remove | removeEdges =>
      rw [Store.documents_set, if_neg fun same => other (congrArg some same.symm)]
      exact he
  | comment | bind | miss | setResult | assert => exact he
  | pass | enter => exact absurd rfl (not_guarded_of_mem_partsOf ss hb _ _)

/-- Clearing the edges at a document takes out those that touch it, and no others. -/
theorem PerformsAll.mem_or_touches {var : String} {collections : List String} {v : Json}
    (p : PerformsAll write params
      (collections.map fun C => .removeEdges C (Ref.doc var).id .any) run run')
    (value : (Ref.doc var).id.value (run.scope params) = .ok v) (he : e ∈ run.store.documents C) :
    e ∈ run'.store.documents C ∨ Run.touches .any v e.2 = true := by
  refine (p.invariant (I := fun r => r.vars = run.vars ∧
    (e ∈ r.store.documents C ∨ Run.touches .any v e.2 = true)) _ (fun b hb r r' q hr => ?_)
    ⟨rfl, Or.inl he⟩).2
  obtain ⟨s, hs, hb⟩ := mem_partsOf.mp hb
  obtain ⟨C', _, rfl⟩ := List.mem_map.mp hs
  rw [List.mem_singleton.mp hb] at q
  obtain ⟨vars, h⟩ := hr
  cases q with
  | @removeEdges _ _ _ _ v' c value' _ there =>
      refine ⟨vars, ?_⟩
      have same : r.scope params = run.scope params := congrArg (Scope.mk params) vars
      rw [same, value] at value'
      cases value'
      rcases h with he | touched
      · by_cases touched : Run.touches .any v e.2 = true
        · exact Or.inr touched
        · refine Or.inl ?_
          rw [Store.documents_set]
          split
          · rename_i same
            rw [same, Store.documents_eq there] at he
            exact List.mem_filter.mpr ⟨he, by simpa using touched⟩
          · exact he
      · exact Or.inr touched

/-- An edge that touches an id has it at one end. -/
theorem read_of_touches {d : Document} (h : Run.touches .any (.str i) d = true) :
    d.read Field.source = .str i ∨ d.read Field.target = .str i := by
  have read : ∀ {field : String} {v : Json}, Record.get? d field = some v →
      v.same (.str i) = true → d.read field = .str i := by
    intro field v get same
    rw [Document.read_of_get? get, Json.same_str.mp same]
  simp only [Run.touches, Bool.or_eq_true] at h
  rcases h with h | h
  · split at h
    · rename_i get
      exact Or.inl (read get h)
    · cases h
  · split at h
    · rename_i get
      exact Or.inr (read get h)
    · cases h

/-! ### Documents that are gone -/

/-- A document that has been taken out and whose edges are still to be cleared is not there. -/
def Gone (ds : List Duty) (run : Run) : Prop :=
  ∀ var X, .edges var X ∈ ds → run.vars.get? var = some .null ∨
    ∃ d n, run.vars.get? var = some (.obj d) ∧ n ≤ run.lastKey ∧
      Record.get? d Field.id = some (.str (DocumentId.ofKey X (toString n)).text) ∧
      ¬ run.store.Stores X (toString n)

theorem Gone.nil : Gone [] run := by
  intro var X duty
  cases duty

theorem Gone.step (h : Gone ds run) (anew : SetsAnew c ss) (sc : Scoping c ds)
    (p : PerformsAll write params ss run run')
    (kept : ∀ var X, .edges var X ∈ ds' → .edges var X ∈ ds) : Gone ds' run' := by
  intro var X duty
  have duty := kept var X duty
  have same := p.get?_vars_eq (anew var .removed (sc.duties _ duty))
  rw [same]
  refine (h var X duty).imp_right fun ⟨d, n, held, hn, id, gone⟩ => ?_
  exact ⟨d, n, held, Nat.le_trans hn p.lastKey_le, id, fun stored => gone (p.stores_of_issued hn stored)⟩

theorem Emits.gone (e : Emits m D c ds ss c' ds') (sc : Scoping c ds) (keyed : run.store.Keyed)
    (issued : run.store.Issued run.lastKey) (p : PerformsAll write params ss run run')
    (h : Gone ds run) : Gone ds' run' := by
  have step : (∀ var X, .edges var X ∈ ds' → .edges var X ∈ ds) → Gone ds' run' :=
    h.step (e.setsAnew sc) sc p
  cases e with
  | @remove var type id =>
      intro x X duty
      simp only [List.mem_cons, Duty.edges.injEq, reduceCtorEq, List.not_mem_nil, or_false] at duty
      obtain ⟨rfl, rfl⟩ := duty
      cases performsAll_singleton.mp p with
      | miss => exact Or.inl ((Record.get?_insert ..).trans (if_pos rfl))
      | @remove _ _ _ key _ coll old v _ _ there _ found =>
          have entry := NameMap.mem_of_get? found
          rw [← Store.documents_eq there] at entry
          obtain ⟨n, hn, rfl⟩ := issued _ _ entry
          refine Or.inr ⟨old, n, (Record.get?_insert ..).trans (if_pos rfl), hn, keyed _ _ entry, ?_⟩
          rintro ⟨d, hd⟩
          rw [Store.documents_set, if_pos rfl] at hd
          simpa using (List.mem_filter.mp hd).2
  | remark | abort | param | lockWrite | lockRead | dropEdges | assertExists | assertFree
  | «export» => exact step fun _ _ duty => duty
  | name | insert | insertEdge => exact step fun _ _ duty => by simpa using duty
  | update | updateEdge | removeEdge => exact step fun _ _ duty => by simp at duty
  | assertKey | noKey | clearEdges | defer | waive | forget =>
      exact step fun _ _ duty => List.mem_cons_of_mem _ duty

/-! ### Edges that are lost -/

/-- Some type with edges in a collection is going to be checked, for some document. -/
def Revisited (schema : Schema) (c : Context) (ds : List Duty) (scope : Scope) (C : String) : Prop :=
  ∃ type field v, edgeCollection type field = C ∧ Attended schema c ds scope type v

theorem Revisited.step (h : Revisited m.schema c ds (run.scope params) C) (sc : Scoping c ds)
    (s : Emits m D c ds ss c' ds') (checking : m.settings.skipDirectives = false)
    (p : PerformsAll write params ss run run') :
    Revisited m.schema c' ds' (run'.scope params) C := by
  obtain ⟨type, field, v, name, attended⟩ := h
  exact ⟨type, field, v, name, attended.step sc s checking p⟩

theorem Performs.kept_or_held {var : String} {id : Ref}
    (q : Performs write params (.remove var C id) run run') (he : e ∈ run.store.documents C) :
    e ∈ run'.store.documents C ∨ ∃ d, run'.vars.get? var = some (.obj d) := by
  cases q with
  | miss => exact Or.inl he
  | remove => exact Or.inr ⟨_, (Record.get?_insert ..).trans (if_pos rfl)⟩

/-- The end of an edge is gone. -/
def Store.Loose (store : Store) (d : Document) : Prop :=
  ∃ X, ∃ n : Nat, d.read Field.target = .str (DocumentId.ofKey X (toString n)).text ∧
    ¬ store.Stores X (toString n)

section lost

variable {T : String}

/-- An object type is the only one with edges in a collection, and no object type has its name. -/
structure Schema.Sole (s : Schema) (T C : String) : Prop where
  object : ∃ t, s.typeDef T = .ok t ∧ t.kind = .object
  own : s.OnlyFrom T C
  free : s.Free C

/-- Of the edges of an object type that are cleared with a document, those that leave it are edges of
the type of the document. -/
theorem Linked.eq_of_source {X : String} {k n : Nat} {d : Document} (h : Linked schema k C d)
    (sole : schema.Sole T C)
    (source : d.read Field.source = .str (DocumentId.ofKey X (toString n)).text) :
    X = T ∧ ∃ field, edgeCollection T field = C := by
  obtain ⟨type, field, sources, A, i, rfl, possible, hA, get, given⟩ := h.source
  have read : d.read Field.source = .str i := Document.read_of_get? get
  have same : type = T := by
    obtain ⟨u, type_def⟩ := Schema.exists_typeDef_of_possibleCollections possible
    have name := sole.own u (Schema.mem_types_of_typeDef type_def) field
    rw [Schema.name_of_typeDef type_def] at name
    exact name rfl
  subst same
  obtain ⟨t, type_def, object⟩ := sole.object
  rw [Schema.possibleCollections_of_object type_def object] at possible
  cases possible
  rw [List.mem_singleton.mp hA] at given
  obtain ⟨n', _, rfl⟩ := given
  exact ⟨(ofKey_toString_inj (Json.str.inj (source.symm.trans read))).1, field, rfl⟩

/-- Clearing the edges at a document that is gone spares an edge, or the type of the document is going
to be checked, or the edge has led to the document. -/
theorem Stage.kept_or_lost_clear {var type : String} {collections : List String}
    (st : Stage write params db c (.edges var type :: ds) run)
    (owed : .directives type (Ref.doc var).id (some (.doc var)) ∈ ds)
    (gone : Gone (.edges var type :: ds) run) (sole : schema.Sole T C)
    (linked : Linked schema run.lastKey C e.2) (he : e ∈ run.store.documents C)
    (p : PerformsAll write params [.guarded (.doc var)
      (collections.map fun C => .removeEdges C (Ref.doc var).id .any)] run run') :
    e ∈ run'.store.documents C ∨
      Revisited schema c (.edges var type :: ds) (run.scope params) C ∨ run'.store.Loose e.2 := by
  cases performsAll_singleton.mp p with
  | pass => exact Or.inl he
  | @enter _ _ _ _ v value yes inner =>
      rcases gone var type List.mem_cons_self with null | ⟨d, n, held, hn, id, gone⟩
      · cases (value_doc null).symm.trans value
        cases yes
      · have text : (Ref.doc var).id.value (run.scope params) = _ := Stage.value_id_doc held id
        rcases inner.mem_or_touches text he with kept | touched
        · exact Or.inl kept
        · rcases read_of_touches touched with source | target
          · obtain ⟨rfl, field, name⟩ := linked.eq_of_source sole source
            exact Or.inr (Or.inl ⟨_, field, _, name, .of_guarded_duty st.scoping
              (List.mem_cons_of_mem _ owed) held text⟩)
          · exact Or.inr (Or.inr ⟨type, n, target,
              fun stored => gone (p.stores_of_issued hn stored)⟩)

/-- A step keeps an edge of an object type, or a type with edges in the collection is going to be
checked, or the end of the edge is gone. -/
theorem Emits.kept_or_lost (s : Emits m D c ds ss c' ds') (st : Stage write params db c ds run)
    (fixed : ¬ D.edgeUpdates) (checking : m.settings.skipDirectives = false)
    (sole : m.schema.Sole T C) (issued : db.store.Issued db.lastKey) (gone : Gone ds run)
    (linked : run.store.AllLinked m.schema run.lastKey C)
    (p : PerformsAll write params ss run run') (he : e ∈ run.store.documents C) :
    e ∈ run'.store.documents C ∨ Revisited m.schema c' ds' (run'.scope params) C ∨
      run'.store.Loose e.2 := by
  have sc := s.scoping st.scoping
  have keeps : (∀ b ∈ partsOf ss, b.alters? ≠ some C) → e ∈ run'.store.documents C :=
    fun unaltered => p.mem_of_unaltered (st.issued issued) unaltered he
  have later : Revisited m.schema c ds (run.scope params) C →
      Revisited m.schema c' ds' (run'.scope params) C :=
    fun revisited => revisited.step st.scoping s checking p
  have nowhere : (none : Option String) ≠ some C := Ne.symm (Option.some_ne_none C)
  have elsewhere : ∀ {type : String}, (∃ t, m.objectType type = .ok t) → some type ≠ some C :=
    fun object same => sole.free.ne object (Option.some.inj same)
  cases s with
  | param | name | lockWrite | lockRead | noKey | defer | waive | forget =>
      exact Or.inl (keeps fun b hb => by cases hb)
  | remark | abort | insert | insertEdge | assertFree | «export» | assertKey =>
      exact Or.inl (keeps (forall_partsOf_one rfl nowhere))
  | update _ _ _ _ object | remove _ _ _ object =>
      exact Or.inl (keeps (forall_partsOf_one rfl (elsewhere object)))
  | updateEdge _ _ _ _ allowed => exact absurd allowed fixed
  | assertExists => exact Or.inl (keeps (forall_partsOf_existsCheck nowhere fun _ => nowhere))
  | @removeEdge var type field id =>
      by_cases same : edgeCollection type field = C
      · subst same
        rcases (performsAll_singleton.mp p).kept_or_held he with kept | ⟨d, held⟩
        · exact Or.inl kept
        · exact Or.inr (Or.inl ⟨type, field, _, rfl,
            .of_guarded_duty sc List.mem_cons_self held (Stage.value_field_doc held)⟩)
      · exact Or.inl (keeps (forall_partsOf_one rfl fun h => same (Option.some.inj h)))
  | @dropEdges _ type field id _ _ owed =>
      by_cases same : edgeCollection type field = C
      · obtain ⟨r, duty⟩ := owed
        obtain ⟨v, value⟩ := st.exists_value (st.scoping.duties _ duty)
        exact Or.inr (Or.inl (later ⟨type, field, v, same, .of_duty st.scoping duty value⟩))
      · exact Or.inl (keeps (forall_partsOf_one rfl fun h => same (Option.some.inj h)))
  | clearEdges _ _ owed =>
      refine (st.kept_or_lost_clear owed gone sole (linked e he) he p).imp_right
        fun lost => lost.imp_left later

end lost

/-! ### Documents that are new -/

/-- The collection into which a statement inserts. -/
def Statement.adds? : Statement → Option String
  | .insert _ collection _ _ _ => some collection
  | _ => none

/-- A collection into which no part inserts has no new keys. -/
theorem PerformsAll.stores_of_mem {d : String × Document} (p : PerformsAll write params ss run run')
    (h : ∀ b ∈ partsOf ss, b.adds? ≠ some U) (hd : d ∈ run'.store.documents U) :
    run.store.Stores U d.1 := by
  refine p.invariant (I := fun r => ∀ d ∈ r.store.documents U, run.store.Stores U d.1) ss
    (fun b hb r r' q hr d hd => ?_) (fun d hd => ⟨d.2, hd⟩) d hd
  have other := h b hb
  cases q with
  | insert _ _ _ there =>
      rcases Store.eq_or_mem_of_mem_documents_put there hd with ⟨same, _⟩ | old
      · exact absurd (congrArg some same.symm) other
      · exact hr d old
  | update _ _ _ there _ found =>
      rcases Store.eq_or_mem_of_mem_documents_put there hd with ⟨rfl, rfl⟩ | old
      · have old := NameMap.mem_of_get? found
        rw [← Store.documents_eq there] at old
        have stored := hr _ old
        exact stored
      · exact hr d old
  | remove _ _ there | removeEdges _ _ there =>
      exact hr d (Store.mem_of_mem_documents_set there (fun e he => (List.mem_filter.mp he).1) hd)
  | comment | bind | miss | setResult | assert => exact hr d hd
  | pass | enter => exact absurd rfl (not_guarded_of_mem_partsOf ss hb _ _)

/-- A new document of an insertion is in its variable. -/
theorem Performs.stores_or_held {var : String} {doc : Ref} {imports : List (String × Ref)}
    {ends : Option (Ref × Ref)} {d : String × Document}
    (q : Performs write params (.insert var C doc imports ends) run run')
    (hd : d ∈ run'.store.documents U) :
    run.store.Stores U d.1 ∨ U = C ∧ run'.vars.get? var = some (.obj d.2) ∧
      Record.get? d.2 Field.id = some (.str (DocumentId.ofKey U d.1).text) := by
  cases q with
  | insert _ _ _ there =>
      rcases Store.eq_or_mem_of_mem_documents_put there hd with ⟨rfl, rfl⟩ | old
      · exact Or.inr ⟨rfl, (Record.get?_insert ..).trans (if_pos rfl), get?_id_keyed _ _ _⟩
      · exact Or.inl ⟨d.2, old⟩

/-- A step adds no document to a collection whose type is not going to be checked for it, unless the
document is an edge and a type with edges there is going to be checked. -/
theorem Emits.old_or_attended {d : String × Document} (s : Emits m D c ds ss c' ds')
    (st : Stage write params db c ds run) (p : PerformsAll write params ss run run')
    (hd : d ∈ run'.store.documents U) :
    run.store.Stores U d.1 ∨
      Attended m.schema c' ds' (run'.scope params) U (.str (DocumentId.ofKey U d.1).text) ∨
      Revisited m.schema c' ds' (run'.scope params) U := by
  have sc := s.scoping st.scoping
  have anew := s.setsAnew st.scoping
  have nowhere : (none : Option String) ≠ some U := Ne.symm (Option.some_ne_none U)
  cases s with
  | param | name | lockWrite | lockRead | noKey | defer | waive | forget =>
      exact Or.inl (p.stores_of_mem (fun b hb => by cases hb) hd)
  | remark | abort | update | updateEdge | remove | removeEdge | dropEdges | assertFree | «export»
  | assertKey => exact Or.inl (p.stores_of_mem (forall_partsOf_one rfl nowhere) hd)
  | insert =>
      rcases (performsAll_singleton.mp p).stores_or_held hd with old | ⟨rfl, held, id⟩
      · exact Or.inl old
      · exact Or.inr (Or.inl (.of_duty sc (List.mem_cons_of_mem _ List.mem_cons_self)
          (Stage.value_id_doc held id)))
  | @insertEdge _ _ type field _ _ _ _ _ _ _ known =>
      rcases (performsAll_singleton.mp p).stores_or_held hd with old | ⟨rfl, _, _⟩
      · exact Or.inl old
      · have reads := st.scoping.reads_known known
        obtain ⟨v, value⟩ := st.exists_value reads
        refine Or.inr (Or.inr ⟨type, field, v, rfl, .of_duty sc List.mem_cons_self ?_⟩)
        exact ((Context.Fixes.of_reads reads).value_eq anew p).trans value
  | assertExists =>
      exact Or.inl (p.stores_of_mem (forall_partsOf_existsCheck nowhere fun _ => nowhere) hd)
  | clearEdges => exact Or.inl (p.stores_of_mem (forall_partsOf_clear fun _ _ => nowhere) hd)

/-! ### Targets with an edge -/

/-- An edge of a collection ends at an id. -/
def Store.HasInbound (store : Store) (C i : String) : Prop :=
  ∃ e ∈ store.documents C, Document.read e.2 Field.target = .str i

theorem Store.HasInbound.of_mem_singleton
    (h : ∃ C' ∈ [C], ∃ e ∈ store.documents C', Document.text? e.2 Field.target = some i) :
    store.HasInbound C i := by
  obtain ⟨C', hC', e, he, target⟩ := h
  rw [List.mem_singleton.mp hC'] at he
  exact ⟨e, he, Document.read_eq_str.mpr target⟩

/-- A type with edges in the collection or among the targets is going to be checked; or every target
has an edge, or is going to be checked itself. -/
def Minded (schema : Schema) (C : String) (targets : List String) (params : Record Json)
    (c : Context) (ds : List Duty) (run : Run) : Prop :=
  (∃ C' ∈ C :: targets, Revisited schema c ds (run.scope params) C') ∨
    ∀ U ∈ targets, ∀ d ∈ run.store.documents U,
      run.store.HasInbound C (DocumentId.ofKey U d.1).text ∨
        Attended schema c ds (run.scope params) U (.str (DocumentId.ofKey U d.1).text)

section minded

variable {T : String} {targets : List String}

/-- Each step leaves no target behind that is neither reached nor going to be checked. -/
theorem Emits.minded (s : Emits m D c ds ss c' ds') (st : Stage write params db c ds run)
    (fixed : ¬ D.edgeUpdates) (checking : m.settings.skipDirectives = false)
    (sole : m.schema.Sole T C) (issued : db.store.Issued db.lastKey) (gone : Gone ds run)
    (linked : run.store.AllLinked m.schema run.lastKey C)
    (p : PerformsAll write params ss run run') (h : Minded m.schema C targets params c ds run) :
    Minded m.schema C targets params c' ds' run' := by
  by_cases busy : ∃ C' ∈ C :: targets, Revisited m.schema c' ds' (run'.scope params) C'
  · exact Or.inl busy
  · have before := h.resolve_left fun ⟨C', hC', revisited⟩ =>
      busy ⟨C', hC', revisited.step st.scoping s checking p⟩
    refine Or.inr fun U hU d hd => ?_
    rcases s.old_or_attended st p hd with ⟨old, stored⟩ | attended | revisited
    · rcases before U hU (d.1, old) stored with ⟨e, he, target⟩ | attended
      · rcases s.kept_or_lost st fixed checking sole issued gone linked p he with
          kept | revisited | ⟨X, n, target', loose⟩
        · exact Or.inl ⟨e, kept, target⟩
        · exact absurd ⟨C, List.mem_cons_self, revisited⟩ busy
        · -- The edge has led to a document that is gone, but this one is there.
          obtain ⟨n', _, key⟩ := p.issued (st.issued issued) U d hd
          rw [target', key] at target
          obtain ⟨rfl, rfl⟩ := ofKey_toString_inj (Json.str.inj target)
          exact absurd ⟨d.2, key ▸ hd⟩ loose
      · exact Or.inr (attended.step st.scoping s checking p)
    · exact Or.inr attended
    · exact absurd ⟨U, List.mem_cons_of_mem _ hU, revisited⟩ busy

theorem Minded.answer {name var : String} (h : Minded schema C targets params c [] run)
    (store : run'.store = run.store) (vars : run'.vars = run.vars) :
    Minded schema C targets params (c.answer name var) [] run' := by
  unfold Minded
  rw [store]
  rcases h with ⟨C', hC', type, field, v, name, attended⟩ | minded
  · exact Or.inl ⟨C', hC', type, field, v, name, attended.answer vars⟩
  · exact Or.inr fun U hU d hd => (minded U hU d hd).imp_right fun attended => attended.answer vars

/-- If every target has had an edge, then at the end what is missing is going to be found. -/
theorem Course.minded (course : Course m D number remembers c ss answers) (fixed : ¬ D.edgeUpdates)
    (validating : m.settings.skipEdgeValidation = false)
    (checking : m.settings.skipDirectives = false) (sole : m.schema.Sole T C) (h : db.Linked m.schema)
    (inbound : ∀ U ∈ targets, ∀ d ∈ db.store.documents U,
      db.store.HasInbound C (DocumentId.ofKey U d.1).text)
    (p : PerformsAll c.write c.params c.statements (Run.start db) run) :
    Minded m.schema C targets c.params c [] run := by
  refine (course.along (J := fun c₁ ds r => r.store.AllLinked m.schema r.lastKey C ∧ Gone ds r ∧
    Minded m.schema C targets c.params c₁ ds r) ?_ ?_ ?_ id p).2.2
  · exact ⟨h.edges C sole.free, .nil, Or.inr fun U hU d hd => Or.inl (inbound U hU d hd)⟩
  · rintro now c₁ c₁' ds ds' ss r r' st s p ⟨linked, gone, minded⟩
    exact ⟨s.allLinked st fixed validating sole.free h.keyed h.issued p linked,
      s.gone st.scoping (st.keyed h.keyed) (st.issued h.issued) p gone,
      s.minded st fixed checking sole h.issued gone linked p minded⟩
  · rintro c₁ name var r r' store vars lastKey ⟨linked, _, minded⟩
    exact ⟨by rwa [store, lastKey], .nil, minded.answer store vars⟩

end minded

/-! ### Reverse fields -/

theorem Text.dropStart?_append (start rest : String) : dropStart? (start ++ rest) start = some rest := by
  simp [dropStart?, startsWith]

theorem Text.dropEnd?_append (rest ending : String) : dropEnd? (rest ++ ending) ending = some rest := by
  simp [dropEnd?]

theorem FieldDef.reverseEdge?_eq {g : FieldDef} {field T : String}
    (name : g.name = "_" ++ field ++ "From" ++ T) (base : g.type.base = T) (named : field ≠ "") :
    g.reverseEdge? = some ⟨field, T⟩ := by
  have inner : g.name = "_" ++ (field ++ ("From" ++ T)) := by
    rw [name, String.append_assoc, String.append_assoc]
  unfold reverseEdge?
  rw [inner, base, Text.dropStart?_append]
  simp [Text.dropEnd?_append, named]

/-! ### Required targets -/

/-- A field of an object type asks for an edge to each of its targets, and so does the reverse field of
each of the types it may lead to. No other type has edges in the collection of the field, and no object
type has the name of the collection. -/
structure Schema.Requires (s : Schema) (T : String) (f : FieldDef) (targets : List TypeDef) : Prop where
  object : ∃ t, s.typeDef T = .ok t ∧ t.kind = .object ∧ f ∈ t.fields
  named : f.name ≠ ""
  forward : f.Carries .requiredForTarget
  possible : s.possibleTypes f.type.base = .ok targets
  reverse : ∀ u ∈ targets, ∃ t, s.typeDef u.name = .ok t ∧ ∃ g ∈ t.fields,
    g.name = "_" ++ f.name ++ "From" ++ T ∧ g.type.base = T ∧ g.Carries .required
  own : s.OnlyFrom T (edgeCollection T f.name)
  free : s.Free (edgeCollection T f.name)

namespace Schema.Requires

variable {T : String} {f : FieldDef} {targets : List TypeDef} {u : TypeDef} {d : String × Document}

theorem sole (q : schema.Requires T f targets) : schema.Sole T (edgeCollection T f.name) where
  object := by
    obtain ⟨t, type_def, object, _⟩ := q.object
    exact ⟨t, type_def, object⟩
  own := q.own
  free := q.free

/-- Where the source type has been checked, all targets have an edge. -/
theorem hasInbound_of_source {v : Json} (q : schema.Requires T f targets)
    (h : store.Upholds schema T v) (keyed : store.Keyed) (hu : u ∈ targets)
    (hd : d ∈ store.documents u.name) :
    store.HasInbound (edgeCollection T f.name) (DocumentId.ofKey u.name d.1).text := by
  obtain ⟨t, type_def, _, hf⟩ := q.object
  obtain ⟨scope, id, _, clean⟩ := h.clean type_def hf q.forward
  have collections : schema.possibleCollections f.type.base = .ok (targets.map TypeDef.name) := by
    rw [Schema.possibleCollections, q.possible]
    rfl
  have clean := clean (.orphanTarget (targets.map TypeDef.name) [edgeCollection T f.name]) _
    (by rw [Directive.check?, collections]; rfl)
  exact .of_mem_singleton (exists_of_orphanTarget_clean clean (List.mem_map_of_mem hu) hd
    (Document.read_eq_str.mp (keyed.id_eq hd)))

/-- A target that has been checked has an edge. -/
theorem hasInbound_of_target (q : schema.Requires T f targets)
    (h : store.Upholds schema u.name (.str (DocumentId.ofKey u.name d.1).text)) (keyed : store.Keyed)
    (hu : u ∈ targets) (hd : d ∈ store.documents u.name) :
    store.HasInbound (edgeCollection T f.name) (DocumentId.ofKey u.name d.1).text := by
  obtain ⟨t, type_def, object, _⟩ := q.object
  obtain ⟨w, type_def', g, hg, name, base, carries⟩ := q.reverse u hu
  obtain ⟨scope, id, value, clean⟩ := h.clean type_def' hg carries
  have inbound : schema.possibleEdgeCollections T f.name = .ok [edgeCollection T f.name] := by
    rw [Schema.possibleEdgeCollections, Schema.possibleTypes_of_object type_def object,
      ← Schema.name_of_typeDef type_def]
    rfl
  have clean := clean (.missingInbound id u.name [edgeCollection T f.name]) _
    (by rw [Directive.check?, FieldDef.reverseEdge?_eq name base q.named]; simp only [inbound]; rfl)
  exact .of_mem_singleton
    (exists_of_missingInbound_clean clean value (keyed.hasId_iff.mpr ⟨d.1, rfl, d.2, hd⟩))

/-- A transaction keeps an edge to each target. -/
theorem hasInbound_of_finishes (q : m.schema.Requires T f targets)
    (apart : ∀ u ∈ targets, m.schema.OnlyFrom T u.name)
    (validating : m.settings.skipEdgeValidation = false)
    (checking : m.settings.skipDirectives = false)
    (course : Course m .fixedEdges number remembers c ss answers) (linked : db.Linked m.schema)
    (finishes : Finishes m.schema c db run)
    (h : ∀ U ∈ targets.map TypeDef.name, ∀ d ∈ db.store.documents U,
      db.store.HasInbound (edgeCollection T f.name) (DocumentId.ofKey U d.1).text) :
    ∀ U ∈ targets.map TypeDef.name, ∀ d ∈ run.store.documents U,
      run.store.HasInbound (edgeCollection T f.name) (DocumentId.ofKey U d.1).text := by
  have keyed := (course.linked id validating linked finishes.ran).keyed
  have own : ∀ C' ∈ edgeCollection T f.name :: targets.map TypeDef.name, m.schema.OnlyFrom T C' := by
    intro C' hC'
    rcases List.mem_cons.mp hC' with rfl | hC'
    · exact q.own
    · obtain ⟨u, hu, rfl⟩ := List.mem_map.mp hC'
      exact apart u hu
  intro U hU d hd
  obtain ⟨u, hu, rfl⟩ := List.mem_map.mp hU
  rcases course.minded id validating checking q.sole linked h finishes.ran with
    ⟨C', hC', type, field, v, name, attended⟩ | minded
  · -- The type that is checked can only be the source of the field.
    have upheld := finishes.upholds attended
    obtain ⟨w, hw, _, rfl⟩ := upheld.exists_type
    rw [own C' hC' w hw field name] at upheld
    exact q.hasInbound_of_source upheld keyed hu hd
  · rcases minded u.name hU d hd with inbound | attended
    · exact inbound
    · exact q.hasInbound_of_target (finishes.upholds attended) keyed hu hd

end Schema.Requires

/-- In every session that can be reached without updates of edges, and with edges validated and
directives checked: if a field of an object type has `@requiredForTarget`, with `@required` on the reverse
fields of all its targets, and the targets are not named like edges of other types, then for every
document of these types there is an edge of the field that ends at it. -/
theorem reachable_required_targets (m : Model) (kind : EngineKind) (s : Session)
    (reachable : Session.ReachableBy (fun mutation => mutation.updatesEdge = false) m kind s)
    (validating : m.settings.skipEdgeValidation = false)
    (checking : m.settings.skipDirectives = false) (T : String) (f : FieldDef)
    (targets : List TypeDef) (requires : m.schema.Requires T f targets)
    (apart : ∀ u ∈ targets, m.schema.OnlyFrom T u.name) :
    ∀ u ∈ targets, ∀ d ∈ s.engine.database.store.documents u.name,
      ∃ e ∈ s.engine.database.store.documents (edgeCollection T f.name),
        Document.read e.2 Field.target = Document.id d.2 := by
  obtain ⟨linked, inbound⟩ := reachable.maintains
    (P := fun store => ∀ U ∈ targets.map TypeDef.name, ∀ d ∈ store.documents U,
      store.HasInbound (edgeCollection T f.name) (DocumentId.ofKey U d.1).text)
    validating (fun store vacant U _ d hd => by rw [vacant] at hd; cases hd)
    (requires.hasInbound_of_finishes apart validating checking)
  intro u hu d hd
  rw [linked.keyed.id_eq hd]
  exact inbound u.name (List.mem_map_of_mem hu) d hd

def carType : TypeDef :=
  ⟨"Car", .object, [⟨"owner", .named "Owner", [⟨"requiredForTarget", []⟩]⟩], [], [], []⟩

def ownerType : TypeDef :=
  ⟨"Owner", .object, [⟨"name", .named "String", []⟩,
    ⟨"_ownerFromCar", .list (.named "Car"), [⟨"required", []⟩]⟩], [], [], []⟩

/-- Cars with an owner; nobody is an owner without a car. -/
def garage : Model where
  schema := .ofTypes [carType, ownerType]
  settings := .default
  now := 0

/-- A car with an owner; then an owner without a car and a deletion of the car, which are refused. -/
def purchase : List (List Operation) :=
  [(Mutation.create "Car" [("owner", .obj [("create", .obj [("name", .str "Ann")])])]).request,
    (Mutation.create "Owner" [("name", .str "Ben")]).request,
    (Mutation.delete "Car" (.str "Car/1")).request]

theorem reachable_required_targets_garage :
    ∃ s, Session.after? garage purchase = some s ∧
      s.engine.database.store.ends "OwnerEdgeFromCar" = [(some "Car/1", some "Owner/2")] ∧
      ∀ d ∈ s.engine.database.store.documents "Owner",
        ∃ e ∈ s.engine.database.store.documents "OwnerEdgeFromCar",
          Document.read e.2 Field.target = Document.id d.2 := by
  have ends : (Session.after? garage purchase).map
      (fun s => s.engine.database.store.ends "OwnerEdgeFromCar") =
        some [(some "Car/1", some "Owner/2")] := by
    decide +kernel
  obtain ⟨s, after, ends⟩ := Option.map_eq_some_iff.mp ends
  have requires : garage.schema.Requires "Car"
      ⟨"owner", .named "Owner", [⟨"requiredForTarget", []⟩]⟩ [ownerType] := by
    refine ⟨⟨carType, rfl, rfl, List.mem_cons_self⟩, by decide, ⟨_, List.mem_cons_self, rfl⟩, rfl,
      fun u hu => ?_, Schema.onlyFrom_of_suffix (by decide +kernel), by decide +kernel⟩
    rw [List.mem_singleton.mp hu]
    exact ⟨ownerType, rfl, _, List.mem_cons_of_mem _ List.mem_cons_self, rfl, rfl, _,
      List.mem_cons_self, rfl⟩
  refine ⟨s, after, ends, ?_⟩
  refine reachable_required_targets garage .plain s (Session.reachable_after after (by decide)) rfl rfl
    "Car" _ _ requires (fun u hu => Schema.onlyFrom_of_suffix ?_) ownerType List.mem_cons_self
  rw [List.mem_singleton.mp hu]
  decide +kernel

/-- A type with the name of a collection of edges. -/
def recordType : TypeDef :=
  ⟨"KnowsEdgeFromPerson", .object, [⟨"note", .named "String", []⟩,
    ⟨"_recordsFromArchive", .list (.named "Archive"), [⟨"required", []⟩]⟩], [], [], []⟩

def archiveType : TypeDef :=
  ⟨"Archive", .object, [⟨"records", .list (.named "KnowsEdgeFromPerson"),
    [⟨"requiredForTarget", []⟩]⟩], [], [], []⟩

/-- Persons whose edges share a collection with the records of archives. -/
def archives : Model where
  schema := .ofTypes [⟨"Person", .object, [⟨"knows", .list (.named "Person"), []⟩], [], [], []⟩,
    archiveType, recordType]
  settings := .default
  now := 0

/-- Two persons of whom one knows the other. -/
def meeting : Mutation :=
  .create "Person" [("knows", .list [.obj [("create", .obj [])]])]

/-- An edge in a collection of targets is checked neither as a target nor as an edge to one. -/
theorem reachable_astray_target :
    ∃ s f, Session.after? archives [meeting.request] = some s ∧
      Session.ReachableBy (fun mutation => mutation.updatesEdge = false) archives .plain s ∧
      archives.settings.skipEdgeValidation = false ∧ archives.settings.skipDirectives = false ∧
      archives.schema.Requires "Archive" f [recordType] ∧
      ∃ d ∈ s.engine.database.store.documents recordType.name,
        ¬ ∃ e ∈ s.engine.database.store.documents (edgeCollection "Archive" f.name),
          Document.read e.2 Field.target = Document.id d.2 := by
  have found : (Session.after? archives [meeting.request]).map
      (fun s => (s.engine.database.store.ends "KnowsEdgeFromPerson",
        s.engine.database.store.ends "RecordsEdgeFromArchive")) =
        some ([(some "Person/1", some "Person/2")], []) := by
    decide +kernel
  obtain ⟨s, after, found⟩ := Option.map_eq_some_iff.mp found
  obtain ⟨edges, none⟩ := Prod.mk.inj found
  obtain ⟨d, rest, documents, _, _⟩ := List.map_eq_cons_iff.mp edges
  have requires : archives.schema.Requires "Archive"
      ⟨"records", .list (.named "KnowsEdgeFromPerson"), [⟨"requiredForTarget", []⟩]⟩ [recordType] := by
    refine ⟨⟨archiveType, rfl, rfl, List.mem_cons_self⟩, by decide, ⟨_, List.mem_cons_self, rfl⟩, rfl,
      fun u hu => ?_, Schema.onlyFrom_of_suffix (by decide +kernel), by decide +kernel⟩
    rw [List.mem_singleton.mp hu]
    exact ⟨recordType, rfl, _, List.mem_cons_of_mem _ List.mem_cons_self, rfl, rfl, _,
      List.mem_cons_self, rfl⟩
  refine ⟨s, _, after, Session.reachable_after after (by decide), rfl, rfl, requires, d, ?_, ?_⟩
  · exact documents ▸ List.mem_cons_self
  · rintro ⟨e, he, _⟩
    have empty : s.engine.database.store.documents "RecordsEdgeFromArchive" = [] :=
      List.map_eq_nil_iff.mp none
    have name : edgeCollection "Archive" "records" = "RecordsEdgeFromArchive" := by decide +kernel
    rw [name, empty] at he
    cases he

end DocGraph
