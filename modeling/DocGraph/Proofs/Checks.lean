import Mathlib.Data.List.Nodup
import DocGraph.Proofs.Directives

/-! # What a check rules out

A check that finds nothing says something about the whole store, and so does a directive that a store
upholds. The edges that a check looks at are those of its collections with an id at one end
(`Store.mem_edgesAt`); the rest is read off one check after the other. -/

namespace DocGraph

variable {schema : Schema} {store : Store} {scope : Scope} {id : Ref} {i s C type : String}

/-! ### Edges at an id -/

/-- The text in a field is its value, if that is a text. -/
theorem Document.read_eq_str {d : Document} {field : String} :
    d.read field = .str s ↔ d.text? field = some s := by
  unfold Document.read Document.text?
  cases Record.get? d field with
  | none => simp
  | some v => cases v <;> simp [Json.str?]

/-- Only a text is the same as a text. -/
theorem Json.same_str {v : Json} : v.same (.str s) = true ↔ v = .str s := by
  cases v <;> simp [Json.same, Json.sorted, Json.sameSorted]

theorem Store.collection_eq_ok {c : Collection} :
    store.collection C = .ok c ↔ store.collection? C = some c := by
  unfold collection
  cases store.collection? C with
  | none => simp
  | some c' => simp

theorem Store.mem_edgesAt {names : List String} {field : String} {es : List Document} {e : Document}
    (h : store.edgesAt names field i = .ok es) :
    e ∈ es ↔ (∃ C ∈ names, ∃ key, (key, e) ∈ store.documents C) ∧ e.text? field = some i := by
  unfold edgesAt rows at h
  obtain ⟨all, found, rfl⟩ := exists_of_map_ok h
  obtain ⟨cs, collections, rfl⟩ := exists_of_map_ok found
  have rows : e ∈ cs.flatMap Collection.rows ↔ ∃ C ∈ names, ∃ key, (key, e) ∈ store.documents C := by
    constructor
    · intro he
      obtain ⟨c, hc, he⟩ := List.mem_flatMap.mp he
      obtain ⟨C, hC, there⟩ := exists_of_mem_mapM collections hc
      obtain ⟨row, stored, rfl⟩ := List.mem_map.mp he
      exact ⟨C, hC, row.1, documents_eq (collection_eq_ok.mp there) ▸ stored⟩
    · rintro ⟨C, hC, key, he⟩
      obtain ⟨c, there⟩ := exists_of_mapM_ok collections hC
      rw [documents_eq (collection_eq_ok.mp there)] at he
      exact List.mem_flatMap.mpr ⟨c, mem_of_mapM_ok collections hC there, List.mem_map_of_mem he⟩
  rw [List.mem_filter, rows]
  simp

theorem Store.mem_targets {es : List Document} {e : Document} (he : e ∈ es)
    (target : e.text? Field.target = some i) (existing : (store.document? i).isSome = true) :
    (e, i) ∈ store.targets es := by
  refine List.mem_filterMap.mpr ⟨e, he, ?_⟩
  simp [target, existing]

/-- An id at which an edge ends. -/
theorem Store.exists_of_lacksInbound {inbound : List String}
    (h : store.lacksInbound inbound i = .ok false) :
    ∃ C ∈ inbound, ∃ e ∈ store.documents C, Document.text? e.2 Field.target = some i := by
  obtain ⟨es, found, some_of⟩ := exists_of_map_ok h
  cases es with
  | nil => cases some_of
  | cons e es =>
      obtain ⟨⟨C, hC, key, he⟩, target⟩ := (mem_edgesAt found).mp List.mem_cons_self
      exact ⟨C, hC, (key, e), he, target⟩

theorem keepM_eq_nil {α : Type} {test : α → Except Error Bool} {l : List α}
    (h : keepM test l = .ok []) : ∀ a ∈ l, test a = .ok false := by
  induction l with
  | nil =>
      intro a ha
      cases ha
  | cons x l ih =>
      obtain ⟨b, hb, h⟩ := exists_of_andThen_ok h
      obtain ⟨rest, hrest, h⟩ := exists_of_andThen_ok h
      cases b with
      | true => cases h
      | false =>
          cases h
          intro a ha
          rcases List.mem_cons.mp ha with rfl | ha
          · exact hb
          · exact ih hrest a ha

/-! ### Checks -/

theorem text?_of_value (value : id.value scope = .ok (.str s)) : id.text? scope = .ok (some s) := by
  rw [Ref.text?, value]
  rfl

/-- No edge of the collection leaves the source. -/
theorem ne_of_edgeExists_clean {e : String × Document}
    (h : (Check.edgeExists id C).violated store scope = .ok false)
    (value : id.value scope = .ok (.str s)) (he : e ∈ store.documents C) :
    Document.text? e.2 Field.source ≠ some s := by
  intro source
  obtain ⟨_, text, h⟩ := exists_of_andThen_ok h
  cases (text?_of_value value).symm.trans text
  obtain ⟨es, found, h⟩ := exists_of_andThen_ok h
  have none : es = [] := by simpa [pure, Except.pure] using h
  have leaving : e.2 ∈ es :=
    (Store.mem_edgesAt found).mpr ⟨⟨C, List.mem_singleton.mpr rfl, e.1, he⟩, source⟩
  rw [none] at leaving
  cases leaving

/-- No edge that leaves the source leads back to it. -/
theorem ne_of_selfLoop_clean {e : String × Document}
    (h : (Check.selfLoop id C).violated store scope = .ok false)
    (value : id.value scope = .ok (.str s)) (he : e ∈ store.documents C)
    (source : Document.text? e.2 Field.source = some s) :
    Document.text? e.2 Field.target ≠ some s := by
  obtain ⟨_, text, h⟩ := exists_of_andThen_ok h
  cases (text?_of_value value).symm.trans text
  obtain ⟨es, found, h⟩ := exists_of_andThen_ok h
  have none : (es.any fun e => e.text? Field.target == some s) = false := by
    simpa [pure, Except.pure] using h
  have leaving : e.2 ∈ es :=
    (Store.mem_edgesAt found).mpr ⟨⟨C, List.mem_singleton.mpr rfl, e.1, he⟩, source⟩
  simpa using List.any_eq_false.mp none e.2 leaving

/-- Two edges from one source to the same document are the same. -/
theorem eq_of_duplicateTarget_clean {a b : String × Document}
    (h : (Check.duplicateTarget id C).violated store scope = .ok false)
    (value : id.value scope = .ok (.str s)) (ha : a ∈ store.documents C) (hb : b ∈ store.documents C)
    (source_a : Document.text? a.2 Field.source = some s)
    (source_b : Document.text? b.2 Field.source = some s)
    (target_a : Document.text? a.2 Field.target = some i)
    (target_b : Document.text? b.2 Field.target = some i)
    (existing : (store.document? i).isSome = true) : a.2 = b.2 := by
  obtain ⟨_, text, h⟩ := exists_of_andThen_ok h
  cases (text?_of_value value).symm.trans text
  obtain ⟨es, found, h⟩ := exists_of_andThen_ok h
  have nodup : ((store.targets es).map Prod.snd).Nodup := by
    simpa [pure, Except.pure] using h
  have leads : ∀ {e : String × Document}, e ∈ store.documents C →
      Document.text? e.2 Field.source = some s → Document.text? e.2 Field.target = some i →
      (e.2, i) ∈ store.targets es := by
    intro e he source target
    refine Store.mem_targets ((Store.mem_edgesAt found).mpr ⟨?_, source⟩) target existing
    exact ⟨C, List.mem_singleton.mpr rfl, e.1, he⟩
  have same := List.inj_on_of_nodup_map nodup (leads ha source_a target_a)
    (leads hb source_b target_b) rfl
  exact congrArg Prod.fst same

/-- All edges that end at a target of the source have one id. -/
theorem same_of_sharedTarget_clean {outbound inbound : List String} {C' : String}
    {a b : String × Document} (h : (Check.sharedTarget id outbound inbound).violated store scope = .ok false)
    (value : id.value scope = .ok (.str s)) (hC : C ∈ outbound) (hC' : C' ∈ inbound)
    (ha : a ∈ store.documents C) (hb : b ∈ store.documents C')
    (source_a : Document.text? a.2 Field.source = some s)
    (target_a : Document.text? a.2 Field.target = some i)
    (target_b : Document.text? b.2 Field.target = some i)
    (existing : (store.document? i).isSome = true) :
    (Document.id b.2).same (Document.id a.2) = true := by
  obtain ⟨_, text, h⟩ := exists_of_andThen_ok h
  cases (text?_of_value value).symm.trans text
  obtain ⟨es, found, h⟩ := exists_of_andThen_ok h
  obtain ⟨shared, kept, h⟩ := exists_of_andThen_ok h
  have none : shared = [] := by simpa [pure, Except.pure] using h
  rw [none] at kept
  have leaving : a.2 ∈ es := (Store.mem_edgesAt found).mpr ⟨⟨C, hC, a.1, ha⟩, source_a⟩
  obtain ⟨others, ends, h⟩ := exists_of_map_ok
    (keepM_eq_nil kept _ (Store.mem_targets leaving target_a existing))
  have arriving : b.2 ∈ others := (Store.mem_edgesAt ends).mpr ⟨⟨C', hC', b.1, hb⟩, target_b⟩
  simpa using List.any_eq_false.mp h b.2 arriving

/-- Every document of the collections has an edge that ends at it. -/
theorem exists_of_orphanTarget_clean {targets inbound : List String} {d : String × Document}
    (h : (Check.orphanTarget targets inbound).violated store scope = .ok false) (hC : C ∈ targets)
    (hd : d ∈ store.documents C) (text : Document.text? d.2 Field.id = some i) :
    ∃ C' ∈ inbound, ∃ e ∈ store.documents C', Document.text? e.2 Field.target = some i := by
  obtain ⟨orphans, looked, h⟩ := exists_of_andThen_ok h
  have none : orphans.flatten = [] := by simpa [pure, Except.pure] using h
  obtain ⟨own, kept⟩ := exists_of_mapM_ok looked hC
  have empty : own = [] := List.flatten_eq_nil_iff.mp none own (mem_of_mapM_ok looked hC kept)
  rw [empty] at kept
  obtain ⟨c, there, kept⟩ := exists_of_andThen_ok kept
  rw [Store.documents_eq (Store.collection_eq_ok.mp there)] at hd
  have orphan := keepM_eq_nil kept d.2 (List.mem_map_of_mem hd)
  unfold Store.isOrphan at orphan
  rw [text] at orphan
  exact Store.exists_of_lacksInbound orphan

/-- An id of a document in the collection has an edge that ends at it. -/
theorem exists_of_missingInbound_clean {inbound : List String}
    (h : (Check.missingInbound id C inbound).violated store scope = .ok false)
    (value : id.value scope = .ok (.str i)) (has : store.hasId i C = true) :
    ∃ C' ∈ inbound, ∃ e ∈ store.documents C', Document.text? e.2 Field.target = some i := by
  obtain ⟨_, text, h⟩ := exists_of_andThen_ok h
  cases (text?_of_value value).symm.trans text
  obtain ⟨c, there, h⟩ := exists_of_andThen_ok h
  have has : c.hasId i = true := by
    unfold Store.hasId at has
    rw [Store.collection_eq_ok.mp there] at has
    exact has
  rw [if_pos has] at h
  exact Store.exists_of_lacksInbound h

/-! ### Directives -/

namespace Store.Upholds

/-- The type is a type of the schema. -/
theorem exists_type {v : Json} (h : store.Upholds schema type v) :
    ∃ u ∈ schema.types, schema.typeDef type = .ok u ∧ u.name = type := by
  obtain ⟨u, _, _, type_def, _⟩ := h
  exact ⟨u, Schema.mem_types_of_typeDef type_def, type_def, Schema.name_of_typeDef type_def⟩

/-- What a directive on a field forbids has not been found. -/
theorem clean {t : TypeDef} {f : FieldDef} {d : Directive} {v : Json}
    (h : store.Upholds schema type v) (type_def : schema.typeDef type = .ok t) (hf : f ∈ t.fields)
    (carried : f.Carries d) :
    ∃ scope id, id.value scope = .ok v ∧ ∀ check message,
      d.check? schema type f id = .ok (some (check, message)) →
        check.violated store scope = .ok false := by
  obtain ⟨t', scope, id, type_def', value, clean⟩ := h
  cases type_def.symm.trans type_def'
  exact ⟨scope, id, value, clean f hf d carried⟩

end Store.Upholds

end DocGraph
