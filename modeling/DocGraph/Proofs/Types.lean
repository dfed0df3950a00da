import DocGraph.Mutation.Model
import DocGraph.Proofs.Outcome

/-! # Types of a schema

What a look-up in a schema finds is a type of the schema, under the name that was asked for. An object
type stands for itself alone, so that its objects and the edges of each of its fields are in one
collection. The types of a schema have different names, so that no collection of an object type or an
interface is named twice. -/

namespace DocGraph

variable {s : Schema} {m : Model} {type : String} {t : TypeDef}

namespace Schema

/-- No name has two places in the index, so no two types share one. -/
theorem nodup_names (s : Schema) : (s.types.map TypeDef.name).Nodup := by
  refine List.pairwise_iff_getElem.mpr fun i j hi hj before same => ?_
  have first := (s.indexed _ i).mpr (List.getElem?_eq_getElem hi)
  have second := (s.indexed _ j).mpr (List.getElem?_eq_getElem hj)
  rw [← same, first] at second
  cases second
  exact Nat.lt_irrefl i before

theorem type?_eq_some_iff {name : String} : s.type? name = some t ↔ t ∈ s.types ∧ t.name = name := by
  rw [type?, Option.bind_eq_some_iff]
  constructor
  · rintro ⟨i, place, found⟩
    have named := (s.indexed name i).mp place
    rw [List.getElem?_map, found] at named
    exact ⟨List.mem_of_getElem? found, Option.some.inj named⟩
  · rintro ⟨known, named⟩
    obtain ⟨i, found⟩ := List.mem_iff_getElem?.mp known
    refine ⟨i, (s.indexed name i).mpr ?_, found⟩
    rw [List.getElem?_map, found, ← named]
    rfl

theorem mem_types_of_typeDef (h : s.typeDef type = .ok t) : t ∈ s.types := by
  unfold typeDef at h
  split at h
  · rename_i found
    cases h
    exact (type?_eq_some_iff.mp found).1
  · cases h

theorem name_of_typeDef (h : s.typeDef type = .ok t) : t.name = type := by
  unfold typeDef at h
  split at h
  · rename_i found
    cases h
    exact (type?_eq_some_iff.mp found).2
  · cases h

theorem exists_of_fieldDef {field : String} {f : FieldDef} (h : s.fieldDef type field = .ok f) :
    ∃ t ∈ s.types, t.name = type ∧ f ∈ t.fields ∧ f.name = field := by
  obtain ⟨t, found, h⟩ := exists_of_andThen_ok h
  refine ⟨t, mem_types_of_typeDef found, name_of_typeDef found, ?_⟩
  split at h
  · rename_i f' first
    cases h
    unfold TypeDef.field? at first
    exact ⟨List.mem_of_find?_eq_some first, by simpa using List.find?_some first⟩
  · cases h

theorem mem_fields_of_fieldDef {field : String} {f : FieldDef} (found : s.typeDef type = .ok t)
    (known : s.fieldDef type field = .ok f) : f ∈ t.fields := by
  obtain ⟨t', found', known⟩ := exists_of_andThen_ok known
  cases found.symm.trans found'
  split at known
  · rename_i first
    cases known
    exact List.mem_of_find?_eq_some first
  · cases known

theorem name_of_fieldDef {field : String} {f : FieldDef} (known : s.fieldDef type field = .ok f) :
    f.name = field := by
  obtain ⟨_, _, _, _, name⟩ := exists_of_fieldDef known
  exact name

theorem mem_types_of_possibleTypes {ts : List TypeDef} (h : s.possibleTypes type = .ok ts) :
    ∀ t ∈ ts, t ∈ s.types := by
  intro t ht
  unfold possibleTypes at h
  rcases hd : s.typeDef type with e | d
  · rw [hd] at h
    cases h
  · rw [hd] at h
    dsimp only [bind, Except.bind] at h
    split at h
    · cases h
      exact (List.mem_filter.mp ht).1
    · obtain ⟨member, _, hm⟩ := exists_of_mem_mapM h ht
      exact mem_types_of_typeDef hm
    · cases h
      rw [List.mem_singleton.mp ht]
      exact mem_types_of_typeDef hd

theorem possibleTypes_of_object (h : s.typeDef type = .ok t) (object : t.kind = .object) :
    s.possibleTypes type = .ok [t] := by
  simp [possibleTypes, h, object, bind, Except.bind, pure, Except.pure]

theorem possibleCollections_of_object (h : s.typeDef type = .ok t) (object : t.kind = .object) :
    s.possibleCollections type = .ok [type] := by
  simp [possibleCollections, possibleTypes_of_object h object, Except.map, name_of_typeDef h]

theorem exists_typeDef_of_possibleCollections {names : List String}
    (h : s.possibleCollections type = .ok names) : ∃ t, s.typeDef type = .ok t := by
  obtain ⟨_, possible, _⟩ := exists_of_map_ok h
  obtain ⟨t, type_def, _⟩ := exists_of_andThen_ok possible
  exact ⟨t, type_def⟩

/-! ### Names of types -/

/-- A type that is given again replaces the one of its name. -/
theorem nodup_names_ofTypes (types : List TypeDef) :
    ((ofTypes types).types.map TypeDef.name).Nodup :=
  nodup_names _

/-- An object type stands for itself, and an interface for each type that implements it once. -/
theorem nodup_possibleCollections {names : List String} (distinct : (s.types.map TypeDef.name).Nodup)
    (found : s.typeDef type = .ok t) (direct : t.kind = .object ∨ t.kind = .interface)
    (possible : s.possibleCollections type = .ok names) : names.Nodup := by
  rcases direct with object | interface
  · rw [possibleCollections_of_object found object] at possible
    cases possible
    simp
  · have implementers : s.possibleTypes type = .ok (s.implementers type) := by
      simp [possibleTypes, found, interface, bind, Except.bind, pure, Except.pure]
    rw [possibleCollections, implementers] at possible
    cases possible
    exact distinct.sublist (List.filter_sublist.map TypeDef.name)

end Schema

theorem Model.typeDef_of_objectType (h : m.objectType type = .ok t) :
    m.schema.typeDef type = .ok t ∧ t.kind = .object := by
  unfold objectType at h
  rcases hd : m.schema.typeDef type with e | d
  · rw [hd] at h
    cases h
  · rw [hd] at h
    dsimp only [bind, Except.bind] at h
    split at h
    · rename_i object
      cases h
      exact ⟨rfl, by simpa using object⟩
    · cases h

/-- A field of edges is declared under its name, and it is not stored. -/
theorem Model.field?_of_edgeField {name : String} {value : Input} {f : FieldDef}
    (h : m.edgeField? t name value = some f) :
    t.field? name = some f ∧ m.schema.isDocumentField f = .ok false := by
  unfold edgeField? at h
  split at h
  · rename_i declared
    split at h
    · rename_i other
      cases h
      exact ⟨declared, other⟩
    · cases h
  · cases h

/-- The first field of an input object is declared; it is stored, or it is a field of edges. -/
theorem Model.storedFields_cons {name : String} {value : Input} {rest : InputObject} {d : Document}
    (h : m.storedFields t ((name, value) :: rest) = .ok d) :
    ∃ f, t.field? name = some f ∧
      ((m.schema.isDocumentField f = .ok true ∧ ∃ j w others, value.literal = .ok j ∧
          Scalar.store f.type.base j = .ok w ∧ m.storedFields t rest = .ok others ∧
          d = (name, w) :: others) ∨
        m.schema.isDocumentField f = .ok false ∧ m.storedFields t rest = .ok d) := by
  rw [storedFields] at h
  split at h
  · cases h
  · rename_i f declared
    refine ⟨f, declared, ?_⟩
    obtain ⟨isField, kind, h⟩ := exists_of_andThen_ok h
    cases isField with
    | true =>
        obtain ⟨j, literal, h⟩ := exists_of_andThen_ok h
        obtain ⟨w, value, h⟩ := exists_of_andThen_ok h
        obtain ⟨others, read, h⟩ := exists_of_andThen_ok h
        cases h
        exact .inl ⟨kind, j, w, others, literal, value, read, rfl⟩
    | false => exact .inr ⟨kind, h⟩

end DocGraph
