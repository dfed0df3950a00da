import DocGraph.Proofs.Engines
import DocGraph.Proofs.Locks
import DocGraph.Proofs.Naming

/-! # Collections that mutations name

Which collections a database is set up with is settled by the types of the schema (`Schema.Needs`), apart from
the mutations, which put the names of collections together once more. Mutations of stored types name
collections that are set up, but for those that `Mutation.Strays` lists (`synthesize_locksOnly`), provided
that the schema is `Schema.Complete`. -/

namespace DocGraph

variable {α : Type} {m : Model} {s : Schema} {t : TypeDef} {C : String}

/-! ### Schemas -/

/-- A type has a field of a name whose edges have a collection. -/
def Schema.HasEdges (s : Schema) (t : TypeDef) (field : String) : Prop :=
  ∃ f ∈ t.fields, f.name = field ∧ s.IsForward f

/-- An object type or an interface has a field of edges, or all members of a union have. -/
def Schema.Offers (s : Schema) (type field : String) : Prop :=
  ∃ t, s.typeDef type = .ok t ∧
    (t.kind ≠ .union ∧ s.HasEdges t field ∨
      t.kind = .union ∧ ∀ member ∈ t.members, ∃ u, s.typeDef member = .ok u ∧ s.HasEdges u field)

/-- The implementers of an interface declare all its fields, and all that an edge field may lead to is
stored. -/
structure Schema.Complete (s : Schema) : Prop where
  declared : ∀ i ∈ s.types, i.kind = .interface → ∀ u ∈ s.implementers i.name, ∀ f ∈ i.fields,
    ∃ g ∈ u.fields, g.name = f.name ∧ (s.isEdgeField f = .ok true → s.isEdgeField g = .ok true)
  stored : ∀ t ∈ s.types, isStored t = true → ∀ f ∈ t.fields, s.isEdgeField f = .ok true →
    ∀ us, s.possibleTypes f.type.base = .ok us → ∀ u ∈ us, isStored u = true

/-- A directive is at its place on a field: all that it looks at has a collection. -/
def Directive.Fits (s : Schema) (f : FieldDef) : Directive → Prop
  | noLoops | distinct | uniqueForTarget | requiredForTarget => s.IsForward f
  | uniqueForInterface interface | requiredForInterface interface =>
    s.IsForward f ∧ s.Offers interface f.name ∧
      ∀ us, s.possibleTypes interface = .ok us → ∀ u ∈ us, Schema.isStored u = true
  | required => ∀ r, f.reverseEdge? = some r →
    s.isEdgeField f = .ok true ∧ s.Offers r.sourceType r.field
  | exported _ => True

namespace Schema

theorem needs_of_stored (known : t ∈ s.types) (stored : isStored t = true) : s.Needs t.name :=
  ⟨t, known, stored, .inl rfl⟩

theorem HasEdges.needs {field : String} (h : s.HasEdges t field) (known : t ∈ s.types)
    (stored : isStored t = true) : s.Needs (edgeCollection t.name field) := by
  obtain ⟨f, mem, rfl, forward⟩ := h
  exact ⟨t, known, stored, .inr ⟨f, mem, forward, rfl⟩⟩

/-- A field that an interface declares is there in all objects that it may stand for. -/
theorem Offers.hasEdges {type field : String} {us : List TypeDef} {u : TypeDef} (h : s.Offers type field)
    (complete : s.Complete) (possible : s.possibleTypes type = .ok us) (hu : u ∈ us) :
    s.HasEdges u field := by
  obtain ⟨t, found, offered⟩ := h
  obtain ⟨t', found', possible⟩ := exists_of_andThen_ok possible
  cases found.symm.trans found'
  rcases offered with ⟨other, has⟩ | ⟨union, each⟩
  · split at possible
    · rename_i interface
      cases possible
      obtain ⟨f, mem, rfl, forward⟩ := has
      rw [← name_of_typeDef found] at hu
      obtain ⟨g, mem', same, edge⟩ :=
        complete.declared t (mem_types_of_typeDef found) interface u hu f mem
      exact ⟨g, mem', same, by rw [same]; exact forward.1, edge forward.2⟩
    · rename_i union
      exact absurd union other
    · cases possible
      rw [List.mem_singleton.mp hu]
      exact has
  · rw [union] at possible
    obtain ⟨member, mem, found⟩ := exists_of_mem_mapM possible hu
    obtain ⟨u', found', has⟩ := each member mem
    cases found.symm.trans found'
    exact has

theorem Complete.needs_possible (complete : s.Complete) (known : t ∈ s.types) (stored : isStored t = true)
    {f : FieldDef} (field : f ∈ t.fields) (edge : s.isEdgeField f = .ok true) {names : List String}
    (possible : s.possibleCollections f.type.base = .ok names) (hC : C ∈ names) : s.Needs C := by
  obtain ⟨us, types, rfl⟩ := exists_of_map_ok possible
  obtain ⟨u, hu, rfl⟩ := List.mem_map.mp hC
  exact needs_of_stored (mem_types_of_possibleTypes types u hu)
    (complete.stored t known stored f field edge us types u hu)

theorem Offers.needs {type field : String} (h : s.Offers type field) (complete : s.Complete)
    (stored : ∀ us, s.possibleTypes type = .ok us → ∀ u ∈ us, isStored u = true) {names : List String}
    (possible : s.possibleEdgeCollections type field = .ok names) (hC : C ∈ names) : s.Needs C := by
  obtain ⟨us, types, rfl⟩ := exists_of_map_ok possible
  obtain ⟨u, hu, rfl⟩ := List.mem_map.mp hC
  exact (h.hasEdges complete types hu).needs (mem_types_of_possibleTypes types u hu)
    (stored us types u hu)

end Schema

theorem FieldDef.sourceType_of_reverseEdge {f : FieldDef} {r : ReverseEdge} (h : f.reverseEdge? = some r) :
    r.sourceType = f.type.base := by
  obtain ⟨inner, _, h⟩ := Option.bind_eq_some_iff.mp h
  obtain ⟨forward, _, h⟩ := Option.bind_eq_some_iff.mp h
  split at h
  · cases h
  · cases h
    rfl

/-- A directive that is at its place looks at collections that are set up. -/
theorem Directive.Fits.needs {f : FieldDef} {d : Directive} {id : Ref} {check : Check} {message : String}
    (fits : d.Fits s f) (complete : s.Complete) (known : t ∈ s.types)
    (stored : Schema.isStored t = true) (field : f ∈ t.fields)
    (checked : d.check? s t.name f id = .ok (some (check, message))) (hC : C ∈ check.collections) :
    s.Needs C := by
  have own : s.IsForward f → s.Needs (edgeCollection t.name f.name) :=
    fun forward => Schema.HasEdges.needs ⟨f, field, rfl, forward⟩ known stored
  cases d with
  | noLoops | distinct =>
      cases checked
      rw [List.mem_singleton.mp hC]
      exact own fits
  | uniqueForTarget =>
      cases checked
      rcases List.mem_append.mp hC with hC | hC <;> rw [List.mem_singleton.mp hC] <;> exact own fits
  | uniqueForInterface interface =>
      obtain ⟨all, possible, checked⟩ := exists_of_andThen_ok checked
      cases checked
      obtain ⟨_, offers, among⟩ := fits
      rcases List.mem_append.mp hC with hC | hC <;> exact offers.needs complete among possible hC
  | requiredForTarget =>
      obtain ⟨targets, possible, checked⟩ := exists_of_andThen_ok checked
      cases checked
      rcases List.mem_append.mp hC with hC | hC
      · exact complete.needs_possible known stored field fits.2 possible hC
      · rw [List.mem_singleton.mp hC]
        exact own fits
  | requiredForInterface interface =>
      obtain ⟨targets, possible, checked⟩ := exists_of_andThen_ok checked
      obtain ⟨all, inbound, checked⟩ := exists_of_andThen_ok checked
      cases checked
      obtain ⟨forward, offers, among⟩ := fits
      rcases List.mem_append.mp hC with hC | hC
      · exact complete.needs_possible known stored field forward.2 possible hC
      · exact offers.needs complete among inbound hC
  | required =>
      rcases reverse : f.reverseEdge? with _ | r
      · rw [Directive.check?, reverse] at checked
        cases checked
      · rw [Directive.check?, reverse] at checked
        obtain ⟨inbound, possible, checked⟩ := exists_of_andThen_ok checked
        cases checked
        obtain ⟨edge, offers⟩ := fits r reverse
        rcases List.mem_cons.mp hC with rfl | hC
        · exact Schema.needs_of_stored known stored
        · refine offers.needs complete ?_ possible hC
          rw [FieldDef.sourceType_of_reverseEdge reverse]
          exact complete.stored t known stored f field edge
  | exported name => cases checked

/-! ### Mutations -/

/-- A mutation adds or drops edges of a field of a type. -/
inductive Mutation.Through (m : Model) : Mutation → TypeDef → FieldDef → Prop
  | object {mutation : Mutation} {type name : String} {data inner : InputObject} {t u : TypeDef}
      {value : Input} {f : FieldDef} (document : mutation.document? = some (type, data))
      (found : m.objectType type = .ok t) (describes : m.Describes t data u inner)
      (field : (name, value) ∈ inner) (edge : m.edgeField? u name value = some f) : Through m mutation u f
  | edge {type field : String} {source target : Input} {annotations : InputObject} {t : TypeDef}
      {f : FieldDef} (found : m.schema.typeDef type = .ok t)
      (known : m.schema.fieldDef type field = .ok f) :
      Through m (.createEdge type field source target annotations) t f

/-- A mutation writes a document of a type, takes one out, or adds an edge that leaves one. -/
inductive Mutation.Concerns (m : Model) : Mutation → TypeDef → Prop
  | object {mutation : Mutation} {type : String} {data inner : InputObject} {t u : TypeDef}
      (document : mutation.document? = some (type, data)) (found : m.objectType type = .ok t)
      (describes : m.Describes t data u inner) : Concerns m mutation u
  | delete {type : String} {id : Input} {t : TypeDef} (found : m.objectType type = .ok t) :
      Concerns m (.delete type id) t
  | edge {type field : String} {source target : Input} {annotations : InputObject} {t : TypeDef}
      (found : m.schema.typeDef type = .ok t) :
      Concerns m (.createEdge type field source target annotations) t

/-- The collections that a mutation may name although nothing sets them up. -/
inductive Mutation.Strays (m : Model) (mutation : Mutation) : String → Prop
  /-- Edges are written for a reverse field, or for a field that is none of edges. -/
  | edges {t : TypeDef} {f : FieldDef} (through : mutation.Through m t f)
      (other : ¬ m.schema.IsForward f) : Strays m mutation (edgeCollection t.name f.name)
  /-- The other end is looked for, although the field is none of edges. -/
  | target {t : TypeDef} {f : FieldDef} (through : mutation.Through m t f)
      (other : m.schema.isEdgeField f = .ok false) : Strays m mutation f.type.base
  /-- The edges of a deleted document are dropped by a reverse field that does not reverse a field of an
  object type. Reverse fields of an interface are passed over, those of a union are not. -/
  | reverse {type : String} {id : Input} {t : TypeDef} {f : FieldDef} {r : ReverseEdge}
      (deleted : mutation = .delete type id) (found : m.objectType type = .ok t) (field : f ∈ t.fields)
      (edge : m.schema.isEdgeField f = .ok true) (kind : m.schema.kindOf f.type.base ≠ .ok .interface)
      (reverse : f.reverseEdge? = some r) (other : ∀ u, m.schema.typeDef r.sourceType = .ok u →
        u.kind = .object → ¬ m.schema.HasEdges u r.field) :
      Strays m mutation (edgeCollection r.sourceType r.field)
  /-- A directive is not at its place. -/
  | directive {t : TypeDef} {f : FieldDef} {d : Directive} {C : String} (concerns : mutation.Concerns m t)
      (misplaced : ¬ d.Fits m.schema f) (looks : m.schema.LooksAt t f d C) : Strays m mutation C

/-- A mutation of a stored type, other than of an edge that is there already. -/
def Mutation.OnStored (m : Model) : Mutation → Prop
  | .create type _ | .update type _ _ | .delete type _ | .createEdge type _ _ _ _ =>
    ∃ t, m.schema.typeDef type = .ok t ∧ Schema.isStored t = true
  | .updateEdge _ _ _ _ | .deleteEdge _ _ _ => False

/-- A collection is set up, or the mutation strays to it. -/
def Mutation.Reaches (m : Model) (mutation : Mutation) (C : String) : Prop :=
  m.schema.Needs C ∨ mutation.Strays m C

namespace Schema

theorem mem_fields_of_edgeField {name : String} {value : Input} {f : FieldDef}
    (h : m.edgeField? t name value = some f) : f ∈ t.fields :=
  List.mem_of_find?_eq_some (Model.field?_of_edgeField h).1

/-- A type that is no type of objects stands for itself. -/
theorem isEdgeField_or {f : FieldDef} {names : List String}
    (possible : s.possibleCollections f.type.base = .ok names) :
    s.isEdgeField f = .ok true ∨ s.isEdgeField f = .ok false ∧ names = [f.type.base] := by
  obtain ⟨us, types, rfl⟩ := exists_of_map_ok possible
  obtain ⟨t, found, types⟩ := exists_of_andThen_ok types
  have edge : s.isEdgeField f = .ok (t.kind == .object || t.kind == .interface || t.kind == .union) := by
    rw [isEdgeField, kindOf, found]
    rfl
  cases kind : t.kind with
  | object | interface | union =>
      rw [kind] at edge
      exact .inl edge
  | scalar | enumeration | input =>
      rw [kind] at edge types
      cases types
      exact .inr ⟨edge, by rw [List.map_singleton, name_of_typeDef found]⟩

end Schema

/-- A type of a schema that is found under its name and is stored. -/
structure Schema.Stores (s : Schema) (t : TypeDef) : Prop where
  found : s.typeDef t.name = .ok t
  stored : isStored t = true

theorem Schema.Stores.known (h : s.Stores t) : t ∈ s.types :=
  mem_types_of_typeDef h.found

theorem Schema.Stores.of_typeDef {type : String} (found : s.typeDef type = .ok t)
    (stored : isStored t = true) : s.Stores t :=
  ⟨by rw [name_of_typeDef found]; exact found, stored⟩

/-- What an input object of a stored type creates is of a stored type. -/
theorem Schema.Complete.stores_of_spawns (complete : m.schema.Complete) {a b : TypeDef × InputObject}
    (h : m.Spawns a b) (stores : m.schema.Stores a.1) : m.schema.Stores b.1 := by
  cases h with
  | @mk t u data item inner name key type value f field edge entry unconnected chosen given found =>
      have mem := mem_fields_of_edgeField edge
      obtain ⟨known, object⟩ := Model.typeDef_of_objectType found
      refine .of_typeDef known ?_
      have each := complete.stored t stores.known stores.stored f mem
      cases chosen with
      | concrete =>
          have kind : m.schema.kindOf f.type.base = .ok .object := by
            rw [kindOf, known, Except.map, object]
          exact each (by rw [isEdgeField, kind]; rfl) [u] (possibleTypes_of_object known object) u
            List.mem_cons_self
      | @among kind types u' known' abstract possible only =>
          have edge : m.schema.isEdgeField f = .ok true := by
            rw [isEdgeField, known']
            rcases abstract with rfl | rfl <;> rfl
          have mem' : u' ∈ types := by
            have own : u' ∈ types.filter _ := only ▸ List.mem_cons_self
            exact (List.mem_filter.mp own).1
          have stored := each edge types possible u' mem'
          -- Whether an object type is stored is a matter of its name.
          have same : isStored u = isStored u' := by
            unfold isStored
            rw [name_of_typeDef known, object, kind_of_isStored stored]
          exact same.trans stored

theorem Schema.Complete.stores_of_describes (complete : m.schema.Complete) {data inner : InputObject}
    {u : TypeDef} (h : m.Describes t data u inner) (stores : m.schema.Stores t) : m.schema.Stores u := by
  have all : ∀ b, Relation.ReflTransGen m.Spawns (t, data) b → m.schema.Stores b.1 := by
    intro b steps
    induction steps with
    | refl => exact stores
    | tail _ spawns ih => exact complete.stores_of_spawns spawns ih
  exact all _ h

section mutations

variable {mutation : Mutation} (complete : m.schema.Complete)

include complete

/-- Directives of a type that a mutation concerns look at collections that are set up, or they are not at
their place. -/
theorem Mutation.reaches_of_looks (concerns : mutation.Concerns m t) (stores : m.schema.Stores t) :
    ∀ u, m.schema.typeDef t.name = .ok u → ∀ f d C, m.schema.LooksAt u f d C → mutation.Reaches m C := by
  intro u found f d C looks
  cases stores.found.symm.trans found
  by_cases fits : d.Fits m.schema f
  · obtain ⟨field, _, _, _, _, checked, hC⟩ := looks
    exact .inl (fits.needs complete stores.known stores.stored field checked hC)
  · exact .inr (.directive concerns fits looks)

/-- Edges of a field that a mutation goes through are in a collection that is set up, and lead to such, if
the field is a forward field of edges. -/
theorem Mutation.namesEdges_of_through {f : FieldDef} (through : mutation.Through m t f)
    (concerns : mutation.Concerns m t) (stores : m.schema.Stores t) (field : f ∈ t.fields) :
    m.NamesEdges (mutation.Reaches m) t.name f where
  own := by
    by_cases forward : m.schema.IsForward f
    · exact .inl (Schema.HasEdges.needs ⟨f, field, rfl, forward⟩ stores.known stores.stored)
    · exact .inr (.edges through forward)
  targets names possible C hC := by
    rcases Schema.isEdgeField_or possible with edge | ⟨other, rfl⟩
    · exact .inl (complete.needs_possible stores.known stores.stored field edge possible hC)
    · rw [List.mem_singleton.mp hC]
      exact .inr (.target through other)
  looks := reaches_of_looks complete concerns stores

theorem Mutation.names_of_document {type : String} {data : InputObject} {t : TypeDef}
    (document : mutation.document? = some (type, data)) (found : m.objectType type = .ok t)
    (stores : m.schema.Stores t) : m.Throughout (m.Names (mutation.Reaches m)) t data := by
  intro u inner describes
  have stores := complete.stores_of_describes describes stores
  have concerns : mutation.Concerns m u := .object document found describes
  refine ⟨.inl (Schema.needs_of_stored stores.known stores.stored), reaches_of_looks complete concerns stores,
    fun name value f field edge => ?_⟩
  exact namesEdges_of_through complete (.object document found describes field edge) concerns stores
    (Schema.mem_fields_of_edgeField edge)

/-- The collections of the edges that go with a deleted document. -/
theorem Mutation.reaches_of_touching {type : String} {id : Input} {collections : List String}
    (found : m.objectType type = .ok t) (stores : m.schema.Stores t)
    (touching : m.touchingCollections t = .ok collections) (hC : C ∈ collections) :
    (Mutation.delete type id).Reaches m C := by
  obtain ⟨f, field, touched⟩ := Model.exists_of_mem_touchingCollections touching hC
  unfold Model.touching? at touched
  split at touched
  · cases touched
  obtain ⟨edge, isEdge, touched⟩ := exists_of_andThen_ok touched
  cases edge with
  | false => cases touched
  | true =>
      rcases prefixed : Text.startsWith f.name "_" with _ | _
      · simp only [prefixed] at touched
        cases touched
        exact .inl (Schema.HasEdges.needs ⟨f, field, rfl, prefixed, isEdge⟩ stores.known stores.stored)
      · simp only [prefixed] at touched
        obtain ⟨kind, known, touched⟩ := exists_of_andThen_ok touched
        split at touched
        · cases touched
        · rename_i concrete
          obtain ⟨r, reverse, rfl⟩ := Option.map_eq_some_iff.mp (Except.ok.inj touched)
          by_cases other : ∀ u, m.schema.typeDef r.sourceType = .ok u → u.kind = .object →
              ¬ m.schema.HasEdges u r.field
          · refine .inr (.reverse rfl found field isEdge ?_ reverse other)
            intro interface
            cases known.symm.trans interface
            exact concrete rfl
          · push Not at other
            obtain ⟨u, source, object, has⟩ := other
            have possible := Schema.possibleTypes_of_object source object
            have base := FieldDef.sourceType_of_reverseEdge reverse
            have stored := complete.stored t stores.known stores.stored f field isEdge [u]
              (base ▸ possible) u List.mem_cons_self
            rw [← Schema.name_of_typeDef source]
            exact .inl (has.needs (Schema.mem_types_of_typeDef source) stored)

/-- A mutation of stored types locks collections that are set up or those that it strays to. -/
theorem synthesize_locksOnly (on : mutation.OnStored m) (exports : Option Selection)
    (var? : Option String) : LocksOnly (mutation.Reaches m) (mutation.synthesize m exports var?) := by
  have stores : ∀ {type t}, (∃ t, m.schema.typeDef type = .ok t ∧ Schema.isStored t = true) →
      m.objectType type = .ok t → m.schema.Stores t := by
    rintro type t ⟨t', found', stored⟩ found
    have known := (Model.typeDef_of_objectType found).1
    cases known.symm.trans found'
    exact .of_typeDef known stored
  have all : Covers (fun {α} (x : Synthesis α) => LocksOnly (mutation.Reaches m) x) (mutation.Reaches m) :=
    LocksOnly.covers
  cases mutation with
  | create type data =>
      have names : ∀ t, m.objectType type = .ok t →
          m.Throughout (m.Names ((Mutation.create type data).Reaches m)) t data :=
        fun t found => Mutation.names_of_document complete rfl found (stores on found)
      refine .insertDocument _ _ (fun t found => (names t found).here) fun var t found => ?_
      exact .objectEdges_of_throughout var none (names t found)
  | update type id data =>
      refine all.ensureOpen.bind fun _ => all.ofExcept_bind fun t found => ?_
      have names : m.Throughout (m.Names ((Mutation.update type id data).Reaches m)) t data :=
        Mutation.names_of_document complete rfl found (stores on found)
      obtain ⟨own, looks, _⟩ := names.here
      rw [Schema.name_of_typeDef (Model.typeDef_of_objectType found).1] at own looks
      refine (LocksOnly.push _).bind fun _ => (all.resolveId id).bind fun id => ?_
      refine (all.imports data).bind fun _ => all.ofExcept_bind fun _ _ => ?_
      refine (LocksOnly.freshParam _).bind fun _ => (all.varOr var?).bind fun var => ?_
      refine (LocksOnly.lockWrite own).bind fun _ => (LocksOnly.push _).bind fun _ => ?_
      refine (LocksOnly.objectEdges_of_throughout var _ names).bind fun _ => ?_
      refine (LocksOnly.exportSelection _ _).bind fun _ => (all.checkKey var own).bind fun _ => ?_
      exact (all.deferChecks _ _ looks).bind fun _ => .pure _
  | delete type id =>
      refine all.ensureOpen.bind fun _ => all.ofExcept_bind fun t found => ?_
      have known := (Model.typeDef_of_objectType found).1
      have own : m.schema.Needs t.name :=
        Schema.needs_of_stored (stores on found).known (stores on found).stored
      have concerns : (Mutation.delete type id).Concerns m t := .delete found
      have looks := Mutation.reaches_of_looks complete concerns (stores on found)
      rw [Schema.name_of_typeDef known] at own looks
      refine (LocksOnly.push _).bind fun _ => (all.resolveId id).bind fun _ => ?_
      refine (all.varOr var?).bind fun var => (LocksOnly.lockWrite (.inl own)).bind fun _ => ?_
      refine (LocksOnly.push _).bind fun _ => all.ofExcept_bind fun collections touching => ?_
      refine (all.forM fun C hC => .lockWrite ?_).bind fun _ => ?_
      · exact Mutation.reaches_of_touching complete found (stores on found) touching hC
      refine (LocksOnly.push _).bind fun _ => (all.deferChecks _ _ looks).bind fun _ => ?_
      exact (LocksOnly.forget _).bind fun _ => .pure _
  | createEdge type field source target annotations =>
      refine all.ensureOpen.bind fun _ => all.ofExcept_bind fun f known => ?_
      refine (all.resolveId source).bind fun _ => (all.resolveId target).bind fun _ => ?_
      obtain ⟨t, found, stored⟩ := on
      have stores : m.schema.Stores t := .of_typeDef found stored
      have names := Mutation.namesEdges_of_through complete
        (.edge found known : (Mutation.createEdge type field source target annotations).Through m t f)
        (.edge found) stores (Schema.mem_fields_of_fieldDef found known)
      rw [Schema.name_of_typeDef found] at names
      have own := names.own
      rw [Schema.name_of_fieldDef known] at own
      refine .insertEdge _ _ _ own (fun _ cs possible C hC => .inl ?_) (fun _ => names.targets) names.looks
      rw [Schema.possibleCollections_of_object found (Schema.kind_of_isStored stored)] at possible
      cases possible
      rw [List.mem_singleton.mp hC, ← Schema.name_of_typeDef found]
      exact Schema.needs_of_stored stores.known stored
  | updateEdge | deleteEdge => cases on

end mutations

/-! ### Time does not matter -/

section schema

variable {mutation : Mutation} {m' : Model}

theorem Mutation.Through.of_schema {f : FieldDef} (h : mutation.Through m t f)
    (same : m'.schema = m.schema) : mutation.Through m' t f := by
  obtain ⟨schema', settings', now'⟩ := m'
  obtain ⟨schema, settings, now⟩ := m
  cases same
  cases h with
  | object document found describes field edge =>
      exact .object document found (describes.of_schema rfl) field edge
  | edge found known => exact .edge found known

theorem Mutation.Concerns.of_schema (h : mutation.Concerns m t) (same : m'.schema = m.schema) :
    mutation.Concerns m' t := by
  obtain ⟨schema', settings', now'⟩ := m'
  obtain ⟨schema, settings, now⟩ := m
  cases same
  cases h with
  | object document found describes => exact .object document found (describes.of_schema rfl)
  | delete found => exact .delete found
  | edge found => exact .edge found

/-- What a mutation strays to is a matter of the schema. -/
theorem Mutation.Strays.of_schema (h : mutation.Strays m C) (same : m'.schema = m.schema) :
    mutation.Strays m' C := by
  obtain ⟨schema', settings', now'⟩ := m'
  obtain ⟨schema, settings, now⟩ := m
  cases same
  cases h with
  | edges through other => exact .edges (through.of_schema rfl) other
  | target through other => exact .target (through.of_schema rfl) other
  | reverse deleted found field edge kind reverse other =>
      exact .reverse deleted found field edge kind reverse other
  | directive concerns misplaced looks => exact .directive (concerns.of_schema rfl) misplaced looks

end schema

/-! ### Requests -/

/-- All that is locked is set up, or one of some mutations strays to it. -/
def Context.LocksKnown (m : Model) (mutations : List Mutation) (c : Context) : Prop :=
  ∀ C, c.Locked C → m.schema.Needs C ∨ ∃ mutation ∈ mutations, mutation.Strays m C

theorem lasting_locksKnown (m : Model) (mutations : List Mutation) (complete : m.schema.Complete) :
    Lasting m (fun mutation => mutation ∈ mutations ∧ mutation.OnStored m)
      (Context.LocksKnown m mutations) where
  start number remembers C locked := by
    rcases locked with none | none <;> cases none
  mutate {call c c' var} kind before synthesis := by
    have known : c'.LocksKnown m mutations := by
      intro C locked
      have only := synthesize_locksOnly (m := { m with now := call.now }) complete kind.2
        (if call.isRoot then some call.selection else none) none
      rcases only c var c' synthesis C locked with earlier | needs | strays
      · exact before C earlier
      · exact .inl needs
      · exact .inr ⟨call.mutation, kind.1, strays.of_schema rfl⟩
    exact ⟨known, known⟩

/-- Whatever calls on stored types a request has taken, the transaction that it hands over names collections
that it has locked, and these are set up but for those that one of the mutations strays to. So in a session
with an engine that has been set up, at any time, it fails over a collection that is not there only if one of
the mutations strays to it. -/
theorem submitted_collections (m : Model) (number : Nat) (remembers : Bool) (names : List String)
    (calls : List Call) (call : Call) (t : Transaction) (complete : m.schema.Complete)
    (stored : ∀ d ∈ call :: calls, d.mutation.OnStored m)
    (h : submission? (((Request.start number remembers names).after m calls).call m call).1 = some t) :
    (∀ b ∈ partsOf t.statements, ∀ C ∈ b.names, C ∈ t.write ∨ C ∈ t.read) ∧
      (∀ C, C ∈ t.write ∨ C ∈ t.read →
        m.schema.Needs C ∨ ∃ d ∈ call :: calls, d.mutation.Strays m C) ∧
      ∀ s C, Session.Reachable m .plain s →
        (s.engine.database.execute t).1 = .error (.storage (.unknownCollection C)) →
          ¬ m.schema.Needs C ∧ ∃ d ∈ call :: calls, d.mutation.Strays m C := by
  have covered : t.Covered := by
    have on := (Request.onCourse_start m number remembers names).after calls
    obtain ⟨c, _, _, _, _, course, rfl⟩ := ((call_turn m _ call).onCourse on).2 t h
    exact course.covers.transaction
  have known : ∀ C, C ∈ t.write ∨ C ∈ t.read →
      m.schema.Needs C ∨ ∃ d ∈ call :: calls, d.mutation.Strays m C := by
    have lasting := lasting_locksKnown m ((call :: calls).map Call.mutation) complete
    have kinds : ∀ d ∈ call :: calls,
        d.mutation ∈ (call :: calls).map Call.mutation ∧ d.mutation.OnStored m :=
      fun d hd => ⟨List.mem_map_of_mem hd, stored d hd⟩
    have on := (lasting.follows_start number remembers names).after lasting fun d hd =>
      kinds d (List.mem_cons_of_mem _ hd)
    obtain ⟨c, locks, rfl⟩ :=
      ((call_turn m _ call).follows lasting (kinds call List.mem_cons_self) on).2 t h
    intro C locked
    refine (locks C locked).imp_right ?_
    rintro ⟨mutation, mem, strays⟩
    obtain ⟨d, hd, rfl⟩ := List.mem_map.mp mem
    exact ⟨d, hd, strays⟩
  refine ⟨fun b hb C => covered.locked hb, known, fun s C reachable failed => ?_⟩
  obtain ⟨locked, absent⟩ := covered.unknown failed
  have lacking : ¬ m.schema.Needs C := by
    rw [← reachable.isSome_iff_needs, absent]
    exact Bool.false_ne_true
  exact ⟨lacking, (known C locked).resolve_left lacking⟩

/-! ### Examples -/

instance (x : Except Error Bool) : Decidable (x = .ok true) :=
  decidable_of_iff (x.toOption = some true) (by cases x <;> simp [Except.toOption])

instance (x : Except Error (List TypeDef)) :
    Decidable (∀ us, x = .ok us → ∀ u ∈ us, Schema.isStored u = true) :=
  decidable_of_iff (∀ us ∈ x.toOption, ∀ u ∈ us, Schema.isStored u = true)
    (by cases x <;> simp [Except.toOption])

/-- Whether a schema is complete can be found out. -/
instance (s : Schema) : Decidable s.Complete :=
  decidable_of_iff
    ((∀ i ∈ s.types, i.kind = .interface → ∀ u ∈ s.implementers i.name, ∀ f ∈ i.fields,
        ∃ g ∈ u.fields, g.name = f.name ∧ (s.isEdgeField f = .ok true → s.isEdgeField g = .ok true)) ∧
      ∀ t ∈ s.types, Schema.isStored t = true → ∀ f ∈ t.fields, s.isEdgeField f = .ok true →
        ∀ us, s.possibleTypes f.type.base = .ok us → ∀ u ∈ us, Schema.isStored u = true)
    ⟨fun h => ⟨h.1, h.2⟩, fun h => ⟨h.declared, h.stored⟩⟩

/-- Authors write books and films, and know by whom they were mentioned. -/
def mediaLibrary : Model where
  schema := .ofTypes [
    ⟨"Work", .interface, [⟨"authors", .list (.named "Person"), []⟩], [], [], []⟩,
    ⟨"Media", .union, [], [], ["Book", "Film"], []⟩,
    ⟨"Book", .object, [⟨"authors", .list (.named "Person"),
      [⟨"_uniqueForTarget_AccordingToInterface", [("interface", .str "Work")]⟩]⟩,
      ⟨"mentions", .list (.named "Person"), []⟩], ["Work"], [], []⟩,
    ⟨"Film", .object, [⟨"authors", .list (.named "Person"), []⟩,
      ⟨"mentions", .list (.named "Person"), []⟩], ["Work"], [], []⟩,
    ⟨"Person", .object, [⟨"name", .named "String", []⟩, ⟨"_authorsFromWork", .list (.named "Work"), []⟩,
      ⟨"_mentionsFromMedia", .list (.named "Media"), []⟩], [], [], []⟩]
  settings := .default
  now := 0

/-- A root field that makes a mutation. -/
def Mutation.rootCall (mutation : Mutation) (name : String) : Call where
  now := 0
  isRoot := true
  selection := ⟨name, []⟩
  mutation := mutation

/-- Writes a book with an author, and mentions another person. -/
def writing : Call :=
  (Mutation.create "Book" [("authors", .list [.obj [("create", .obj [("name", .str "Ann")])]]),
    ("mentions", .obj [("create", .obj [("name", .str "Ben")])])]).rootCall "new"

/-- Takes a film out. -/
def dropping : Call :=
  (Mutation.delete "Film" (.str "Film/9")).rootCall "gone"

theorem submitted_collections_writing :
    ∃ t, mediaLibrary.schema.Complete ∧
      (∀ d ∈ [dropping, writing], d.mutation.OnStored mediaLibrary) ∧
      submission? (((Request.start 1 true ["new", "gone"]).after mediaLibrary [writing]).call
        mediaLibrary dropping).1 = some t ∧
      "MentionsEdgeFromBook" ∈ t.write ∧ "AuthorsEdgeFromFilm" ∈ t.write ∧
      (∀ C, C ∈ t.write ∨ C ∈ t.read →
        mediaLibrary.schema.Needs C ∨ ∃ d ∈ [dropping, writing], d.mutation.Strays mediaLibrary C) ∧
      ∀ s C, Session.Reachable mediaLibrary .plain s →
        (s.engine.database.execute t).1 = .error (.storage (.unknownCollection C)) →
          ¬ mediaLibrary.schema.Needs C ∧
            ∃ d ∈ [dropping, writing], d.mutation.Strays mediaLibrary C := by
  have complete : mediaLibrary.schema.Complete := by decide +kernel
  have stored : ∀ d ∈ [dropping, writing], d.mutation.OnStored mediaLibrary := by
    intro d hd
    simp only [List.mem_cons, List.not_mem_nil, or_false] at hd
    rcases hd with rfl | rfl
    · exact ⟨_, rfl, by decide +kernel⟩
    · exact ⟨_, rfl, by decide +kernel⟩
  have made : ((submission? (((Request.start 1 true ["new", "gone"]).after mediaLibrary [writing]).call
      mediaLibrary dropping).1).map fun t =>
        t.write.contains "MentionsEdgeFromBook" && t.write.contains "AuthorsEdgeFromFilm") = some true := by
    decide +kernel
  obtain ⟨t, submitted, locked⟩ := Option.map_eq_some_iff.mp made
  rw [Bool.and_eq_true, List.contains_iff_mem, List.contains_iff_mem] at locked
  obtain ⟨_, known, fails⟩ :=
    submitted_collections mediaLibrary 1 true ["new", "gone"] [writing] dropping t complete stored submitted
  exact ⟨t, complete, stored, submitted, locked.1, locked.2, known, fails⟩

/-- The collection that something fails over because it is not there. -/
def unknownCollection? : Except Error α → Option String
  | .error (.storage (.unknownCollection C)) => some C
  | _ => none

theorem eq_of_unknownCollection? {x : Except Error α} (h : unknownCollection? x = some C) :
    x = .error (.storage (.unknownCollection C)) := by
  unfold unknownCollection? at h
  split at h
  · cases h
    rfl
  · cases h

/-- The collection that a call fails over after a request, if it is not there. -/
def failsAfter? (m : Model) (first : Mutation) (call : Call) : Option String :=
  (Session.after? m [first.request]).bind fun s =>
    (submission? ((Request.start 1 true [call.name]).call m call).1).bind fun t =>
      unknownCollection? (s.engine.database.execute t).1

theorem exists_of_failsAfter? (first : Mutation) {call : Call} (h : failsAfter? m first call = some C) :
    ∃ s t, Session.Reachable m .plain s ∧
      submission? ((Request.start 1 true [call.name]).call m call).1 = some t ∧
      (s.engine.database.execute t).1 = .error (.storage (.unknownCollection C)) := by
  obtain ⟨s, made, h⟩ := Option.bind_eq_some_iff.mp h
  obtain ⟨t, submitted, h⟩ := Option.bind_eq_some_iff.mp h
  exact ⟨s, t, Session.reachable_of_after made, submitted, eq_of_unknownCollection? h⟩

/-- A person who is not mentioned anywhere cannot be deleted, because the edges of all mentions are looked for
under the name of the union; and a reverse field that is given in an update is taken for a field with edges of
its own. -/
theorem submitted_astray :
    mediaLibrary.schema.Complete ∧
    (∃ s t, Session.Reachable mediaLibrary .plain s ∧
      submission? ((Request.start 1 true ["gone"]).call mediaLibrary
        ((Mutation.delete "Person" (.str "Person/1")).rootCall "gone")).1 = some t ∧
      (s.engine.database.execute t).1 =
        .error (.storage (.unknownCollection "MentionsEdgeFromMedia"))) ∧
    ∃ s t, Session.Reachable mediaLibrary .plain s ∧
      submission? ((Request.start 1 true ["new"]).call mediaLibrary ((Mutation.update "Person"
        (.str "Person/1") [("_authorsFromWork", .list [])]).rootCall "new")).1 = some t ∧
      (s.engine.database.execute t).1 =
        .error (.storage (.unknownCollection "_authorsFromWorkEdgeFromPerson")) := by
  have failures :
      failsAfter? mediaLibrary (.create "Person" [])
        ((Mutation.delete "Person" (.str "Person/1")).rootCall "gone") = some "MentionsEdgeFromMedia" ∧
      failsAfter? mediaLibrary (.create "Person" []) ((Mutation.update "Person" (.str "Person/1")
        [("_authorsFromWork", .list [])]).rootCall "new") = some "_authorsFromWorkEdgeFromPerson" := by
    decide +kernel
  exact ⟨by decide +kernel, exists_of_failsAfter? _ failures.1, exists_of_failsAfter? _ failures.2⟩

end DocGraph
