import DocGraph.Proofs.Parts
import Mathlib.Logic.Relation

/-! # Objects inside objects

An input object creates further objects through the entries of its edge fields (`Model.Spawns`), to any depth
(`Model.Describes`). The statements of its edges are put together by going through it, entry by entry, and into
each object that an entry creates. `Walks` says what has to be known of an entry, given the object that it
creates, and of a document, given its edges; what is said then holds of the edges of every input object whose
objects are proper (`Walks.objectEdges`). For a property that passes on, an entry comes down to the insertion of
an edge (`Covers.walks`). -/

namespace DocGraph

variable {m : Model} {W : TypeDef → InputObject → Prop}

open Synthesis

/-! ### What an entry creates -/

/-- The key of an entry of an edge field under which the document to create is given, and its type. -/
inductive Chooses (m : Model) (f : FieldDef) (item : InputObject) : (key type : String) → Prop
  | concrete {kind : TypeKind} (known : m.schema.kindOf f.type.base = .ok kind)
      (concrete : kind ≠ .interface ∧ kind ≠ .union) : Chooses m f item "create" f.type.base
  | among {kind : TypeKind} {types : List TypeDef} {u : TypeDef}
      (known : m.schema.kindOf f.type.base = .ok kind) (abstract : kind = .interface ∨ kind = .union)
      (possible : m.schema.possibleTypes f.type.base = .ok types)
      (only : types.filter (fun t => Model.holdsObject item ("create" ++ t.name)) = [u]) :
      Chooses m f item ("create" ++ u.name) u.name

/-- A document that an entry creates is given as an object, under the key that the entry chooses. -/
theorem chooses_of_creation {site : EdgeSite} {unions : Bool} {item : InputObject} {key type : String}
    (h : m.creation site unions item = .ok (.create key type)) :
    Chooses m site.field item key type ∧ Model.holdsObject item key = true := by
  unfold Model.creation at h
  rcases hk : m.schema.kindOf site.targetType with e | kind
  · rw [hk] at h
    cases h
  · simp only [hk, bind, Except.bind, pure, Except.pure] at h
    split at h
    · cases h
    · split at h
      · rename_i abstract
        rcases ht : m.schema.possibleTypes site.targetType with e | types
        · simp [ht] at h
        · simp only [ht] at h
          split at h
          · cases h
          · rename_i u only
            have mem : u ∈ types.filter fun t => Model.holdsObject item ("create" ++ t.name) := by
              rw [only]
              exact List.mem_singleton.mpr rfl
            cases h
            exact ⟨.among hk (by simpa using abstract) ht only, (List.mem_filter.mp mem).2⟩
          · cases h
      · rename_i concrete
        split at h
        · rename_i holds
          cases h
          exact ⟨.concrete hk (by simpa using concrete), holds⟩
        · cases h

namespace Model

theorem holdsObject_cons (name : String) (value : Input) (rest : InputObject) (key : String) :
    holdsObject ((name, value) :: rest) key =
      if key = name then value.obj?.isSome else holdsObject rest key := by
  unfold holdsObject
  rw [Record.get?_cons]
  split <;> rfl

/-! ### The objects of an input object -/

/-- An entry of an edge field of an input object creates another one. -/
inductive Spawns (m : Model) : TypeDef × InputObject → TypeDef × InputObject → Prop
  | mk {t u : TypeDef} {data item inner : InputObject} {name key type : String} {value : Input}
      {f : FieldDef} (field : (name, value) ∈ data) (edge : m.edgeField? t name value = some f)
      (entry : .obj item ∈ value.items) (unconnected : item.get? "connect" = none)
      (chosen : Chooses m f item key type) (given : item.get? key = some (.obj inner))
      (found : m.objectType type = .ok u) : Spawns m (t, data) (u, inner)

/-- An object is an input object of a type or, at any depth, one that it creates. -/
def Describes (m : Model) (t : TypeDef) (data : InputObject) (u : TypeDef) (inner : InputObject) : Prop :=
  Relation.ReflTransGen m.Spawns (t, data) (u, inner)

/-- All objects of an input object have a property. -/
def Throughout (m : Model) (W : TypeDef → InputObject → Prop) (t : TypeDef) (data : InputObject) : Prop :=
  ∀ u inner, m.Describes t data u inner → W u inner

theorem Throughout.here {t : TypeDef} {data : InputObject} (h : m.Throughout W t data) : W t data :=
  h t data .refl

theorem Throughout.inside {t u : TypeDef} {data inner : InputObject} (h : m.Throughout W t data)
    (spawns : m.Spawns (t, data) (u, inner)) : m.Throughout W u inner :=
  fun _ _ describes => h _ _ (.head spawns describes)

theorem Throughout.of_inside {t : TypeDef} {data : InputObject} (own : W t data)
    (inside : ∀ u inner, m.Spawns (t, data) (u, inner) → m.Throughout W u inner) :
    m.Throughout W t data := by
  intro u inner describes
  rcases Relation.ReflTransGen.cases_head describes with same | ⟨⟨u', inner'⟩, spawns, others⟩
  · cases same
    exact own
  · exact inside u' inner' spawns u inner others

/-- All objects that an entry of a field creates have a property. -/
def ThroughoutEntry (m : Model) (W : TypeDef → InputObject → Prop) (f : FieldDef) (item : InputObject) : Prop :=
  ∀ key type u inner, item.get? "connect" = none → Chooses m f item key type →
    item.get? key = some (.obj inner) → m.objectType type = .ok u → m.Throughout W u inner

/-- All objects that the items of a field create have a property. -/
def ThroughoutItems (m : Model) (W : TypeDef → InputObject → Prop) (f : FieldDef) (items : List Input) : Prop :=
  ∀ item, .obj item ∈ items → m.ThroughoutEntry W f item

theorem ThroughoutItems.of_all {f : FieldDef} {items : List Input} (h : ∀ u inner, W u inner) :
    m.ThroughoutItems W f items :=
  fun _ _ _ _ _ _ _ _ _ _ u inner _ => h u inner

theorem ThroughoutItems.tail {f : FieldDef} {v : Input} {items : List Input}
    (h : m.ThroughoutItems W f (v :: items)) : m.ThroughoutItems W f items :=
  fun item mem => h item (List.mem_cons_of_mem _ mem)

/-- All objects that the fields of an input object create have a property. -/
def ThroughoutFields (m : Model) (W : TypeDef → InputObject → Prop) (t : TypeDef) (data : InputObject) : Prop :=
  ∀ name value f, (name, value) ∈ data → m.edgeField? t name value = some f →
    m.ThroughoutItems W f value.items

theorem ThroughoutFields.head {t : TypeDef} {name : String} {value : Input} {rest : InputObject}
    {f : FieldDef} (h : m.ThroughoutFields W t ((name, value) :: rest))
    (edge : m.edgeField? t name value = some f) : m.ThroughoutItems W f value.items :=
  h name value f List.mem_cons_self edge

theorem ThroughoutFields.tail {t : TypeDef} {e : String × Input} {rest : InputObject}
    (h : m.ThroughoutFields W t (e :: rest)) : m.ThroughoutFields W t rest :=
  fun name value f mem => h name value f (List.mem_cons_of_mem _ mem)

theorem Throughout.fields {t : TypeDef} {data : InputObject} (h : m.Throughout W t data) :
    m.ThroughoutFields W t data :=
  fun _ _ _ field edge _ entry _ _ _ _ unconnected chosen given found =>
    h.inside (.mk field edge entry unconnected chosen given found)

/-- What an object creates is a matter of the schema. -/
theorem Spawns.of_schema {m' : Model} {a b : TypeDef × InputObject} (h : m.Spawns a b)
    (same : m'.schema = m.schema) : m'.Spawns a b := by
  obtain ⟨schema', settings', now'⟩ := m'
  obtain ⟨schema, settings, now⟩ := m
  cases same
  cases h with
  | mk field edge entry unconnected chosen given found =>
      refine .mk field edge entry unconnected ?_ given found
      cases chosen with
      | concrete known concrete => exact .concrete known concrete
      | among known abstract possible only => exact .among known abstract possible only

theorem Describes.of_schema {m' : Model} {t u : TypeDef} {data inner : InputObject}
    (h : m.Describes t data u inner) (same : m'.schema = m.schema) : m'.Describes t data u inner :=
  Relation.ReflTransGen.mono (fun _ _ spawns => Spawns.of_schema spawns same) _ _ h

end Model

/-! ### Going through an input object -/

/-- A property `Edges` of the edges that leave a document, by its variable and its type, and `Creates` of the
creation of a document, which hold of each entry and each document if they hold of what is inside. A document
comes of an object with the property `W`, and then each of its edge fields has the property `E`. -/
structure Walks (m : Model) (W : TypeDef → InputObject → Prop) (E : String → FieldDef → Prop)
    (Edges : (replacing : Option Ref) → (var type : String) → Synthesis Unit → Prop)
    (Creates : (type var : String) → Synthesis Unit → Prop) : Prop where
  pure (replacing : Option Ref) (var type : String) : Edges replacing var type (pure ())
  throw (replacing : Option Ref) (var type : String) (e : Error) : Edges replacing var type (throw e)
  bind {replacing : Option Ref} {var type : String} {x : Synthesis Unit} {f : Unit → Synthesis Unit}
    (first : Edges replacing var type x) (later : ∀ a, Edges replacing var type (f a)) :
    Edges replacing var type (x >>= f)
  leaves {t : TypeDef} {data : InputObject} (proper : W t data) {name : String} {value : Input} {f : FieldDef}
    (field : (name, value) ∈ data) (edge : m.edgeField? t name value = some f) : E t.name f
  entry (replacing : Option Ref) {site : EdgeSite} {unions : Bool} {item : InputObject}
    {create : (key type var : String) → Synthesis Unit} (proper : E site.type site.field)
    (creates : ∀ key type var, item.get? "connect" = none → Chooses m site.field item key type →
      Model.holdsObject item key = true → Creates type var (create key type var)) :
    Edges replacing site.var site.type (m.entryEdge site unions item create)
  document {type : String} (var : String) {data : InputObject}
    (proper : ∀ t, m.objectType type = .ok t → W t data)
    (edges : ∀ var t, m.objectType type = .ok t → Edges none var t.name (m.objectEdges var t none data)) :
    Creates type var (do
      let _ ← m.insertDocument type data none (some var) fun var t => m.objectEdges var t none data)

namespace Walks

variable {E : String → FieldDef → Prop} {Edges : Option Ref → String → String → Synthesis Unit → Prop}
  {Creates : String → String → Synthesis Unit → Prop} (walks : Walks m W E Edges Creates)

include walks

mutual

/-- The edges of an input object, if dropping those that are replaced has the property as well. -/
theorem objectEdges (var : String) (t : TypeDef) (replacing : Option Ref) :
    ∀ data : List (String × Input),
      (∀ name value f, (name, value) ∈ data → m.edgeField? t name value = some f → E t.name f) →
      m.ThroughoutFields W t data →
      (∀ id, replacing = some id → ∀ name value f, (name, value) ∈ data →
        m.edgeField? t name value = some f → Edges replacing var t.name (Model.dropEdges t.name f id)) →
      Edges replacing var t.name (m.objectEdges var t replacing data)
  | [], _, _, _ => by
      rw [Model.objectEdges]
      exact walks.pure _ _ _
  | (name, value) :: rest, leaves, proper, drops => by
      have others : Edges replacing var t.name (m.objectEdges var t replacing rest) :=
        objectEdges var t replacing rest
          (fun name value f mem => leaves name value f (List.mem_cons_of_mem _ mem)) proper.tail
          (fun id same name value f mem => drops id same name value f (List.mem_cons_of_mem _ mem))
      rw [Model.objectEdges]
      rcases edge : m.edgeField? t name value with _ | f
      · exact others
      · have own := leaves name value f List.mem_cons_self edge
        have here : ∀ unions, Edges replacing var t.name (m.fieldEdges ⟨var, t.name, f⟩ unions value) :=
          fun unions => fieldEdges ⟨var, t.name, f⟩ replacing unions value own (proper.head edge)
        cases replacing with
        | none => exact walks.bind (here _) fun _ => others
        | some id =>
            have dropped := drops id rfl name value f List.mem_cons_self edge
            exact walks.bind dropped fun _ => walks.bind (here _) fun _ => others

theorem fieldEdges (site : EdgeSite) (replacing : Option Ref) (unions : Bool) :
    ∀ value : Input, E site.type site.field → m.ThroughoutItems W site.field value.items →
      Edges replacing site.var site.type (m.fieldEdges site unions value)
  | .list items, own, proper => by
      rw [Model.fieldEdges]
      exact listEdges site replacing unions items own proper
  | .obj item, own, proper => by
      rw [Model.fieldEdges]
      have entry := proper item List.mem_cons_self
      exact walks.entry replacing own fun key type var unconnected chosen holds =>
        createAt key type var item holds fun u inner => entry key type u inner unconnected chosen
  | .null, _, _ => by
      rw [Model.fieldEdges]
      exact walks.pure _ _ _
  | .bool _, _, _ | .num _, _, _ | .str _, _, _ | .var _, _, _ => by
      simp only [Model.fieldEdges]
      exact walks.throw _ _ _ _

theorem listEdges (site : EdgeSite) (replacing : Option Ref) (unions : Bool) :
    ∀ items : List Input, E site.type site.field → m.ThroughoutItems W site.field items →
      Edges replacing site.var site.type (m.listEdges site unions items)
  | [], _, _ => by
      rw [Model.listEdges]
      exact walks.pure _ _ _
  | .obj item :: rest, own, proper => by
      rw [Model.listEdges]
      have entry := proper item List.mem_cons_self
      refine walks.bind (walks.entry replacing own fun key type var unconnected chosen holds => ?_) fun _ => ?_
      · exact createAt key type var item holds fun u inner => entry key type u inner unconnected chosen
      · exact listEdges site replacing unions rest own proper.tail
  | .null :: rest, own, proper => by
      rw [Model.listEdges]
      exact listEdges site replacing unions rest own proper.tail
  | .bool _ :: _, _, _ | .num _ :: _, _, _ | .str _ :: _, _, _ | .list _ :: _, _, _ | .var _ :: _, _, _ => by
      simp only [Model.listEdges]
      exact walks.throw _ _ _ _

theorem createAt (key type var : String) :
    ∀ item : List (String × Input), Model.holdsObject item key = true →
      (∀ u inner, Record.get? item key = some (.obj inner) → m.objectType type = .ok u →
        m.Throughout W u inner) →
      Creates type var (m.createAt key type var item)
  | [], holds, _ => by cases holds
  | (name, .obj data) :: rest, holds, proper => by
      rw [Model.createAt]
      rw [Model.holdsObject_cons] at holds
      by_cases here : name = key
      · rw [if_pos (by simpa using here)]
        have own := fun u => proper u data (by rw [Record.get?_cons, if_pos here.symm])
        refine walks.document var (fun t found => (own t found).here) fun var t found => ?_
        refine objectEdges var t none data (fun name value f => ?_) (own t found).fields fun id same => ?_
        · exact walks.leaves (own t found).here
        · cases same
      · rw [if_neg (by simpa using here)]
        rw [if_neg (fun same => here same.symm)] at holds
        refine createAt key type var rest holds fun u inner given => proper u inner ?_
        rw [Record.get?_cons, if_neg (fun same => here same.symm), given]
  | (name, .null) :: rest, holds, proper | (name, .bool _) :: rest, holds, proper
  | (name, .num _) :: rest, holds, proper | (name, .str _) :: rest, holds, proper
  | (name, .list _) :: rest, holds, proper | (name, .var _) :: rest, holds, proper => by
      rw [Model.holdsObject_cons] at holds
      split at holds
      · cases holds
      · rename_i other
        simp only [Model.createAt]
        refine createAt key type var rest holds fun u inner given => proper u inner ?_
        rw [Record.get?_cons, if_neg other, given]

end

end Walks

/-! ### Properties that pass on -/

namespace Covers

variable {P : ∀ {α : Type}, Synthesis α → Prop} {L : String → Prop} (h : Covers P L)

include h

theorem entryEdge {site : EdgeSite} {unions : Bool} {item : InputObject}
    {create : (key type var : String) → Synthesis Unit}
    (edge : ∀ target type checked, (checked = true → type = site.targetType) →
      P (m.insertEdge site.type site.field.name site.source target type (annotations item) none none
        ⟨false, checked⟩))
    (creates : ∀ key type var, item.get? "connect" = none → Chooses m site.field item key type →
      Model.holdsObject item key = true → P (create key type var)) :
    P (m.entryEdge site unions item create) := by
  unfold Model.entryEdge
  split
  · exact h.fail _
  · refine h.bind (h.resolveId _) fun target => ?_
    exact h.bind (edge target _ true fun _ => rfl) fun _ => h.pure _
  · rename_i unconnected
    refine h.ofExcept_bind fun creation chosen => ?_
    cases creation with
    | none | several => exact h.fail _
    | create key type =>
        obtain ⟨chooses, holds⟩ := chooses_of_creation chosen
        refine h.bind h.freshVar fun var => ?_
        refine h.bind (creates key type var unconnected chooses holds) fun _ => ?_
        have unchecked : false = true → type = site.targetType := fun no => by cases no
        exact h.bind (edge _ type false unchecked) fun _ => h.pure _

/-- For a property that passes on, it is enough to know it of edges and of documents. -/
theorem walks {E : String → FieldDef → Prop}
    (leaves : ∀ {t data}, W t data → ∀ {name value f}, (name, value) ∈ data →
      m.edgeField? t name value = some f → E t.name f)
    (edge : ∀ {type f source target targetType given checked}, E type f →
      (checked = true → targetType = f.type.base) →
      P (m.insertEdge type f.name source target targetType given none none ⟨false, checked⟩))
    (document : ∀ {type data var}, (∀ t, m.objectType type = .ok t → W t data) →
      (∀ var t, m.objectType type = .ok t → P (m.objectEdges var t none data)) →
      P (m.insertDocument type data none (some var) fun var t => m.objectEdges var t none data)) :
    Walks m W E (fun _ _ _ x => P x) fun _ _ x => P x where
  pure _ _ _ := h.pure _
  throw _ _ _ e := h.throw e
  bind := h.bind
  leaves := leaves
  entry _ _ _ _ _ proper creates := h.entryEdge (fun _ _ _ same => edge proper same) creates
  document _ _ proper edges := h.bind (document proper edges) fun _ => h.pure _

end Covers

end DocGraph
