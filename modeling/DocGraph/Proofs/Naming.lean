import DocGraph.Proofs.Nesting

/-! # What mutations lock

Collections are locked at many places: where documents and edges are written, where ids are looked for, and
where directives are checked. `LocksOnly P x` says that a part of a mutation locks no other collections than
those with the property `P`. It passes on to what is put together (`LocksOnly.covers`), and for the objects
inside an input object it is enough that each of them by itself needs collections with the property
(`LocksOnly.objectEdges_of_throughout`). -/

namespace DocGraph

variable {α β : Type} {m : Model} {P : String → Prop} {t : TypeDef} {C : String}

open Synthesis

/-! ### Parts that lock some collections only -/

/-- Locks no other collections than those with a property. -/
def LocksOnly (P : String → Prop) (x : Synthesis α) : Prop :=
  ∀ c a c', outcome x c = (.ok a, c') → ∀ C, c'.Locked C → c.Locked C ∨ P C

namespace LocksOnly

theorem of_same {x : Synthesis α} (h : ∀ {c a c'}, outcome x c = (.ok a, c') →
    c'.write = c.write ∧ c'.read = c.read) : LocksOnly P x := by
  intro c a c' done C locked
  obtain ⟨write, read⟩ := h done
  unfold Context.Locked at locked
  rw [write, read] at locked
  exact .inl locked

theorem pure (a : α) : LocksOnly P (Pure.pure a : Synthesis α) :=
  of_same fun done => by cases done; exact ⟨rfl, rfl⟩

theorem throw (e : Error) : LocksOnly P (throw e : Synthesis α) := by
  intro c a c' done
  cases done

theorem bind {x : Synthesis α} {f : α → Synthesis β} (hx : LocksOnly P x)
    (hf : ∀ a, LocksOnly P (f a)) : LocksOnly P (x >>= f) := by
  intro c b c'' done C locked
  obtain ⟨a, c', first, second⟩ := outcome_bind_ok.mp done
  rcases hf a c' b c'' second C locked with before | own
  · exact hx c a c' first C before
  · exact .inr own

theorem push (s : Statement) : LocksOnly P (push s) :=
  of_same fun done => by cases done; exact ⟨rfl, rfl⟩

theorem freshParam (v : Json) : LocksOnly P (freshParam v) := by
  refine of_same fun done => ?_
  obtain ⟨_, rfl, _⟩ := Effects.of_freshParam_ok done
  exact ⟨rfl, rfl⟩

theorem needsCheck (id : Ref) (type : String) : LocksOnly P (needsCheck id type) := by
  refine of_same fun {c a c'} done => ?_
  unfold Synthesis.needsCheck at done
  rw [outcome_bind_of_ok (outcome_get c)] at done
  dsimp only at done
  split at done
  · cases done
    exact ⟨rfl, rfl⟩
  · split at done <;> cases done <;> exact ⟨rfl, rfl⟩

theorem forget (id : Ref) : LocksOnly P (forget id) := by
  refine of_same fun {c a c'} done => ?_
  have done : (Except.ok (), c.forget id) = (.ok a, c') := done
  obtain ⟨memo, same⟩ := c.forget_eq id
  rw [same] at done
  cases done
  exact ⟨rfl, rfl⟩

theorem lockWrite (own : P C) : LocksOnly P (lockWrite C) := by
  intro c a c' done C' locked
  cases done
  rcases locked with locked | locked
  · rcases NameSet.mem_insert.mp locked with rfl | locked
    · exact .inr own
    · exact .inl (.inl locked)
  · exact .inl (.inr (NameSet.mem_erase.mp locked).1)

theorem lockRead (own : P C) : LocksOnly P (lockRead C) := by
  intro c a c' done C' locked
  cases done
  dsimp only at locked
  split at locked
  · exact .inl locked
  · rcases locked with locked | locked
    · exact .inl (.inl locked)
    · rcases NameSet.mem_insert.mp locked with rfl | locked
      · exact .inr own
      · exact .inl (.inr locked)

/-- All parts that leave stores alone lock what they read. -/
theorem covers : Covers (fun {α} (x : Synthesis α) => LocksOnly P x) P where
  pure := pure
  throw := throw
  bind := bind
  get := of_same fun done => by cases done; exact ⟨rfl, rfl⟩
  fail _ := push _
  comment _ := push _
  assert _ _ := push _
  defer _ := of_same fun done => by cases done; exact ⟨rfl, rfl⟩
  freshVar := of_same fun done => by cases done; exact ⟨rfl, rfl⟩
  freshParam := freshParam
  needsCheck := needsCheck
  lockRead := lockRead

theorem exportVar (name : String) (value : Ref) : LocksOnly P (exportVar name value) := by
  refine of_same fun done => ?_
  obtain ⟨_, rfl⟩ := of_exportVar_ok done
  exact ⟨rfl, rfl⟩

theorem exportField (var field : String) (exportAs : Option String) :
    LocksOnly P (exportField var field exportAs) := by
  cases exportAs with
  | none => exact pure _
  | some x =>
      rw [Synthesis.exportField]
      refine covers.ite_bind (fun _ => throw _) ?_
      exact (exportVar _ _).bind fun _ => push _

theorem exportSelection (var : String) (exports : Option Selection) :
    LocksOnly P (exportSelection var exports) :=
  covers.exportSelection (exportField var) exports

end LocksOnly

/-! ### Documents and edges -/

/-- The collections that edges of a field of a type need: their own, those where the other ends are looked
for, and those that the directives of the type look at. -/
structure Model.NamesEdges (m : Model) (P : String → Prop) (type : String) (f : FieldDef) : Prop where
  own : P (edgeCollection type f.name)
  targets : ∀ names, m.schema.possibleCollections f.type.base = .ok names → ∀ C ∈ names, P C
  looks : ∀ t, m.schema.typeDef type = .ok t → ∀ f d C, m.schema.LooksAt t f d C → P C

/-- The collections that an input object of a type needs, the objects inside it apart. -/
structure Model.Names (m : Model) (P : String → Prop) (t : TypeDef) (data : InputObject) : Prop where
  own : P t.name
  looks : ∀ u, m.schema.typeDef t.name = .ok u → ∀ f d C, m.schema.LooksAt u f d C → P C
  edges : ∀ name value f, (name, value) ∈ data → m.edgeField? t name value = some f →
    m.NamesEdges P t.name f

namespace LocksOnly

theorem insertEdge {type field : String} {source target : Ref} {targetType : String} (given : InputObject)
    (exports : Option Selection) (var? : Option String) {ends : EndChecks}
    (own : P (edgeCollection type field))
    (sources : ends.source = true →
      ∀ names, m.schema.possibleCollections type = .ok names → ∀ C ∈ names, P C)
    (targets : ends.target = true →
      ∀ names, m.schema.possibleCollections targetType = .ok names → ∀ C ∈ names, P C)
    (looks : ∀ t, m.schema.typeDef type = .ok t → ∀ f d C, m.schema.LooksAt t f d C → P C) :
    LocksOnly P (m.insertEdge type field source target targetType given exports var? ends) :=
  covers.insertEdge given var? (lockWrite own) (fun _ _ _ => push _) (fun var => exportSelection var exports) own
    sources targets looks

theorem insertDocument {type : String} {data : InputObject} (exports : Option Selection)
    (var? : Option String) {edges : String → TypeDef → Synthesis Unit}
    (names : ∀ t, m.objectType type = .ok t → m.Names P t data)
    (inside : ∀ var t, m.objectType type = .ok t → LocksOnly P (edges var t)) :
    LocksOnly P (m.insertDocument type data exports var? edges) := by
  have all : Covers (fun {α} (x : Synthesis α) => LocksOnly P x) P := covers
  unfold Model.insertDocument
  refine all.ensureOpen.bind fun _ => all.ofExcept_bind fun t found => ?_
  have same := Schema.name_of_typeDef (Model.typeDef_of_objectType found).1
  have own := (names t found).own
  rw [same] at own
  refine (push _).bind fun _ => (all.imports data).bind fun _ => all.ofExcept_bind fun _ _ => ?_
  refine (freshParam _).bind fun _ => (all.varOr var?).bind fun var => (lockWrite own).bind fun _ => ?_
  refine (push _).bind fun _ => (inside var t found).bind fun _ => (exportSelection _ _).bind fun _ => ?_
  have looks := (names t found).looks
  rw [same] at looks
  exact (all.checkKey var own).bind fun _ => (all.deferChecks _ _ looks).bind fun _ => pure _

theorem dropEdges {type : String} {f : FieldDef} (id : Ref) (own : P (edgeCollection type f.name)) :
    LocksOnly P (Model.dropEdges type f id) :=
  (lockWrite own).bind fun _ => (push _).bind fun _ => push _

/-- Documents and edges inside an input object need the collections of its objects. -/
theorem walks : Walks m (m.Names P) (m.NamesEdges P) (fun _ _ _ x => LocksOnly P x) fun _ _ x => LocksOnly P x := by
  refine covers.walks (fun names _ _ _ field edge => names.edges _ _ _ field edge) ?_ ?_
  · intro type f source target targetType given checked names same
    refine insertEdge _ _ _ names.own (fun no => by cases no) (fun yes => ?_) names.looks
    rw [same yes]
    exact names.targets
  · exact fun names inside => insertDocument _ _ names inside

theorem objectEdges_of_throughout (var : String) (replacing : Option Ref) {data : InputObject}
    (names : m.Throughout (m.Names P) t data) : LocksOnly P (m.objectEdges var t replacing data) :=
  walks.objectEdges var t replacing data names.here.edges names.fields
    fun id _ name value f field edge => dropEdges id (names.here.edges name value f field edge).own

end LocksOnly

end DocGraph
