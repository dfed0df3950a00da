import DocGraph.Proofs.Engines
import DocGraph.Proofs.Keys
import Mathlib.Data.List.Nodup

/-! # Names of edge collections

The collection of the edges of a field is named after the field and its type, both with their first letter in
upper case, with `EdgeFrom` between them. As long as the name of the type brings no `EdgeFrom` of its own, the
last one in the name of a collection is where the name is put together, so that both parts can be read off it.
What cannot be read off is the case of their first letters. The main statement is
`edgeCollections_nodup_iff`: different fields share a collection just if they and their types agree up to that
case. -/

namespace DocGraph

/-! ### Reading the parts off a name -/

/-- No ending of `EdgeFrom` is a beginning of it. -/
theorem not_edgeFrom_overlaps {k : Nat} (pos : 0 < k) (short : k < "EdgeFrom".toList.length) (rest : List Char) :
    ¬ "EdgeFrom".toList.drop k <+: "EdgeFrom".toList ++ rest := by
  intro starts
  have own : "EdgeFrom".toList.drop k <+: "EdgeFrom".toList :=
    List.prefix_of_prefix_length_le starts (List.prefix_append _ _) (by simp)
  have none : ∀ k < 8, 0 < k → ¬ "EdgeFrom".toList.drop k <+: "EdgeFrom".toList := by decide
  exact none k short pos own

/-- Where the part after `EdgeFrom` has none in it, the part before is no longer than that of another reading. -/
theorem length_le_of_edgeFrom_append {a a' b b' : List Char} (free : Text.occursIn "EdgeFrom".toList b = false)
    (same : a ++ ("EdgeFrom".toList ++ b) = a' ++ ("EdgeFrom".toList ++ b')) : a'.length ≤ a.length := by
  by_contra longer
  obtain ⟨d, rfl⟩ : a <+: a' :=
    List.prefix_of_prefix_length_le (List.prefix_append a _) (same ▸ List.prefix_append a' _) (by omega)
  rw [List.append_assoc, List.append_cancel_left_eq] at same
  have pos : 0 < d.length := by
    rw [List.length_append] at longer
    omega
  -- The other `EdgeFrom` starts inside this one or behind it.
  by_cases inside : d.length < "EdgeFrom".toList.length
  · have cut := congrArg (List.drop d.length) same
    rw [List.drop_append_of_le_length (Nat.le_of_lt inside), List.drop_left] at cut
    exact not_edgeFrom_overlaps pos inside b' (cut ▸ List.prefix_append _ _)
  · obtain ⟨e, rfl⟩ : "EdgeFrom".toList <+: d :=
      List.prefix_of_prefix_length_le (List.prefix_append _ b) (same ▸ List.prefix_append d _) (by omega)
    rw [List.append_assoc, List.append_cancel_left_eq] at same
    rw [same, Text.occursIn_append] at free
    cases free

theorem edgeFrom_append_inj {a a' b b' : List Char} (free : Text.occursIn "EdgeFrom".toList b = false)
    (free' : Text.occursIn "EdgeFrom".toList b' = false)
    (same : a ++ ("EdgeFrom".toList ++ b) = a' ++ ("EdgeFrom".toList ++ b')) : a = a' ∧ b = b' := by
  have lengths : a.length = a'.length :=
    Nat.le_antisymm (length_le_of_edgeFrom_append free' same.symm) (length_le_of_edgeFrom_append free same)
  obtain ⟨fields, types⟩ := List.append_inj same lengths
  exact ⟨fields, List.append_cancel_left types⟩

/-- The name of a type brings no `EdgeFrom` into the names of its edge collections. -/
def IsPlainSource (type : String) : Prop :=
  Text.contains (Text.capitalize type) "EdgeFrom" = false

instance (type : String) : Decidable (IsPlainSource type) :=
  inferInstanceAs (Decidable (_ = false))

theorem edgeCollection_eq_iff {type type' field field' : String} (plain : IsPlainSource type)
    (plain' : IsPlainSource type') :
    edgeCollection type field = edgeCollection type' field' ↔
      Text.capitalize type = Text.capitalize type' ∧ Text.capitalize field = Text.capitalize field' := by
  constructor
  · intro same
    have chars := congrArg String.toList same
    simp only [edgeCollection, String.toList_append, List.append_assoc] at chars
    obtain ⟨fields, types⟩ := edgeFrom_append_inj plain plain' chars
    exact ⟨String.toList_injective types, String.toList_injective fields⟩
  · rintro ⟨types, fields⟩
    rw [edgeCollection, edgeCollection, types, fields]

/-! ### Fields with a collection -/

namespace Schema

variable {s : Schema} {t : TypeDef} {f : FieldDef}

/-- A field of a stored type whose edges have a collection. -/
structure KeepsEdges (s : Schema) (t : TypeDef) (f : FieldDef) : Prop where
  type : t ∈ s.types
  stored : isStored t = true
  field : f ∈ t.fields
  forward : s.IsForward f

/-- Whether the edges of a field have a collection. -/
def forward (s : Schema) (f : FieldDef) : Bool :=
  !Text.startsWith f.name "_" && (s.isEdgeField f).toOption.getD false

theorem forward_iff : s.forward f = true ↔ s.IsForward f := by
  unfold forward IsForward
  rcases s.isEdgeField f with e | b <;> simp [Except.toOption]

/-- The fields of stored types whose edges have a collection, in order. -/
def edgeSites (s : Schema) : List (TypeDef × FieldDef) :=
  (s.types.filter isStored).flatMap fun t => (t.fields.filter s.forward).map fun f => (t, f)

theorem mem_edgeSites : (t, f) ∈ s.edgeSites ↔ s.KeepsEdges t f := by
  unfold edgeSites
  simp only [List.mem_flatMap, List.mem_filter, List.mem_map, Prod.mk.injEq, forward_iff]
  constructor
  · rintro ⟨t, ⟨type, stored⟩, f, ⟨field, forward⟩, rfl, rfl⟩
    exact ⟨type, stored, field, forward⟩
  · intro h
    exact ⟨t, ⟨h.type, h.stored⟩, f, ⟨h.field, h.forward⟩, rfl, rfl⟩

/-- Names that are different tell fields apart. -/
theorem nodup_edgeSites (types : (s.types.map TypeDef.name).Nodup)
    (fields : ∀ t ∈ s.types, (t.fields.map FieldDef.name).Nodup) : s.edgeSites.Nodup := by
  refine List.nodup_flatMap.mpr ⟨fun t mem => ?_, ?_⟩
  · have own := (List.Nodup.of_map _ (fields t (List.mem_filter.mp mem).1)).filter s.forward
    exact own.map fun f f' same => (Prod.mk.inj same).2
  · have stored := (List.Nodup.of_map _ types).filter isStored
    refine stored.imp fun {t t'} other => ?_
    rintro ⟨u, f⟩ mem mem'
    obtain ⟨_, _, same⟩ := List.mem_map.mp mem
    obtain ⟨_, _, same'⟩ := List.mem_map.mp mem'
    exact other ((Prod.mk.inj same).1.trans (Prod.mk.inj same').1.symm)

end Schema

theorem keepM_eq_filter {α : Type} {test : α → Except Error Bool} {l kept : List α}
    (h : keepM test l = .ok kept) : kept = l.filter fun a => (test a).toOption.getD false := by
  induction l generalizing kept with
  | nil =>
      cases h
      rfl
  | cons a l ih =>
      obtain ⟨b, tested, h⟩ := exists_of_andThen_ok h
      obtain ⟨rest, others, h⟩ := exists_of_andThen_ok h
      cases h
      rw [ih others, List.filter_cons, tested]
      rfl

namespace Schema

variable {s : Schema}

theorem edgeCollectionsOf_eq {t : TypeDef} {names : List String} (h : s.edgeCollectionsOf t = .ok names) :
    names = (t.fields.filter s.forward).map fun f => edgeCollection t.name f.name := by
  obtain ⟨kept, tested, made⟩ := exists_of_andThen_ok h
  cases made
  rw [keepM_eq_filter tested, List.filter_filter]
  exact congrArg _ (List.filter_congr fun f _ => Bool.and_comm _ _)

theorem flatten_edgeCollectionsOf (ts : List TypeDef) {lists : List (List String)}
    (each : ts.mapM s.edgeCollectionsOf = .ok lists) :
    lists.flatten = (ts.flatMap fun t => (t.fields.filter s.forward).map fun f => (t, f)).map
      fun p => edgeCollection p.1.name p.2.name := by
  induction ts generalizing lists with
  | nil =>
      cases each
      rfl
  | cons t ts ih =>
      rw [List.mapM_cons] at each
      obtain ⟨own, first, each⟩ := exists_of_andThen_ok each
      obtain ⟨rest, others, each⟩ := exists_of_andThen_ok each
      cases each
      rw [List.flatten_cons, ih others, edgeCollectionsOf_eq first, List.flatMap_cons, List.map_append,
        List.map_map]
      rfl

/-- One name for each field, in order. -/
theorem edgeCollections_eq {names : List String} (h : s.edgeCollections = .ok names) :
    names = s.edgeSites.map fun p => edgeCollection p.1.name p.2.name := by
  obtain ⟨lists, each, made⟩ := exists_of_andThen_ok h
  cases made
  exact flatten_edgeCollectionsOf _ each

end Schema

/-- Two fields of stored types have their edges in one collection just if their names, and the names of their
types, agree up to the case of the first letter. So no collection is named twice just if no two fields agree in
this way. (No stored type has a name with `EdgeFrom` in it, up to the case of its first letter.) -/
theorem edgeCollections_nodup_iff (s : Schema) (types : (s.types.map TypeDef.name).Nodup)
    (fields : ∀ t ∈ s.types, (t.fields.map FieldDef.name).Nodup) :
    (∀ t f t' f', s.KeepsEdges t f → s.KeepsEdges t' f' → IsPlainSource t.name → IsPlainSource t'.name →
      (edgeCollection t.name f.name = edgeCollection t'.name f'.name ↔
        Text.capitalize t.name = Text.capitalize t'.name ∧
          Text.capitalize f.name = Text.capitalize f'.name)) ∧
      ((∀ t f, s.KeepsEdges t f → IsPlainSource t.name) → ∀ names, s.edgeCollections = .ok names →
        (names.Nodup ↔ ∀ t f t' f', s.KeepsEdges t f → s.KeepsEdges t' f' →
          Text.capitalize t.name = Text.capitalize t'.name →
            Text.capitalize f.name = Text.capitalize f'.name → t = t' ∧ f = f')) := by
  refine ⟨fun t f t' f' _ _ plain plain' => edgeCollection_eq_iff plain plain', fun plain names listed => ?_⟩
  rw [Schema.edgeCollections_eq listed, List.nodup_map_iff_inj_on (Schema.nodup_edgeSites types fields)]
  constructor
  · intro injective t f t' f' h h' sameType sameField
    have same := (edgeCollection_eq_iff (plain t f h) (plain t' f' h')).mpr ⟨sameType, sameField⟩
    exact Prod.mk.inj (injective (t, f) (Schema.mem_edgeSites.mpr h) (t', f') (Schema.mem_edgeSites.mpr h') same)
  · rintro apart ⟨t, f⟩ mem ⟨t', f'⟩ mem' same
    have h := Schema.mem_edgeSites.mp mem
    have h' := Schema.mem_edgeSites.mp mem'
    obtain ⟨sameType, sameField⟩ := (edgeCollection_eq_iff (plain t f h) (plain t' f' h')).mp same
    obtain ⟨rfl, rfl⟩ := apart t f t' f' h h' sameType sameField
    rfl

/-- A pet, which has friends. -/
def petType : TypeDef := ⟨"Pet", .object, [⟨"friends", .list (.named "Pet"), []⟩], [], [], []⟩

/-- A keeper of pets, who has friends too. -/
def keeperType : TypeDef :=
  ⟨"keeper", .object, [⟨"friends", .list (.named "keeper"), []⟩, ⟨"pets", .list (.named "Pet"), []⟩], [], [], []⟩

/-- Pets and their keepers. -/
def petSchema : Schema := .ofTypes [petType, keeperType]

theorem edgeCollections_nodup_iff_pets :
    (∀ t ∈ petSchema.types, (t.fields.map FieldDef.name).Nodup) ∧
      edgeCollection "Pet" "friends" ≠ edgeCollection "keeper" "friends" ∧
      petSchema.edgeCollections = .ok ["FriendsEdgeFromPet", "FriendsEdgeFromKeeper", "PetsEdgeFromKeeper"] ∧
      ∀ t f t' f', petSchema.KeepsEdges t f → petSchema.KeepsEdges t' f' →
        Text.capitalize t.name = Text.capitalize t'.name →
          Text.capitalize f.name = Text.capitalize f'.name → t = t' ∧ f = f' := by
  have fields : ∀ t ∈ petSchema.types, (t.fields.map FieldDef.name).Nodup := by decide
  have plain : ∀ t ∈ petSchema.types, IsPlainSource t.name := by decide
  obtain ⟨apart, distinct⟩ := edgeCollections_nodup_iff petSchema (Schema.nodup_names_ofTypes _) fields
  have types : petSchema.types = Schema.builtin.types ++ [petType, keeperType] := rfl
  have pet : petSchema.KeepsEdges petType _ := ⟨by simp [types], rfl, List.mem_cons_self, rfl, rfl⟩
  have keeper : petSchema.KeepsEdges keeperType _ := ⟨by simp [types], rfl, List.mem_cons_self, rfl, rfl⟩
  have listed : petSchema.edgeCollections =
      .ok ["FriendsEdgeFromPet", "FriendsEdgeFromKeeper", "PetsEdgeFromKeeper"] := by rfl
  refine ⟨fields, fun same => ?_, listed, ?_⟩
  · have agree := (apart _ _ _ _ pet keeper (plain _ pet.type) (plain _ keeper.type)).mp same
    exact absurd agree.1 (by decide)
  · exact (distinct (fun t f h => plain t h.type) _ listed).mp (by decide)

/-- Fields whose names differ in the case of the first letter. -/
def homonyms : Schema := .ofTypes [
  ⟨"Person", .object, [⟨"knows", .list (.named "Person"), []⟩, ⟨"Knows", .list (.named "Person"), []⟩], [], [], []⟩]

/-- A type whose name starts like the middle of the names of edge collections, but for the case. -/
def splices : Schema := .ofTypes [
  ⟨"X", .object, [⟨"aEdgeFrom", .list (.named "X"), []⟩], [], [], []⟩,
  ⟨"edgeFromX", .object, [⟨"a", .list (.named "X"), []⟩], [], [], []⟩]

/-- The case of first letters is lost, and with it an `EdgeFrom` may come up in the name of a type: then different
fields have their edges in one collection. -/
theorem edgeCollections_repeat :
    ((homonyms.types.map TypeDef.name).Nodup ∧ (∀ t ∈ homonyms.types, (t.fields.map FieldDef.name).Nodup) ∧
        homonyms.edgeCollections = .ok ["KnowsEdgeFromPerson", "KnowsEdgeFromPerson"]) ∧
      (splices.types.map TypeDef.name).Nodup ∧ (∀ t ∈ splices.types, (t.fields.map FieldDef.name).Nodup) ∧
        splices.edgeCollections = .ok ["AEdgeFromEdgeFromX", "AEdgeFromEdgeFromX"] := by
  refine ⟨⟨by decide, by decide, ?_⟩, by decide, by decide, ?_⟩
  · rfl
  · rfl

end DocGraph
