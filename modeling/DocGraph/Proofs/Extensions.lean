import Mathlib.Data.List.Induction
import Mathlib.Data.List.Nodup
import DocGraph.Proofs.Outcome
import DocGraph.Sdl.Merge

/-! # Merging of extensions

The declarations of a schema text are taken in one after another, and each may be refused. Whether all of
them are taken can be said without the order of events: no name is defined twice, and every extension
comes after a definition of its name and kind and brings only fields that no earlier declaration of the
name has (`Mergeable`). The types that result are the definitions in order, each with the content of its
extensions behind its own (`merged`). Main statement: declarations are taken exactly if they are
mergeable, and then with these types (`mergeAll_exact`).

The proof goes along the text from its beginning. `mergeable_concat`, `merged_concat_definition` and
`merged_concat_extension` say what one more declaration means for either side, and `merge_eq_ok_iff` says
what the step to it does. -/

namespace DocGraph.Sdl

/-! ### What declarations say together -/

/-- The types that declarations define, without their extensions. -/
def defined (ds : List Declaration) : List TypeDef :=
  (ds.filter fun d => !d.extending).map Declaration.type

/-- The extensions of the type of a name, in order. -/
def extensionsOf (name : String) (ds : List Declaration) : List TypeDef :=
  (ds.filter fun d => d.extending && d.type.name == name).map Declaration.type

/-- A type with the content of extensions behind its own. -/
def extendedBy (t : TypeDef) (extensions : List TypeDef) : TypeDef :=
  match t.kind with
  | .object | .interface | .input =>
    { t with
      fields := t.fields ++ extensions.flatMap TypeDef.fields
      interfaces := t.interfaces ++ extensions.flatMap TypeDef.interfaces }
  | .union => { t with members := t.members ++ extensions.flatMap TypeDef.members }
  | .enumeration => { t with values := t.values ++ extensions.flatMap TypeDef.values }
  | .scalar => t

/-- The types of declarations: each definition with its extensions. -/
def merged (ds : List Declaration) : List TypeDef :=
  (defined ds).map fun t => extendedBy t (extensionsOf t.name ds)

/-- An extension may follow earlier declarations: one of them defines a type of its name and kind, and
none of its fields is repeated, in itself or among the earlier declarations of the name. -/
structure MayFollow (earlier : List Declaration) (t : TypeDef) : Prop where
  base : ∃ d ∈ earlier, d.extending = false ∧ d.type.name = t.name ∧ d.type.kind = t.kind
  once : (t.fields.map FieldDef.name).Nodup
  new : ∀ d ∈ earlier, d.type.name = t.name → ∀ f ∈ t.fields, f.name ∉ d.type.fields.map FieldDef.name

/-- Declarations that fit together. -/
structure Mergeable (ds : List Declaration) : Prop where
  /-- No name is defined twice. -/
  once : ((defined ds).map TypeDef.name).Nodup
  /-- Every extension may follow what comes before it. -/
  extends_earlier : ∀ earlier d later, ds = earlier ++ d :: later → d.extending = true →
    MayFollow earlier d.type

/-! ### One extension -/

/-- Only objects, interfaces and inputs have fields. -/
def HasProperFields (t : TypeDef) : Prop :=
  t.kind = .scalar ∨ t.kind = .enumeration ∨ t.kind = .union → t.fields = []

/-- Fields that are new, to what is known and among each other. -/
def Fresh (known fs : List FieldDef) : Prop :=
  (fs.map FieldDef.name).Nodup ∧ ∀ f ∈ fs, f.name ∉ known.map FieldDef.name

theorem fresh_cons {known fs : List FieldDef} {f : FieldDef} (new : f.name ∉ known.map FieldDef.name) :
    Fresh known (f :: fs) ↔ Fresh (known ++ [f]) fs := by
  unfold Fresh
  rw [List.map_cons, List.nodup_cons, List.forall_mem_cons, List.map_append, List.map_singleton]
  constructor
  · rintro ⟨⟨first, distinct⟩, _, others⟩
    refine ⟨distinct, fun g mem old => ?_⟩
    rcases List.mem_append.mp old with old | old
    · exact others g mem old
    · exact first (List.mem_map.mpr ⟨g, mem, List.mem_singleton.mp old⟩)
  · rintro ⟨distinct, others⟩
    refine ⟨⟨fun mem => ?_, distinct⟩, new, fun g mem old => others g mem (List.mem_append_left _ old)⟩
    obtain ⟨g, mem, same⟩ := List.mem_map.mp mem
    exact others g mem (List.mem_append_right _ (List.mem_singleton.mpr same))

theorem isSome_field?_iff {t : TypeDef} {name : String} :
    (t.field? name).isSome = true ↔ name ∈ t.fields.map FieldDef.name := by
  simp [TypeDef.field?, List.find?_isSome]

theorem addFields_eq_ok_iff {base t : TypeDef} {fs : List FieldDef} :
    addFields base fs = .ok t ↔
      Fresh base.fields fs ∧ t = { base with fields := base.fields ++ fs } := by
  induction fs generalizing base with
  | nil => simp [addFields, Fresh, eq_comm]
  | cons f fs ih =>
      rw [addFields]
      by_cases known : f.name ∈ base.fields.map FieldDef.name
      · rw [if_pos (isSome_field?_iff.mpr known)]
        constructor
        · intro h
          cases h
        · rintro ⟨fresh, _⟩
          exact absurd known (fresh.2 f List.mem_cons_self)
      · rw [if_neg (mt isSome_field?_iff.mp known), ih, ← fresh_cons known]
        simp

theorem extendType_eq_ok_iff {base e t : TypeDef} (proper : HasProperFields e) :
    extendType base e = .ok t ↔
      base.kind = e.kind ∧ Fresh base.fields e.fields ∧ t = extendedBy base [e] := by
  unfold extendType
  by_cases same : base.kind = e.kind
  · have unchanged : (base.kind != e.kind) = false := by simp [same]
    -- A kind without fields has nothing to check.
    have nothing : e.fields = [] → Fresh base.fields e.fields := by
      intro none
      simp [Fresh, none]
    rw [if_neg (by simp [unchanged])]
    simp only [same, true_and]
    unfold extendedBy
    cases kind : e.kind with
    | object | interface | input =>
        rw [same, kind]
        constructor
        · intro h
          obtain ⟨merged, added, h⟩ := exists_of_andThen_ok h
          obtain ⟨fresh, rfl⟩ := addFields_eq_ok_iff.mp added
          cases h
          exact ⟨fresh, by simp [same, kind]⟩
        · rintro ⟨fresh, rfl⟩
          rw [addFields_eq_ok_iff.mpr ⟨fresh, rfl⟩]
          simp [same, kind, bind, Except.bind, pure, Except.pure]
    | union | enumeration | scalar =>
        rw [same, kind]
        have fresh := nothing (proper (by simp [kind]))
        simp [fresh, eq_comm]
  · rw [if_pos (by simpa using same)]
    simp [same]

@[simp] theorem name_extendedBy (t : TypeDef) (es : List TypeDef) : (extendedBy t es).name = t.name := by
  unfold extendedBy
  split <;> rfl

@[simp] theorem kind_extendedBy (t : TypeDef) (es : List TypeDef) : (extendedBy t es).kind = t.kind := by
  unfold extendedBy
  split <;> rfl

theorem extendedBy_nil (t : TypeDef) : extendedBy t [] = t := by
  unfold extendedBy
  split <;> simp

theorem extendedBy_concat (t e : TypeDef) (es : List TypeDef) :
    extendedBy t (es ++ [e]) = extendedBy (extendedBy t es) [e] := by
  obtain ⟨name, kind, fields, interfaces, members, values⟩ := t
  cases kind <;> simp [extendedBy]

/-- An extension goes to the type of its name, if that has its kind and none of its fields. -/
theorem extendIn_eq_ok_iff {e : TypeDef} (proper : HasProperFields e) {types r : List TypeDef}
    (distinct : (types.map TypeDef.name).Nodup) :
    extendIn e types = .ok r ↔
      (∃ base ∈ types, base.name = e.name ∧ base.kind = e.kind ∧ Fresh base.fields e.fields) ∧
        r = types.map fun t => if t.name = e.name then extendedBy t [e] else t := by
  induction types generalizing r with
  | nil => simp [extendIn]
  | cons t rest ih =>
      obtain ⟨first, distinct⟩ := List.nodup_cons.mp distinct
      rw [extendIn]
      by_cases same : t.name = e.name
      · have elsewhere : ∀ u ∈ rest, u.name ≠ e.name := fun u mem named =>
          first (List.mem_map.mpr ⟨u, mem, named.trans same.symm⟩)
        have others : rest.map (fun u => if u.name = e.name then extendedBy u [e] else u) = rest := by
          refine (List.map_congr_left fun u mem => ?_).trans (List.map_id rest)
          rw [if_neg (elsewhere u mem), id]
        rw [if_pos (by simpa using same), List.map_cons, others, if_pos same]
        constructor
        · intro h
          obtain ⟨u, extended, rfl⟩ := exists_of_map_ok h
          obtain ⟨kind, fresh, rfl⟩ := (extendType_eq_ok_iff proper).mp extended
          exact ⟨⟨t, List.mem_cons_self, same, kind, fresh⟩, rfl⟩
        · rintro ⟨⟨base, mem, named, kind, fresh⟩, rfl⟩
          obtain rfl : base = t := by
            rcases List.mem_cons.mp mem with here | there
            · exact here
            · exact absurd named (elsewhere base there)
          rw [(extendType_eq_ok_iff proper).mpr ⟨kind, fresh, rfl⟩]
          rfl
      · rw [if_neg (by simpa using same), List.map_cons, if_neg same]
        constructor
        · intro h
          obtain ⟨others, extended, rfl⟩ := exists_of_map_ok h
          obtain ⟨⟨base, mem, found⟩, rfl⟩ := (ih distinct).mp extended
          exact ⟨⟨base, List.mem_cons_of_mem t mem, found⟩, rfl⟩
        · rintro ⟨⟨base, mem, named, found⟩, rfl⟩
          have there : base ∈ rest := by
            rcases List.mem_cons.mp mem with rfl | there
            · exact absurd named same
            · exact there
          rw [(ih distinct).mpr ⟨⟨base, there, named, found⟩, rfl⟩]
          rfl

/-! ### One more declaration -/

theorem mem_defined {ds : List Declaration} {t : TypeDef} :
    t ∈ defined ds ↔ ∃ d ∈ ds, d.extending = false ∧ d.type = t := by
  simp [defined, and_assoc]

theorem mem_extensionsOf {ds : List Declaration} {name : String} {t : TypeDef} :
    t ∈ extensionsOf name ds ↔ ∃ d ∈ ds, d.extending = true ∧ d.type.name = name ∧ d.type = t := by
  simp [extensionsOf, and_assoc]

theorem defined_concat (ds : List Declaration) (d : Declaration) :
    defined (ds ++ [d]) = defined ds ++ if d.extending then [] else [d.type] := by
  cases h : d.extending <;> simp [defined, h]

theorem extensionsOf_concat (name : String) (ds : List Declaration) (d : Declaration) :
    extensionsOf name (ds ++ [d]) =
      extensionsOf name ds ++ if d.extending = true ∧ d.type.name = name then [d.type] else [] := by
  by_cases h : d.extending = true ∧ d.type.name = name
  · simp [extensionsOf, h]
  · rw [if_neg h]
    simp [extensionsOf, List.filter_append, h]

theorem names_merged (ds : List Declaration) :
    (merged ds).map TypeDef.name = (defined ds).map TypeDef.name := by
  simp [merged]

theorem merged_concat_definition {ds : List Declaration} {d : Declaration} (h : d.extending = false) :
    merged (ds ++ [d]) = merged ds ++ [extendedBy d.type (extensionsOf d.type.name ds)] := by
  simp [merged, defined_concat, extensionsOf_concat, h]

theorem merged_concat_extension {ds : List Declaration} {d : Declaration} (h : d.extending = true) :
    merged (ds ++ [d]) =
      (merged ds).map fun t => if t.name = d.type.name then extendedBy t [d.type] else t := by
  simp only [merged, defined_concat, extensionsOf_concat, h, if_true, List.append_nil, true_and,
    List.map_map]
  refine List.map_congr_left fun t _ => ?_
  by_cases same : t.name = d.type.name
  · simp [same, extendedBy_concat]
  · simp [same, Ne.symm same]

theorem mergeable_nil : Mergeable [] where
  once := List.nodup_nil
  extends_earlier earlier d later h := by simp at h

theorem mergeable_concat {ds : List Declaration} {d : Declaration} :
    Mergeable (ds ++ [d]) ↔ Mergeable ds ∧
      if d.extending then MayFollow ds d.type else d.type.name ∉ (defined ds).map TypeDef.name := by
  constructor
  · rintro ⟨once, earlier⟩
    rw [defined_concat, List.map_append, List.nodup_append] at once
    refine ⟨⟨once.1, fun before e after split extending => ?_⟩, ?_⟩
    · exact earlier before e (after ++ [d]) (by simp [split]) extending
    · split
      · rename_i extending
        exact earlier ds d [] rfl extending
      · rename_i defining
        exact fun old => once.2.2 _ old d.type.name (by simp [defining]) rfl
  · rintro ⟨⟨once, earlier⟩, last⟩
    refine ⟨?_, fun before e after split extending => ?_⟩
    · rw [defined_concat, List.map_append, List.nodup_append]
      split at last
      · simp [*]
      · rename_i defining
        refine ⟨once, by simp [defining], fun a old b new => ?_⟩
        rintro rfl
        rw [if_neg defining, List.map_singleton, List.mem_singleton] at new
        exact last (new ▸ old)
    · rcases List.eq_nil_or_concat after with rfl | ⟨between, final, rfl⟩
      · obtain ⟨rfl, same⟩ := List.append_inj' split rfl
        cases same
        rwa [if_pos extending] at last
      · rw [List.concat_eq_append, ← List.cons_append, ← List.append_assoc] at split
        obtain ⟨split, -⟩ := List.append_inj' split rfl
        exact earlier before e between split extending

/-! ### Fields of merged types -/

/-- The fields of a type with its extensions are those of all declarations of its name. -/
theorem mem_fields_extendedBy {ds : List Declaration} {t : TypeDef} {f : FieldDef}
    (once : ((defined ds).map TypeDef.name).Nodup) (known : t ∈ defined ds)
    (kind : ¬ (t.kind = .scalar ∨ t.kind = .enumeration ∨ t.kind = .union)) :
    f ∈ (extendedBy t (extensionsOf t.name ds)).fields ↔
      ∃ d ∈ ds, d.type.name = t.name ∧ f ∈ d.type.fields := by
  have fields : (extendedBy t (extensionsOf t.name ds)).fields =
      t.fields ++ (extensionsOf t.name ds).flatMap TypeDef.fields := by
    unfold extendedBy
    split <;> simp_all
  rw [fields, List.mem_append, List.mem_flatMap]
  constructor
  · rintro (own | ⟨e, extension, added⟩)
    · obtain ⟨d, mem, _, rfl⟩ := mem_defined.mp known
      exact ⟨d, mem, rfl, own⟩
    · obtain ⟨d, mem, _, named, rfl⟩ := mem_extensionsOf.mp extension
      exact ⟨d, mem, named, added⟩
  · rintro ⟨d, mem, named, held⟩
    cases extending : d.extending with
    | true => exact .inr ⟨d.type, mem_extensionsOf.mpr ⟨d, mem, extending, named, rfl⟩, held⟩
    | false =>
        have definition := mem_defined.mpr ⟨d, mem, extending, rfl⟩
        have same : d.type = t := List.inj_on_of_nodup_map once definition known named
        exact .inl (same ▸ held)

theorem mayFollow_iff {ds : List Declaration} {e : TypeDef} (proper : HasProperFields e)
    (once : ((defined ds).map TypeDef.name).Nodup) :
    MayFollow ds e ↔
      ∃ base ∈ merged ds, base.name = e.name ∧ base.kind = e.kind ∧ Fresh base.fields e.fields := by
  by_cases bare : e.kind = .scalar ∨ e.kind = .enumeration ∨ e.kind = .union
  · have none := proper bare
    constructor
    · rintro ⟨⟨d, mem, defining, named, kind⟩, _, _⟩
      have known := mem_defined.mpr ⟨d, mem, defining, rfl⟩
      exact ⟨_, List.mem_map_of_mem known, by simpa using named, by simpa using kind, by simp [Fresh, none]⟩
    · rintro ⟨base, among, named, kind, _⟩
      obtain ⟨t, known, rfl⟩ := List.mem_map.mp among
      obtain ⟨d, mem, defining, rfl⟩ := mem_defined.mp known
      exact ⟨⟨d, mem, defining, by simpa using named, by simpa using kind⟩, by simp [none], by simp [none]⟩
  · constructor
    · rintro ⟨⟨d, mem, defining, named, kind⟩, distinct, new⟩
      have known := mem_defined.mpr ⟨d, mem, defining, rfl⟩
      refine ⟨_, List.mem_map_of_mem known, by simpa using named, by simpa using kind, distinct, ?_⟩
      intro f held old
      obtain ⟨g, among, same⟩ := List.mem_map.mp old
      obtain ⟨d', mem', named', held'⟩ := (mem_fields_extendedBy once known (kind ▸ bare)).mp among
      exact new d' mem' (named'.trans named) f held (List.mem_map.mpr ⟨g, held', same⟩)
    · rintro ⟨base, among, named, kind, distinct, new⟩
      obtain ⟨t, known, rfl⟩ := List.mem_map.mp among
      rw [name_extendedBy] at named
      rw [kind_extendedBy] at kind
      obtain ⟨d, mem, defining, rfl⟩ := mem_defined.mp known
      refine ⟨⟨d, mem, defining, named, kind⟩, distinct, fun d' mem' named' f held old => ?_⟩
      obtain ⟨g, held', same⟩ := List.mem_map.mp old
      have among := (mem_fields_extendedBy once known (kind ▸ bare)).mpr
        ⟨d', mem', named'.trans named.symm, held'⟩
      exact new f held (List.mem_map.mpr ⟨g, among, same⟩)

/-! ### All declarations -/

/-- Nothing extends a type before its definition. -/
theorem Mergeable.extensionsOf_eq_nil {ds : List Declaration} (h : Mergeable ds) {name : String}
    (undefined : name ∉ (defined ds).map TypeDef.name) : extensionsOf name ds = [] := by
  refine List.eq_nil_iff_forall_not_mem.mpr fun t extension => undefined ?_
  obtain ⟨d, mem, extending, named, rfl⟩ := mem_extensionsOf.mp extension
  obtain ⟨earlier, later, split⟩ := List.append_of_mem mem
  obtain ⟨b, before, defining, same, _⟩ := (h.extends_earlier earlier d later split extending).base
  have known : b ∈ ds := by
    rw [split]
    exact List.mem_append_left _ before
  exact List.mem_map.mpr ⟨b.type, mem_defined.mpr ⟨b, known, defining, rfl⟩, same.trans named⟩

/-- What the step to one more declaration does, after declarations that are mergeable. -/
theorem merge_eq_ok_iff {ds : List Declaration} {d : Declaration} {r : List TypeDef} (h : Mergeable ds)
    (proper : HasProperFields d.type) :
    merge (merged ds) d = .ok r ↔ Mergeable (ds ++ [d]) ∧ r = merged (ds ++ [d]) := by
  rw [mergeable_concat, and_iff_right h]
  unfold merge
  cases extending : d.extending with
  | true =>
      rw [if_pos rfl, if_pos rfl, merged_concat_extension extending, mayFollow_iff proper h.once]
      exact extendIn_eq_ok_iff proper (names_merged ds ▸ h.once)
  | false =>
      have known : ((merged ds).any fun t => t.name == d.type.name) = true ↔
          d.type.name ∈ (defined ds).map TypeDef.name := by
        rw [← names_merged]
        simp
      rw [if_neg Bool.false_ne_true, if_neg Bool.false_ne_true, merged_concat_definition extending]
      by_cases old : d.type.name ∈ (defined ds).map TypeDef.name
      · rw [if_pos (known.mpr old)]
        simp [old]
      · rw [if_neg (mt known.mp old), h.extensionsOf_eq_nil old, extendedBy_nil]
        simp [old, eq_comm]

theorem mergeAll_eq_ok_iff {ds : List Declaration} (proper : ∀ d ∈ ds, HasProperFields d.type)
    {r : List TypeDef} : mergeAll ds = .ok r ↔ Mergeable ds ∧ r = merged ds := by
  induction ds using List.reverseRecOn generalizing r with
  | nil =>
      have none : merged [] = [] := rfl
      simp [mergeAll, mergeable_nil, none, pure, Except.pure, eq_comm]
  | append_singleton ds d ih =>
      have before := fun {r} => ih (r := r) fun d mem => proper d (List.mem_append_left _ mem)
      have own := proper d (List.mem_append_right _ (List.mem_singleton.mpr rfl))
      have step : mergeAll (ds ++ [d]) = mergeAll ds >>= fun types => merge types d := by
        simp [mergeAll, List.foldlM_append]
      rw [step]
      constructor
      · intro h
        obtain ⟨types, done, last⟩ := exists_of_andThen_ok h
        obtain ⟨mergeable, rfl⟩ := before.mp done
        exact (merge_eq_ok_iff mergeable own).mp last
      · intro h
        have mergeable := (mergeable_concat.mp h.1).1
        rw [before.mpr ⟨mergeable, rfl⟩]
        exact (merge_eq_ok_iff mergeable own).mpr h

theorem TypeDefinition.hasProperFields (d : TypeDefinition) : HasProperFields d.toType := by
  unfold HasProperFields toType
  cases d.body <;> simp [TypeDef.empty]

/-- The type definitions of a schema text are taken exactly if no name is defined twice and every
extension may follow what comes before it. The types are then the definitions in order, with different
names, each with the content of its extensions behind its own. -/
theorem mergeAll_exact (definitions : List Definition) :
    let ds := definitions.filterMap Definition.declaration?
    ((∃ types, mergeAll ds = .ok types) ↔ Mergeable ds) ∧
      ∀ types, mergeAll ds = .ok types → types = merged ds ∧ (types.map TypeDef.name).Nodup := by
  intro ds
  have proper : ∀ d ∈ ds, HasProperFields d.type := by
    intro d mem
    obtain ⟨definition, _, declared⟩ := List.mem_filterMap.mp mem
    cases definition with
    | type written =>
        cases declared
        exact written.hasProperFields
    | operations block => cases declared
    | directive parameters => cases declared
  refine ⟨⟨?_, ?_⟩, ?_⟩
  · rintro ⟨types, done⟩
    exact ((mergeAll_eq_ok_iff proper).mp done).1
  · intro mergeable
    exact ⟨merged ds, (mergeAll_eq_ok_iff proper).mpr ⟨mergeable, rfl⟩⟩
  · intro types done
    obtain ⟨mergeable, rfl⟩ := (mergeAll_eq_ok_iff proper).mp done
    exact ⟨rfl, names_merged ds ▸ mergeable.once⟩

/-- An enumeration and an object type, and later an extension of each. -/
def colours : List Definition :=
  [.type ⟨false, "Colour", [], .enumeration [("RED", [])]⟩,
    .directive [],
    .type ⟨false, "Wall", [], .object [] [⟨"colour", [], .named "Colour", []⟩]⟩,
    .type ⟨true, "Wall", [], .object ["Painted"] [⟨"height", [], .named "Int", []⟩]⟩,
    .type ⟨true, "Colour", [], .enumeration [("BLUE", [])]⟩]

theorem mergeAll_exact_colours :
    ∃ types, mergeAll (colours.filterMap Definition.declaration?) = .ok types ∧
      Mergeable (colours.filterMap Definition.declaration?) ∧
      types = merged (colours.filterMap Definition.declaration?) ∧
      types.map TypeDef.name = ["Colour", "Wall"] ∧
      types.map TypeDef.values = [["RED", "BLUE"], []] ∧
      types.map TypeDef.interfaces = [[], ["Painted"]] ∧
      types.map (fun t => t.fields.map FieldDef.name) = [[], ["colour", "height"]] := by
  have done : mergeAll (colours.filterMap Definition.declaration?) =
      .ok (merged (colours.filterMap Definition.declaration?)) := rfl
  obtain ⟨taken, result⟩ := mergeAll_exact colours
  exact ⟨_, done, taken.mp ⟨_, done⟩, (result _ done).1, rfl, rfl, rfl, rfl⟩

end DocGraph.Sdl
