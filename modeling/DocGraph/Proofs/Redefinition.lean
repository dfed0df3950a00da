import Mathlib.Data.List.Basic
import Mathlib.Data.List.Induction
import DocGraph.Codec.Schema
import DocGraph.Proofs.JsonText
import DocGraph.Proofs.Types

/-! # What a schema keeps of its definitions

A schema grows by one type at a time, and a type that is given again takes the place of the one before.
So the names of its types are the names given, in the order in which they first came
(`names_foldl_add`), and a look-up finds the last type given under a name (`type?_foldl_add`). The index
lists the names with their places (`index_foldl_add`). Names and look-ups determine the types
(`types_eq_filterMap`), which is why a schema that is built again from its own types is the same schema,
although the built-in scalars are added first each time (`ofTypes_types`), and why nothing is lost on the
way through JSON values. A text may lose something: it is read back type by type (`ofText?_text`), with the
arguments of directives as their texts are read and with a bound on nesting, so that only a schema whose parts
all come back is the same again (`ofText?_text_iff`). `Schema.representation` puts these together. -/

namespace DocGraph

namespace Schema

/-! ### One more type -/

theorem names_add (s : Schema) (t : TypeDef) :
    (s.add t).types.map TypeDef.name =
      if t.name ∈ s.types.map TypeDef.name then s.types.map TypeDef.name
      else s.types.map TypeDef.name ++ [t.name] := by
  show (addTo t s.types s.index).1.map TypeDef.name = _
  unfold addTo
  split
  · rename_i i known
    have named := (s.indexed t.name i).mp known
    rw [names_set s.indexed known, if_pos (List.mem_of_getElem? named)]
  · rename_i new
    have absent : t.name ∉ s.types.map TypeDef.name := by
      intro mem
      obtain ⟨i, named⟩ := List.mem_iff_getElem?.mp mem
      have known := (s.indexed t.name i).mpr named
      rw [new] at known
      cases known
    simp [absent]

theorem type?_add (s : Schema) (t : TypeDef) (name : String) :
    (s.add t).type? name = if name = t.name then some t else s.type? name := by
  show ((addTo t s.types s.index).2.get? name).bind (fun i => (addTo t s.types s.index).1[i]?) = _
  unfold addTo
  split
  · rename_i i known
    obtain ⟨bound, -⟩ := List.getElem?_eq_some_iff.mp ((s.indexed t.name i).mp known)
    rw [List.length_map] at bound
    by_cases same : name = t.name
    · simp [same, known, bound]
    · -- Another name has another place, which is left as it was.
      have elsewhere : ∀ j, s.index.get? name = some j → (s.types.set i t)[j]? = s.types[j]? := by
        intro j place
        refine List.getElem?_set_ne fun h => same ?_
        subst h
        have first := (s.indexed name i).mp place
        have second := (s.indexed t.name i).mp known
        exact Option.some.inj (first.symm.trans second)
      rw [if_neg same, type?]
      exact Option.bind_congr elsewhere
  · by_cases same : name = t.name
    · simp [same, Record.get?_insert]
    · have earlier : ∀ j, s.index.get? name = some j → (s.types ++ [t])[j]? = s.types[j]? := by
        intro j place
        obtain ⟨bound, -⟩ := List.getElem?_eq_some_iff.mp ((s.indexed name j).mp place)
        exact List.getElem?_append_left (by simpa using bound)
      rw [if_neg same, type?, Record.get?_insert, if_neg same]
      exact Option.bind_congr earlier

/-! ### All types given -/

theorem names_foldl_add (given : List TypeDef) :
    (given.foldl add empty).types.map TypeDef.name = (given.map TypeDef.name).eraseDups := by
  induction given using List.reverseRecOn with
  | nil => rfl
  | append_singleton given t ih =>
      rw [List.foldl_append, List.foldl_cons, List.foldl_nil, names_add, ih, List.map_append,
        List.map_singleton, List.eraseDups_append]
      generalize given.map TypeDef.name = names
      by_cases known : t.name ∈ names <;> simp [known, List.removeAll, List.eraseDups_cons]

theorem type?_foldl_add (s : Schema) (given : List TypeDef) (name : String) :
    (given.foldl add s).type? name =
      (given.reverse.find? fun t => t.name == name).or (s.type? name) := by
  induction given generalizing s with
  | nil => simp
  | cons t given ih =>
      rw [List.foldl_cons, ih, type?_add, List.reverse_cons, List.find?_append, Option.or_assoc]
      by_cases same : name = t.name
      · simp [same]
      · simp [same, Ne.symm same]

/-- A new name goes to the end of the index with the number of types before it. -/
theorem index_foldl_add (given : List TypeDef) :
    (given.foldl add empty).index = ((given.foldl add empty).types.map TypeDef.name).zipIdx := by
  induction given using List.reverseRecOn with
  | nil => rfl
  | append_singleton given t ih =>
      rw [List.foldl_append, List.foldl_cons, List.foldl_nil]
      generalize given.foldl add empty = s at ih
      show (addTo t s.types s.index).2 = ((addTo t s.types s.index).1.map TypeDef.name).zipIdx
      unfold addTo
      split
      · rename_i known
        rw [names_set s.indexed known]
        exact ih
      · rename_i new
        have absent := (Record.get?_eq_none_iff _ _).mp new
        rw [Record.insert_of_not_mem absent, ih, List.map_append, List.zipIdx_append]
        simp

theorem foldl_ofTypes (types more : List TypeDef) :
    more.foldl add (ofTypes types) = (builtinTypes ++ types ++ more).foldl add empty := by
  rw [ofTypes, builtin, List.foldl_append, List.foldl_append]

/-! ### Building a schema again -/

theorem type?_eq_none_iff {s : Schema} {name : String} :
    s.type? name = none ↔ name ∉ s.types.map TypeDef.name := by
  rw [Option.eq_none_iff_forall_ne_some, List.mem_map, not_exists]
  exact forall_congr' fun t => not_congr type?_eq_some_iff

theorem types_eq_filterMap (s : Schema) : s.types = (s.types.map TypeDef.name).filterMap s.type? := by
  have found : ∀ t ∈ s.types, s.type? t.name = some t := fun t known =>
    type?_eq_some_iff.mpr ⟨known, rfl⟩
  calc s.types
    _ = s.types.filterMap some := List.filterMap_some.symm
    _ = s.types.filterMap (s.type? ∘ TypeDef.name) :=
        List.filterMap_congr fun t known => (found t known).symm
    _ = (s.types.map TypeDef.name).filterMap s.type? := List.filterMap_map.symm

theorem eq_of_types_of_index {s s' : Schema} (types : s.types = s'.types)
    (index : s.index = s'.index) : s = s' := by
  obtain ⟨ts, ix, _⟩ := s
  obtain ⟨ts', ix', _⟩ := s'
  cases types
  cases index
  rfl

theorem eraseDups_of_nodup {names : List String} (h : names.Nodup) : names.eraseDups = names := by
  induction names with
  | nil => rfl
  | cons n names ih =>
      obtain ⟨new, distinct⟩ := List.nodup_cons.mp h
      have others : names.filter (fun m => !m == n) = names :=
        List.filter_eq_self.mpr fun m mem => by
          have ne : m ≠ n := fun same => new (same ▸ mem)
          simpa using ne
      rw [List.eraseDups_cons, others, ih distinct]

/-- The built-in scalars come first, whatever is given besides. -/
theorem builtin_names_first (given : List TypeDef) :
    builtinScalars <+: ((builtinTypes ++ given).foldl add empty).types.map TypeDef.name := by
  have builtins : (builtinTypes.map TypeDef.name).eraseDups = builtinScalars := by decide
  rw [names_foldl_add, List.map_append, List.eraseDups_append, builtins]
  exact List.prefix_append _ _

/-- Names given a second time after themselves add nothing. -/
theorem eraseDups_append_self_append (names more : List String) :
    (names ++ (names ++ more)).eraseDups = (names ++ more).eraseDups := by
  have again : (names ++ more).removeAll names = more.removeAll names := by
    simp [List.removeAll, List.filter_append]
  rw [List.eraseDups_append, again, ← List.eraseDups_append]

/-- Every type of a schema is given again under its name, and no built-in scalar is missing among them. -/
theorem type?_ofTypes_types {s : Schema} (first : builtinScalars <+: s.types.map TypeDef.name)
    (name : String) : (ofTypes s.types).type? name = s.type? name := by
  rw [ofTypes, type?_foldl_add]
  cases last : s.types.reverse.find? (fun t => t.name == name) with
  | some t =>
      have known : t ∈ s.types := List.mem_reverse.mp (List.mem_of_find?_eq_some last)
      have named : t.name = name := by simpa using List.find?_some last
      rw [Option.some_or, type?_eq_some_iff.mpr ⟨known, named⟩]
  | none =>
      have unnamed : name ∉ s.types.map TypeDef.name := by
        intro mem
        obtain ⟨t, known, named⟩ := List.mem_map.mp mem
        exact List.find?_eq_none.mp last t (List.mem_reverse.mpr known) (by simpa using named)
      have scalars : builtin.types.map TypeDef.name = builtinScalars := by decide
      have other : name ∉ builtin.types.map TypeDef.name := by
        rw [scalars]
        exact fun mem => unnamed (first.subset mem)
      rw [Option.none_or, type?_eq_none_iff.mpr other, type?_eq_none_iff.mpr unnamed]

theorem ofTypes_eq_foldl (types : List TypeDef) : ofTypes types = (builtinTypes ++ types).foldl add empty := by
  rw [ofTypes, builtin, List.foldl_append]

theorem types_ofTypes {s : Schema} (first : builtinScalars <+: s.types.map TypeDef.name) :
    (ofTypes s.types).types = s.types := by
  have names : (ofTypes s.types).types.map TypeDef.name = s.types.map TypeDef.name := by
    obtain ⟨more, split⟩ := first
    have scalars : builtinTypes.map TypeDef.name = builtinScalars := by decide
    rw [ofTypes_eq_foldl, names_foldl_add, List.map_append, scalars, ← split, eraseDups_append_self_append,
      split, eraseDups_of_nodup s.nodup_names]
  have lookups : (ofTypes s.types).type? = s.type? := funext (type?_ofTypes_types first)
  rw [types_eq_filterMap (ofTypes s.types), names, lookups, ← types_eq_filterMap s]

theorem ofTypes_types (given : List TypeDef) :
    ofTypes ((builtinTypes ++ given).foldl add empty).types = (builtinTypes ++ given).foldl add empty := by
  have types := types_ofTypes (builtin_names_first given)
  have index := index_foldl_add (builtinTypes ++ given)
  generalize (builtinTypes ++ given).foldl add empty = s at types index
  have again := index_foldl_add (builtinTypes ++ s.types)
  rw [← ofTypes_eq_foldl, types] at again
  exact eq_of_types_of_index types (again.trans index.symm)

/-- Types of different names all stay as they are given. -/
theorem types_foldl_add {given : List TypeDef} (distinct : (given.map TypeDef.name).Nodup) :
    (given.foldl add empty).types = given := by
  induction given using List.reverseRecOn with
  | nil => rfl
  | append_singleton given t ih =>
      rw [List.map_append, List.map_singleton] at distinct
      obtain ⟨before, -, apart⟩ := List.nodup_append.mp distinct
      have kept := ih before
      have new : t.name ∉ given.map TypeDef.name := fun mem => apart _ mem _ List.mem_cons_self rfl
      rw [List.foldl_append, List.foldl_cons, List.foldl_nil]
      generalize given.foldl add empty = s at kept
      show (addTo t s.types s.index).1 = _
      unfold addTo
      split
      · rename_i i known
        have named := (s.indexed t.name i).mp known
        rw [kept] at named
        exact absurd (List.mem_of_getElem? named) new
      · rw [kept]

end Schema

/-! ### Through JSON values -/

theorem Decoder.list_map {α : Type} {d : Decoder α} (toJson : α → Json)
    (h : ∀ a, d (toJson a) = some a) (as : List α) : d.list (.arr (as.map toJson)) = some as := by
  show (as.map toJson).mapM d = some as
  induction as with
  | nil => rfl
  | cons a as ih => simp [h a, ih]

theorem Decoder.text_str (s : String) : text (.str s) = some s := rfl

theorem TypeRef.ofJson?_toJson (t : TypeRef) : ofJson? t.toJson = some t := by
  induction t with
  | named name => rfl
  | list inner ih => simp [toJson, ofJson?, ih]
  | nonNull inner ih => simp [toJson, ofJson?, ih]

theorem TypeKind.ofJson?_name (k : TypeKind) : ofJson? (.str k.name) = some k := by
  cases k <;> rfl

theorem DirectiveUse.ofJson?_toJson (d : DirectiveUse) : ofJson? d.toJson = some d := by
  have arguments := Decoder.list_map (fun a : String × Json => .arr [.str a.1, a.2])
    (d := .pair .text .any) (fun _ => rfl) d.arguments
  simp [ofJson?, toJson, GivenFields.ofJson, GivenFields.required, GivenFields.defaulted,
    Record.get?_cons, Decoder.text_str, arguments]

theorem FieldDef.ofJson?_toJson (f : FieldDef) : ofJson? f.toJson = some f := by
  have directives := Decoder.list_map _ DirectiveUse.ofJson?_toJson f.directives
  simp [ofJson?, toJson, GivenFields.ofJson, GivenFields.required, GivenFields.defaulted,
    Record.get?_cons, Decoder.text_str, TypeRef.ofJson?_toJson, directives]

theorem TypeDef.ofJson?_toJson (t : TypeDef) : ofJson? t.toJson = some t := by
  have fields := Decoder.list_map _ FieldDef.ofJson?_toJson t.fields
  have texts : ∀ names, Decoder.list .text (.strs names) = some names :=
    Decoder.list_map _ Decoder.text_str
  simp [ofJson?, toJson, GivenFields.ofJson, GivenFields.required, GivenFields.defaulted,
    Record.get?_cons, Decoder.text_str, TypeKind.ofJson?_name, fields, texts]

theorem Schema.ofJson?_toJson (s : Schema) : ofJson? s.toJson = some (ofTypes s.types) := by
  rw [ofJson?, toJson, Decoder.list_map _ TypeDef.ofJson?_toJson, Option.map_some]

/-! ### Through text -/

/-- How many objects lie inside one another in the JSON of a reference. -/
def TypeRef.nesting : TypeRef → Nat
  | named _ => 1
  | list inner => inner.nesting + 1
  | nonNull inner => inner.nesting + 1

/-- The argument of a directive that is read from its text. -/
def DirectiveUse.argument? (room : Nat) (a : String × Json) : Option (String × Json) :=
  (a.2.reread? room).map (Prod.mk a.1)

/-- The directive that is read from its text. -/
def DirectiveUse.reread? (room : Nat) (d : DirectiveUse) : Option DirectiveUse :=
  (d.arguments.mapM (argument? room)).map fun arguments => { d with arguments }

/-- The field that is read from its text; its type has room for four more levels than the arguments of its
directives. -/
def FieldDef.reread? (room : Nat) (f : FieldDef) : Option FieldDef :=
  if f.type.nesting ≤ room + 4 then
    (f.directives.mapM (DirectiveUse.reread? room)).map fun directives => { f with directives }
  else none

/-- The type that is read from its text. -/
def TypeDef.reread? (room : Nat) (t : TypeDef) : Option TypeDef :=
  (t.fields.mapM (FieldDef.reread? room)).map fun fields => { t with fields }

namespace Json

variable {α : Type} {room : Nat}

theorem reread?_map {f : α → Option α} {toJson : α → Json}
    (h : ∀ a, (toJson a).reread? room = (f a).map toJson) (as : List α) :
    (arr (as.map toJson)).reread? (room + 1) = (as.mapM f).map fun bs => arr (bs.map toJson) := by
  have items : rereadItems? (as.map toJson) room = (as.mapM f).map (List.map toJson) := by
    induction as with
    | nil => rfl
    | cons a as ih =>
        rw [List.map_cons, rereadItems?, h, ih, List.mapM_cons]
        cases f a with
        | none => rfl
        | some b => cases as.mapM f <;> rfl
  rw [reread?, if_neg (Nat.succ_ne_zero room), Nat.add_sub_cancel, items, Option.map_map]
  rfl

theorem reread?_str (s : String) : (str s).reread? room = some (str s) := by
  rw [reread?]

theorem reread?_strs (names : List String) : (strs names).reread? (room + 1) = some (strs names) := by
  have kept : ∀ v ∈ names.map str, v.Kept room := by
    intro v mem
    obtain ⟨name, _, rfl⟩ := List.mem_map.mp mem
    exact .str name
  exact (reread?_eq_some_iff _ _).mpr (.arr kept)

theorem reread?_obj {fields : Record Json} (names : fields.names.Nodup) :
    (obj fields).reread? (room + 1) = (rereadFields? fields room).map obj := by
  rw [reread?, if_neg (Nat.succ_ne_zero room), Nat.add_sub_cancel]
  cases read : rereadFields? fields room with
  | none => rfl
  | some fs =>
      have same : Record.names fs = fields.names := names_rereadFields? read
      rw [Option.map_some, Option.map_some, Record.ofList_of_nodup (same ▸ names)]

theorem reread?_field (name : String) (v : Json) :
    (obj [(name, v)]).reread? (room + 1) = (v.reread? room).map fun w => obj [(name, w)] := by
  rw [reread?_obj (by simp [Record.names]), rereadFields?, rereadFields?]
  cases v.reread? room <;> rfl

end Json

theorem TypeRef.reread?_toJson (t : TypeRef) (room : Nat) :
    t.toJson.reread? room = if t.nesting ≤ room then some t.toJson else none := by
  induction t generalizing room with
  | named name =>
      cases room with
      | zero => rfl
      | succ room =>
          rw [toJson, Json.reread?_field]
          simp [nesting, Json.reread?]
  | list inner ih =>
      cases room with
      | zero => rfl
      | succ room =>
          rw [toJson, Json.reread?_field, ih]
          simp [nesting, apply_ite]
  | nonNull inner ih =>
      cases room with
      | zero => rfl
      | succ room =>
          rw [toJson, Json.reread?_field, ih]
          simp [nesting, apply_ite]

theorem DirectiveUse.reread?_toJson (room : Nat) (d : DirectiveUse) :
    d.toJson.reread? (room + 3) = (d.reread? room).map toJson := by
  have argument : ∀ a : String × Json, (Json.arr [.str a.1, a.2]).reread? (room + 1) =
      (argument? room a).map fun a => .arr [.str a.1, a.2] := by
    intro a
    cases read : a.2.reread? room <;> simp [Json.reread?, Json.rereadItems?, argument?, read]
  have arguments := Json.reread?_map argument d.arguments
  rw [toJson, Json.reread?_obj (by simp [Record.names]), reread?]
  simp only [Json.rereadFields?, arguments, Json.reread?_str]
  cases d.arguments.mapM (argument? room) <;> rfl

theorem FieldDef.reread?_toJson (room : Nat) (f : FieldDef) :
    f.toJson.reread? (room + 5) = (f.reread? room).map toJson := by
  have directives := Json.reread?_map (DirectiveUse.reread?_toJson room) f.directives
  rw [toJson, Json.reread?_obj (by simp [Record.names]), reread?]
  simp only [Json.rereadFields?, TypeRef.reread?_toJson, directives, Json.reread?_str]
  by_cases fits : f.type.nesting ≤ room + 4
  · simp only [if_pos fits]
    cases f.directives.mapM (DirectiveUse.reread? room) <;> rfl
  · simp only [if_neg fits]
    rfl

theorem TypeDef.reread?_toJson (room : Nat) (t : TypeDef) :
    t.toJson.reread? (room + 7) = (t.reread? room).map toJson := by
  have fields := Json.reread?_map (FieldDef.reread?_toJson room) t.fields
  rw [toJson, Json.reread?_obj (by simp [Record.names]), reread?]
  simp only [Json.rereadFields?, fields, Json.reread?_strs, Json.reread?_str]
  cases t.fields.mapM (FieldDef.reread? room) <;> rfl

/-- What is read from the text of a schema: each type as its own text is read. -/
theorem Schema.ofText?_text (s : Schema) :
    ofText? s.text = (s.types.mapM (TypeDef.reread? 119)).map ofTypes := by
  have read : Json.parse? s.text = _ := Json.parse?_text s.toJson
  rw [ofText?, read, toJson, Json.maxNesting, Json.reread?_map (TypeDef.reread?_toJson 119)]
  cases s.types.mapM (TypeDef.reread? 119) with
  | none => rfl
  | some ts =>
      show ofJson? (.arr (ts.map TypeDef.toJson)) = some (ofTypes ts)
      rw [ofJson?, Decoder.list_map _ TypeDef.ofJson?_toJson, Option.map_some]

/-! ### Schemas that come back -/

theorem mapM_eq_self_iff {α : Type} {f : α → Option α} {as : List α} :
    as.mapM f = some as ↔ ∀ a ∈ as, f a = some a := by
  induction as with
  | nil => simp
  | cons a as ih => simp [Option.bind_eq_some_iff, ih]

theorem DirectiveUse.reread?_eq_some_iff {room : Nat} {d : DirectiveUse} :
    d.reread? room = some d ↔ ∀ a ∈ d.arguments, a.2.Kept room := by
  have argument : ∀ a : String × Json, argument? room a = some a ↔ a.2.Kept room := by
    intro a
    rw [← Json.reread?_eq_some_iff, argument?]
    cases a.2.reread? room <;> simp [Prod.ext_iff]
  have same : d.reread? room = some d ↔ d.arguments.mapM (argument? room) = some d.arguments := by
    obtain ⟨name, arguments⟩ := d
    simp [reread?]
  rw [same, mapM_eq_self_iff]
  exact forall₂_congr fun a _ => argument a

/-- A field comes back if its type is not too deep and the arguments of its directives come back. -/
def FieldDef.Kept (room : Nat) (f : FieldDef) : Prop :=
  f.type.nesting ≤ room + 4 ∧ ∀ d ∈ f.directives, ∀ a ∈ d.arguments, a.2.Kept room

theorem FieldDef.reread?_eq_some_iff {room : Nat} {f : FieldDef} : f.reread? room = some f ↔ f.Kept room := by
  have same : f.reread? room = some f ↔ f.type.nesting ≤ room + 4 ∧
      f.directives.mapM (DirectiveUse.reread? room) = some f.directives := by
    obtain ⟨name, type, directives⟩ := f
    simp [reread?]
  rw [same, mapM_eq_self_iff]
  exact and_congr_right fun _ => forall₂_congr fun d _ => DirectiveUse.reread?_eq_some_iff

theorem TypeDef.reread?_eq_some_iff {room : Nat} {t : TypeDef} :
    t.reread? room = some t ↔ ∀ f ∈ t.fields, f.Kept room := by
  have same : t.reread? room = some t ↔ t.fields.mapM (FieldDef.reread? room) = some t.fields := by
    obtain ⟨name, kind, fields, interfaces, members, values⟩ := t
    simp [reread?]
  rw [same, mapM_eq_self_iff]
  exact forall₂_congr fun f _ => FieldDef.reread?_eq_some_iff

theorem TypeDef.names_mapM_reread? {room : Nat} {ts ts' : List TypeDef} (h : ts.mapM (reread? room) = some ts') :
    ts'.map name = ts.map name := by
  induction ts generalizing ts' with
  | nil =>
      cases h
      rfl
  | cons t ts ih =>
      rw [List.mapM_cons] at h
      obtain ⟨t', read, h⟩ := Option.bind_eq_some_iff.mp h
      obtain ⟨others, tail, h⟩ := Option.bind_eq_some_iff.mp h
      obtain ⟨fields, _, rfl⟩ := Option.map_eq_some_iff.mp read
      cases h
      rw [List.map_cons, List.map_cons, ih tail]

/-- A schema comes back from its text just if each of its types does: types of the same names make no other
schema than themselves. -/
theorem Schema.ofText?_text_iff {s : Schema} (first : builtinScalars <+: s.types.map TypeDef.name)
    (again : ofTypes s.types = s) :
    ofText? s.text = some s ↔ ∀ t ∈ s.types, ∀ f ∈ t.fields, f.Kept 119 := by
  rw [ofText?_text]
  constructor
  · intro back
    obtain ⟨ts, read, rebuilt⟩ := Option.map_eq_some_iff.mp back
    have names := TypeDef.names_mapM_reread? read
    have types : (ofTypes ts).types = ts := by
      have given : (ts.foldl add empty).types = ts := types_foldl_add (names ▸ s.nodup_names)
      generalize ts.foldl add empty = s' at given
      subst given
      exact types_ofTypes (names ▸ first)
    rw [← types, rebuilt] at read
    intro t known
    exact TypeDef.reread?_eq_some_iff.mp (mapM_eq_self_iff.mp read t known)
  · intro kept
    have read : s.types.mapM (TypeDef.reread? 119) = some s.types :=
      mapM_eq_self_iff.mpr fun t known => TypeDef.reread?_eq_some_iff.mpr (kept t known)
    rw [read, Option.map_some, again]

/-- A schema made of a list of types and of more types added to it. Names are given once in the order
in which they first came, the built-in scalars first, and the index has their places. A look-up finds
the last type given under a name, and a built-in scalar if there is none. A schema that is built again
from its own types, or from its own JSON value, is the same. From its text it is the same just if the types of
its fields and the arguments of its directives come back from theirs: eight of the 127 levels of a text lie
around an argument, and four around a type. -/
theorem Schema.representation (types more : List TypeDef) :
    let given := builtinTypes ++ types ++ more
    let s := more.foldl Schema.add (.ofTypes types)
    (s.types.map TypeDef.name).Nodup ∧
      (∀ name i, s.index.get? name = some i ↔ (s.types.map TypeDef.name)[i]? = some name) ∧
      (∀ name, s.type? name = given.reverse.find? fun t => t.name == name) ∧
      s.types.map TypeDef.name = (given.map TypeDef.name).eraseDups ∧
      builtinScalars <+: s.types.map TypeDef.name ∧
      Schema.ofTypes s.types = s ∧
      Schema.ofJson? s.toJson = some s ∧
      (Schema.ofText? s.text = some s ↔ ∀ t ∈ s.types, ∀ f ∈ t.fields,
        f.type.nesting ≤ 123 ∧ ∀ d ∈ f.directives, ∀ a ∈ d.arguments, a.2.Kept 119) := by
  intro given s
  have built : s = given.foldl Schema.add .empty := foldl_ofTypes types more
  have again : Schema.ofTypes s.types = s := by
    rw [built]
    show Schema.ofTypes ((builtinTypes ++ types ++ more).foldl add empty).types = _
    rw [List.append_assoc]
    exact ofTypes_types (types ++ more)
  have first : builtinScalars <+: s.types.map TypeDef.name := by
    rw [built]
    show builtinScalars <+: ((builtinTypes ++ types ++ more).foldl add empty).types.map TypeDef.name
    rw [List.append_assoc]
    exact builtin_names_first (types ++ more)
  refine ⟨s.nodup_names, s.indexed, fun name => ?_, ?_, first, again, ?_, ofText?_text_iff first again⟩
  · rw [built, type?_foldl_add]
    exact Option.or_none
  · rw [built, names_foldl_add]
  · rw [ofJson?_toJson, again]

/-- A type with a double as the argument of a directive. -/
def TypeDef.weighed (x : Double) : TypeDef :=
  ⟨"A", .object, [⟨"f", .named "Int", [⟨"d", [("x", .num (.double x))]⟩]⟩], [], [], []⟩

theorem Schema.types_weighed (x : Double) : (ofTypes [.weighed x]).types = builtinTypes ++ [.weighed x] := rfl

theorem TypeDef.reread?_weighed {x y : Double} (read : (Number.double x).reread? = some (.double y)) :
    (weighed x).reread? 119 = some (weighed y) := by
  simp [weighed, reread?, FieldDef.reread?, DirectiveUse.reread?, DirectiveUse.argument?, Json.reread?, read,
    TypeRef.nesting]

/-- The double 31.245270191439438 comes back from its text as 31.24527019143944, and a schema with it comes back
as another. -/
theorem Schema.text_coarsened :
    let x : Double := ⟨false, 8794761699453570, -48⟩
    let y : Double := ⟨false, 8794761699453571, -48⟩
    x.text = "31.245270191439438" ∧ y.text = "31.24527019143944" ∧
      Schema.ofText? (ofTypes [.weighed x]).text = some (ofTypes [.weighed y]) ∧
        (ofTypes [.weighed y]).types ≠ (ofTypes [.weighed x]).types := by
  intro x y
  have number : (Number.double x).reread? = some (.double y) := by decide +kernel
  have scalars : builtinTypes.mapM (TypeDef.reread? 119) = some builtinTypes := rfl
  refine ⟨by decide +kernel, by decide +kernel, ?_, ?_⟩
  · rw [ofText?_text, types_weighed, List.mapM_append, scalars]
    simp only [List.mapM_cons, List.mapM_nil, TypeDef.reread?_weighed number]
    exact congrArg some (ofTypes_types [.weighed y])
  · have other : y ≠ x := by decide
    rw [types_weighed, types_weighed]
    simpa [TypeDef.weighed] using other

end DocGraph
