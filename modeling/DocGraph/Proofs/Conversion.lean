import DocGraph.Proofs.Endpoints

/-! # Input and JSON

Input is JSON with variables, so a JSON value without repeated names becomes input and comes back as it
was, with its fields in order (`literal_ofJson`). The other way round, an input value is a literal unless
it mentions a variable somewhere (`error_literal_iff`), and the literal becomes the same input again
(`ofJson_of_literal`). Both ways the fields of an object are set one after another, where a repeated name
would keep its first place and its last value; that none is repeated is what setting and taking out
fields preserve at every depth (`Built.distinct`). `Input.literal_inverse` puts these together. -/

namespace DocGraph

/-- No object in a JSON value repeats a name. -/
inductive Json.Distinct : Json → Prop
  | null : Distinct .null
  | bool (b : Bool) : Distinct (.bool b)
  | num (n : Number) : Distinct (.num n)
  | str (s : String) : Distinct (.str s)
  | arr {items : List Json} (each : ∀ v ∈ items, Distinct v) : Distinct (.arr items)
  | obj {fields : Record Json} (names : fields.names.Nodup) (each : ∀ e ∈ fields, Distinct e.2) :
      Distinct (.obj fields)

namespace Input

/-- Input values whose objects are made from the empty one by setting and taking out fields. -/
inductive Built : Input → Prop
  | null : Built null
  | bool (b : Bool) : Built (bool b)
  | num (n : Number) : Built (num n)
  | str (s : String) : Built (str s)
  | var (name : String) : Built (var name)
  | list {items : List Input} (each : ∀ v ∈ items, Built v) : Built (list items)
  | empty : Built (obj [])
  | insert {o : InputObject} {v : Input} (name : String) (object : Built (obj o)) (value : Built v) :
      Built (obj (o.insert name v))
  | erase {o : InputObject} (name : String) (object : Built (obj o)) : Built (obj (o.erase name))

/-- A variable occurs in an input value, at any depth. -/
inductive Mentions (name : String) : Input → Prop
  | var : Mentions name (var name)
  | item {items : List Input} {v : Input} (mem : v ∈ items) (mentions : Mentions name v) :
      Mentions name (list items)
  | field {fields : List (String × Input)} {e : String × Input} (mem : e ∈ fields)
      (mentions : Mentions name e.2) : Mentions name (obj fields)

/-! ### Names in objects -/

/-- No object in an input value repeats a name. -/
inductive Distinct : Input → Prop
  | null : Distinct null
  | bool (b : Bool) : Distinct (bool b)
  | num (n : Number) : Distinct (num n)
  | str (s : String) : Distinct (str s)
  | var (name : String) : Distinct (var name)
  | list {items : List Input} (each : ∀ v ∈ items, Distinct v) : Distinct (list items)
  | obj {fields : InputObject} (names : fields.names.Nodup) (each : ∀ e ∈ fields, Distinct e.2) :
      Distinct (obj fields)

theorem Built.distinct {u : Input} (h : u.Built) : u.Distinct := by
  induction h with
  | null => exact .null
  | bool b => exact .bool b
  | num n => exact .num n
  | str s => exact .str s
  | var name => exact .var name
  | list _ ih => exact .list ih
  | empty => exact .obj List.nodup_nil fun e mem => absurd mem List.not_mem_nil
  | insert name _ _ object value =>
      cases object with
      | obj names each =>
          refine .obj (Record.nodup_insert names name _) fun e mem => ?_
          rcases Record.eq_or_mem_of_mem_insert mem with rfl | mem
          · exact value
          · exact each e mem
  | @erase o name _ object =>
      cases object with
      | obj names each =>
          have kept := Record.erase_sublist o name
          exact .obj (names.sublist (kept.map Prod.fst)) fun e mem => each e (kept.subset mem)

theorem Built.ofList {entries : List (String × Input)} (each : ∀ e ∈ entries, e.2.Built) :
    (obj (Record.ofList entries)).Built := by
  have all : ∀ o : InputObject, (obj o).Built → (obj (o.insertAll entries)).Built := by
    induction entries with
    | nil => exact fun o object => object
    | cons e rest ih =>
        intro o object
        have next := Built.insert e.1 object (each e List.mem_cons_self)
        exact ih (fun e mem => each e (List.mem_cons_of_mem _ mem)) _ next
  exact all [] .empty

mutual

theorem built_ofJson : (v : Json) → (ofJson v).Built
  | .null => .null
  | .bool b => .bool b
  | .num n => .num n
  | .str s => .str s
  | .arr items => .list (built_ofJsonItems items)
  | .obj fields => .ofList (built_ofJsonFields fields)

theorem built_ofJsonItems : (items : List Json) → ∀ v ∈ ofJsonItems items, v.Built
  | [] => fun _ mem => absurd mem List.not_mem_nil
  | v :: rest => List.forall_mem_cons.mpr ⟨built_ofJson v, built_ofJsonItems rest⟩

theorem built_ofJsonFields : (fields : List (String × Json)) → ∀ e ∈ ofJsonFields fields, e.2.Built
  | [] => fun _ mem => absurd mem List.not_mem_nil
  | (_, v) :: rest => List.forall_mem_cons.mpr ⟨built_ofJson v, built_ofJsonFields rest⟩

end

/-! ### From JSON and back -/

theorem names_ofJsonFields (fields : Record Json) : Record.names (ofJsonFields fields) = fields.names := by
  induction fields with
  | nil => rfl
  | cons e rest ih =>
      obtain ⟨name, v⟩ := e
      exact congrArg (name :: ·) ih

theorem literalItems_ofJsonItems {items : List Json} (each : ∀ v ∈ items, (ofJson v).literal = .ok v) :
    literalItems (ofJsonItems items) = .ok items := by
  induction items with
  | nil => rfl
  | cons v rest ih =>
      obtain ⟨first, others⟩ := List.forall_mem_cons.mp each
      rw [ofJsonItems, literalItems, first, ih others]
      rfl

theorem literalFields_ofJsonFields {fields : Record Json}
    (each : ∀ e ∈ fields, (ofJson e.2).literal = .ok e.2) :
    literalFields (ofJsonFields fields) = .ok fields := by
  induction fields with
  | nil => rfl
  | cons e rest ih =>
      obtain ⟨name, v⟩ := e
      obtain ⟨first, others⟩ := List.forall_mem_cons.mp each
      rw [ofJsonFields, literalFields, first, ih others]
      rfl

theorem literal_ofJson {v : Json} (h : v.Distinct) : (ofJson v).literal = .ok v := by
  induction h with
  | null | bool | num | str => rfl
  | arr _ ih => rw [ofJson, literal, literalItems_ofJsonItems ih, Except.map]
  | @obj fields names _ ih =>
      have collected : Record.ofList (ofJsonFields fields) = ofJsonFields fields :=
        Record.ofList_of_nodup (by rw [names_ofJsonFields]; exact names)
      rw [ofJson, collected, literal, literalFields_ofJsonFields ih, Except.map]

/-! ### To JSON and back -/

theorem ofJsonItems_of_literalItems {items : List Input} {values : List Json}
    (each : ∀ u ∈ items, ∀ v, u.literal = .ok v → v.Distinct ∧ ofJson v = u)
    (read : literalItems items = .ok values) : (∀ v ∈ values, v.Distinct) ∧ ofJsonItems values = items := by
  induction items generalizing values with
  | nil =>
      cases read
      exact ⟨fun v mem => absurd mem List.not_mem_nil, rfl⟩
  | cons u rest ih =>
      obtain ⟨first, others⟩ := List.forall_mem_cons.mp each
      rw [literalItems] at read
      obtain ⟨v, value, read⟩ := exists_of_andThen_ok read
      obtain ⟨values, remaining, read⟩ := exists_of_andThen_ok read
      cases read
      obtain ⟨distinct, same⟩ := first v value
      obtain ⟨distinct', same'⟩ := ih others remaining
      exact ⟨List.forall_mem_cons.mpr ⟨distinct, distinct'⟩, by rw [ofJsonItems, same, same']⟩

theorem ofJsonFields_of_literalFields {fields : InputObject} {values : Record Json}
    (each : ∀ e ∈ fields, ∀ v, e.2.literal = .ok v → v.Distinct ∧ ofJson v = e.2)
    (read : literalFields fields = .ok values) :
    (∀ e ∈ values, e.2.Distinct) ∧ ofJsonFields values = fields := by
  induction fields generalizing values with
  | nil =>
      cases read
      exact ⟨fun e mem => absurd mem List.not_mem_nil, rfl⟩
  | cons e rest ih =>
      obtain ⟨name, u⟩ := e
      obtain ⟨first, others⟩ := List.forall_mem_cons.mp each
      rw [literalFields] at read
      obtain ⟨v, value, read⟩ := exists_of_andThen_ok read
      obtain ⟨values, remaining, read⟩ := exists_of_andThen_ok read
      cases read
      obtain ⟨distinct, same⟩ := first v value
      obtain ⟨distinct', same'⟩ := ih others remaining
      refine ⟨List.forall_mem_cons.mpr ⟨distinct, distinct'⟩, ?_⟩
      rw [ofJsonFields, same, same']

theorem ofJson_of_literal {u : Input} (h : u.Distinct) {v : Json} (read : u.literal = .ok v) :
    v.Distinct ∧ ofJson v = u := by
  induction h generalizing v with
  | null =>
      cases read
      exact ⟨.null, rfl⟩
  | bool b =>
      cases read
      exact ⟨.bool b, rfl⟩
  | num n =>
      cases read
      exact ⟨.num n, rfl⟩
  | str s =>
      cases read
      exact ⟨.str s, rfl⟩
  | var name => cases read
  | list _ ih =>
      rw [literal] at read
      obtain ⟨values, items, rfl⟩ := exists_of_map_ok read
      obtain ⟨distinct, same⟩ := ofJsonItems_of_literalItems (fun u mem v => ih u mem) items
      exact ⟨.arr distinct, by rw [ofJson, same]⟩
  | obj names _ ih =>
      rw [literal] at read
      obtain ⟨values, fields, rfl⟩ := exists_of_map_ok read
      obtain ⟨distinct, same⟩ := ofJsonFields_of_literalFields (fun e mem v => ih e mem) fields
      have kept : Record.names values = _ := literalFields_names fields
      refine ⟨.obj (kept ▸ names) distinct, ?_⟩
      rw [ofJson, same, Record.ofList_of_nodup names]

/-! ### Variables -/

theorem literalItems_eq_mapM (items : List Input) : literalItems items = items.mapM literal := by
  induction items with
  | nil => rfl
  | cons v rest ih => rw [literalItems, List.mapM_cons, ih]

theorem literalFields_eq_mapM (fields : InputObject) :
    literalFields fields = fields.mapM fun e => e.2.literal.map (e.1, ·) := by
  induction fields with
  | nil => rfl
  | cons e rest ih =>
      obtain ⟨name, v⟩ := e
      rw [literalFields, List.mapM_cons, ih]
      cases v.literal <;> rfl

theorem exists_literal {u : Input} (h : u.Distinct) (plain : ∀ name, ¬ u.Mentions name) :
    ∃ v, u.literal = .ok v := by
  induction h with
  | null => exact ⟨.null, rfl⟩
  | bool b => exact ⟨.bool b, rfl⟩
  | num n => exact ⟨.num n, rfl⟩
  | str s => exact ⟨.str s, rfl⟩
  | var name => exact absurd .var (plain name)
  | list _ ih =>
      obtain ⟨values, read⟩ := exists_mapM_ok fun v mem => ih v mem fun name mentions =>
        plain name (.item mem mentions)
      exact ⟨.arr values, by rw [literal, literalItems_eq_mapM, read, Except.map]⟩
  | @obj fields _ _ ih =>
      have each : ∀ e ∈ fields, ∃ entry, e.2.literal.map (e.1, ·) = .ok entry := by
        intro e mem
        obtain ⟨v, value⟩ := ih e mem fun name mentions => plain name (.field mem mentions)
        exact ⟨(e.1, v), by rw [value, Except.map]⟩
      obtain ⟨values, read⟩ := exists_mapM_ok each
      exact ⟨.obj values, by rw [literal, literalFields_eq_mapM, read, Except.map]⟩

/-- A literal of the whole would hold a literal of the part with the variable. -/
theorem Mentions.literal_ne {u : Input} {name : String} (h : u.Mentions name) (v : Json) :
    u.literal ≠ .ok v := by
  induction h generalizing v with
  | var =>
      intro read
      cases read
  | item mem _ ih =>
      intro read
      rw [literal, literalItems_eq_mapM] at read
      obtain ⟨values, items, _⟩ := exists_of_map_ok read
      obtain ⟨w, value⟩ := exists_of_mapM_ok items mem
      exact ih w value
  | field mem _ ih =>
      intro read
      rw [literal, literalFields_eq_mapM] at read
      obtain ⟨values, fields, _⟩ := exists_of_map_ok read
      obtain ⟨entry, found⟩ := exists_of_mapM_ok fields mem
      obtain ⟨w, value, _⟩ := exists_of_map_ok found
      exact ih w value

theorem error_literal_iff {u : Input} (h : u.Distinct) :
    (∃ e, u.literal = .error e) ↔ ∃ name, u.Mentions name := by
  constructor
  · rintro ⟨e, failed⟩
    by_contra none
    obtain ⟨v, read⟩ := exists_literal h fun name mentions => none ⟨name, mentions⟩
    rw [failed] at read
    cases read
  · rintro ⟨name, mentions⟩
    cases read : u.literal with
    | ok v => exact absurd read (mentions.literal_ne v)
    | error e => exact ⟨e, rfl⟩

/-- JSON whose objects repeat no name becomes input, and this is the same JSON again. Input whose
objects are made by setting and taking out fields is a literal exactly if no variable occurs in it, and
then the literal is JSON of the first kind and becomes the same input again. -/
theorem literal_inverse (v : Json) (distinct : v.Distinct) (u : Input) (built : u.Built) :
    ((ofJson v).Built ∧ (ofJson v).literal = .ok v) ∧
      ((∃ e, u.literal = .error e) ↔ ∃ name, u.Mentions name) ∧
      ∀ w, u.literal = .ok w → w.Distinct ∧ ofJson w = u :=
  ⟨⟨built_ofJson v, literal_ofJson distinct⟩, error_literal_iff built.distinct,
    fun _ read => ofJson_of_literal built.distinct read⟩

/-- A ship with a list of people, one of them without fields. -/
def roster : Json :=
  .obj [("ship", .str "Falcon"), ("crew", .arr [.obj [("name", .str "Han"), ("age", .int 32)], .obj []])]

/-- A name that is set twice, beside a variable that is taken out again. -/
def pilot : Input :=
  .obj ((((Record.insert [] "name" (.str "Luke")).insert "home" (.var "planet")).insert "name"
    (.list [.str "Leia", .null])).erase "home")

theorem literal_inverse_roster :
    roster.Distinct ∧ pilot.Built ∧ (ofJson roster).literal = .ok roster ∧
      pilot.literal = .ok (.obj [("name", .arr [.str "Leia", .null])]) ∧
      ofJson (.obj [("name", .arr [.str "Leia", .null])]) = pilot := by
  have distinct : roster.Distinct := by
    refine .obj (by decide) (List.forall_mem_cons.mpr ⟨.str _, List.forall_mem_singleton.mpr (.arr ?_)⟩)
    have han : (Json.obj [("name", .str "Han"), ("age", .int 32)]).Distinct :=
      .obj (by decide) (List.forall_mem_cons.mpr ⟨.str _, List.forall_mem_singleton.mpr (.num _)⟩)
    have nobody : (Json.obj []).Distinct := .obj List.nodup_nil fun e mem => absurd mem List.not_mem_nil
    exact List.forall_mem_cons.mpr ⟨han, List.forall_mem_singleton.mpr nobody⟩
  have built : pilot.Built := by
    have names : (list [.str "Leia", .null]).Built :=
      .list (List.forall_mem_cons.mpr ⟨.str _, List.forall_mem_singleton.mpr .null⟩)
    exact .erase "home" (.insert "name" (.insert "home" (.insert "name" .empty (.str _)) (.var _)) names)
  have read : pilot.literal = .ok (.obj [("name", .arr [.str "Leia", .null])]) := rfl
  obtain ⟨⟨_, back⟩, _, again⟩ := literal_inverse roster distinct pilot built
  exact ⟨distinct, built, back, read, (again _ read).2⟩

end Input

end DocGraph
