import DocGraph.Proofs.Creation
import DocGraph.Proofs.Keys
import DocGraph.Proofs.Paging

/-! # Documents found by their keys

A field is brought into its stored form twice: when a document is created, and when a document is looked
for by a key. Both come to the same value, and every value equals itself in the order of values, so that a
new document is among those that its own fields are a key of. If these fields include those of the key of
its type, it is the only one: the check of the key has run on the store as it is in the end. The main
statement is `created_found_by_key`. -/

namespace DocGraph

variable {m : Model} {c : Context} {t : TypeDef} {type : String}

open Synthesis

/-! ### Values and stored forms -/

/-- Every value equals itself in the order of values. -/
theorem Json.alike_refl (v : Json) : v.alike v = true := by
  have swap := compareSorted_swap v.sorted v.sorted
  unfold alike order
  cases h : compareSorted v.sorted v.sorted with
  | eq => rfl
  | lt | gt =>
      rw [h] at swap
      cases swap

/-- What a field of a document is given is there in its stored form. -/
theorem storedFields_get? {data : InputObject} {d : Document} {name : String} {v : Input} {f : FieldDef}
    (read : m.storedFields t data = .ok d) (given : data.get? name = some v)
    (declared : t.field? name = some f) (stored : m.schema.isDocumentField f = .ok true) :
    ∃ j w, v.literal = .ok j ∧ Scalar.store f.type.base j = .ok w ∧ d.get? name = some w := by
  induction data generalizing d with
  | nil => cases given
  | cons e rest ih =>
      obtain ⟨first, value⟩ := e
      obtain ⟨f', declared', rest⟩ := Model.storedFields_cons read
      rw [Record.get?_cons] at given
      by_cases here : name = first
      · subst here
        rw [if_pos rfl] at given
        cases given
        cases declared.symm.trans declared'
        rcases rest with ⟨_, j, w, others, literal, value, _, rfl⟩ | ⟨other, _⟩
        · exact ⟨j, w, literal, value, by rw [Record.get?_cons, if_pos rfl]⟩
        · cases stored.symm.trans other
      · rw [if_neg here] at given
        rcases rest with ⟨_, _, _, others, _, _, later, rfl⟩ | ⟨_, later⟩
        · obtain ⟨j, w, literal, value, found⟩ := ih later given
          exact ⟨j, w, literal, value, by rw [Record.get?_cons, if_neg here, found]⟩
        · exact ih later given

/-! ### Keys -/

/-- The fields that a new document gets over whatever it is given. -/
def stampedFields : List String :=
  [Field.created, Field.typeName, Field.key, Field.id]

/-- A key that is taken from an input object: some of its stored fields, with the values that are given for
them. -/
structure Model.KeyFrom (m : Model) (t : TypeDef) (data : InputObject) (key : Document) : Prop where
  nonempty : key ≠ []
  entries : ∀ e ∈ key, ∃ v f, data.get? e.1 = some v ∧ v.literal = .ok e.2 ∧
    t.field? e.1 = some f ∧ m.schema.isDocumentField f = .ok true ∧ e.1 ∉ stampedFields

/-- A document has the stored forms of the values of a key. -/
def TypeDef.Agrees (t : TypeDef) (key d : Document) : Prop :=
  ∀ e ∈ key, ∃ f, t.field? e.1 = some f ∧ Scalar.store f.type.base e.2 = .ok (d.read e.1)

/-- Documents that are as a document on the fields of a key. -/
def matchesKey (key d : Document) (e : Document) : Bool :=
  key.all fun field => (e.read field.1).alike (d.read field.1)

theorem matchesKey_refl (key d : Document) : matchesKey key d d = true := by
  simp [matchesKey, Json.alike_refl]

/-- Of a key that a document agrees with, the conditions ask to be as that document. -/
theorem keyConditions_of_agrees (type : String) {key d : Document} (h : t.Agrees key d) :
    ∃ conditions, Schema.keyConditions t type key = .ok conditions ∧
      ∀ e, Condition.allHold e conditions = matchesKey key d e := by
  induction key with
  | nil => exact ⟨[], rfl, fun _ => rfl⟩
  | cons first rest ih =>
      obtain ⟨name, value⟩ := first
      obtain ⟨conditions, made, meaning⟩ := ih fun e he => h e (List.mem_cons_of_mem _ he)
      obtain ⟨f, declared, stored⟩ := h (name, value) List.mem_cons_self
      dsimp only at declared stored
      refine ⟨Schema.fieldEquals name (d.read name) :: conditions, ?_, fun e => ?_⟩
      · simp only [Schema.keyConditions, declared, stored, made, bind, Except.bind, pure, Except.pure]
      · rw [Condition.allHold, meaning]
        rfl

/-- A document of a new entry agrees with the keys that are taken from its input. -/
theorem Model.KeyFrom.agrees {data : InputObject} {key d : Document} (h : m.KeyFrom t data key)
    (read : m.storedFields t data = .ok d) (type : String) (n : Nat) :
    t.Agrees key (Entry.document ⟨type, n, m.stamped type d⟩) := by
  intro e he
  obtain ⟨v, f, given, literal, declared, stored, other⟩ := h.entries e he
  obtain ⟨j, w, literal', value, found⟩ := storedFields_get? read given declared stored
  cases literal.symm.trans literal'
  simp only [stampedFields, List.mem_cons, List.not_mem_nil, or_false, not_or] at other
  obtain ⟨created, typeName, keyField, id⟩ := other
  refine ⟨f, declared, ?_⟩
  rw [value, Document.read, Entry.get?_document _ ⟨keyField, id⟩]
  simp [Model.stamped, Record.get?_insert, created, typeName, found]

/-! ### The check of the key -/

/-- Where the key of a document has been checked, no other document of the type has the same. -/
theorem checkKey_effects (var type : String) :
    Effects (m.checkKey var type) c fun _ _ run run' => run' = run ∧
      ∀ k, m.schema.keyType? type = some k → ∃ d, run.vars.get? var = some (.obj d) ∧
        ∀ e ∈ run.store.documents type,
          Document.rivals (k.fields.map FieldDef.name) e.2 d = false := by
  unfold Model.checkKey
  split
  · rename_i none
    refine .of_pure _ fun _ run => ⟨rfl, fun k key => ?_⟩
    cases none.symm.trans key
  · rename_i k key
    refine (Idle.lockRead type).bind_effects fun _ c₁ _ => ?_
    refine (Idle.comment _).bind_effects fun _ c₂ _ => ?_
    intro a c' done
    cases done
    refine ⟨⟨id, Nat.le_refl _⟩, [_], rfl, ?_⟩
    intro write params run run' _ _ p
    cases performsAll_singleton.mp p with
    | assert clean =>
        refine ⟨rfl, fun k' key' => ?_⟩
        cases key.symm.trans key'
        exact exists_of_duplicateKey_clean clean

/-- The key of a new document is checked after all that comes with the document has been written. -/
theorem insertDocument_unrivalled {data : InputObject} {exports : Option Selection} {var? : Option String}
    {edges : String → TypeDef → Synthesis Unit} (plain : PlainFields data)
    (taken : ∀ v, var? = some v → ∃ i < c.nextVar, v = varName i)
    (written : ∀ i t c', i < c'.nextVar → Effects (edges (varName i) t) c' fun _ _ _ _ => True) :
    Effects (m.insertDocument type data exports var? edges) c fun var _ _ run' =>
      ∀ k, m.schema.keyType? type = some k → ∃ d, run'.vars.get? var = some (.obj d) ∧
        ∀ e ∈ run'.store.documents type,
          Document.rivals (k.fields.map FieldDef.name) e.2 d = false := by
  unfold Model.insertDocument
  refine Idle.ensureOpen.bind_effects fun _ c₁ g₁ => Effects.ofExcept_bind fun t _ => ?_
  refine (Idle.comment _).bind_effects fun _ c₂ g₂ => ?_
  rw [plain.imports, pure_bind]
  refine Effects.ofExcept_bind fun d _ => Effects.freshParam_bind fun p c₃ g₃ => ?_
  refine varOr_effects (fun v hv => ?_) fun i c₄ g₄ lt same => ?_
  · obtain ⟨i, hi, name⟩ := taken v hv
    exact ⟨i, Nat.lt_of_lt_of_le hi ((g₁.trans g₂).trans g₃).vars, name⟩
  refine (Idle.lockWrite _).bind_effects fun _ c₅ g₅ => Effects.push_bind ?_
  have bound : i < (c₅.add [.insert (varName i) type (.param p) [] none]).nextVar :=
    Nat.lt_of_lt_of_le lt g₅.vars
  refine (written i t _ bound).bind fun _ c₆ g₆ => ?_
  refine (exportSelection_effects _ exports).bind fun _ c₇ g₇ => ?_
  refine (checkKey_effects _ _).bind fun _ c₈ g₈ => ?_
  refine (Idle.deferChecks _ _ _).bind_effects fun _ c₉ g₉ => Effects.of_pure _ ?_
  rintro params run' _ ⟨rfl, clean⟩ _ _ _ _ _ _ _ _ _
  exact clean

/-- What a creation leaves: its document, in its variable and in the store, with a key that no other
document of the type has. -/
structure LeavesDocument (m : Model) (type : String) (data : InputObject) (var : String) (k : Nat)
    (run : Run) (t : TypeDef) (d : Document) : Prop where
  found : m.objectType type = .ok t
  read : m.storedFields t data = .ok d
  held : run.vars.get? var = some (.obj (Entry.document ⟨type, k + 1, m.stamped type d⟩))
  there : (toString (k + 1), Entry.document ⟨type, k + 1, m.stamped type d⟩) ∈ run.store.documents type
  unrivalled : ∀ key, m.schema.keyType? type = some key → ∀ e ∈ run.store.documents type,
    Document.rivals (key.fields.map FieldDef.name) e.2
      (Entry.document ⟨type, k + 1, m.stamped type d⟩) = false

theorem creation_leaves {call : Call} {data : InputObject} (mutation : call.mutation = .create type data)
    (plain : PlainFields data) :
    Effects (call.synthesis m) c fun var _ run run' =>
      ∃ t d, LeavesDocument { m with now := call.now } type data var run.lastKey run' t d := by
  unfold Call.synthesis
  rw [mutation]
  have untaken : ∀ v, none = some v → ∃ i < c.nextVar, v = varName i := fun v hv => by cases hv
  have edges := fun i t c' lt => objectEdges_effects (m := { m with now := call.now }) i t data c' plain lt
  refine ((insertDocument_effects plain untaken edges).and
    (insertDocument_unrivalled plain untaken fun i t c' lt => (edges i t c' lt).mono ?_)).mono ?_
  · exact fun _ _ _ _ _ => trivial
  rintro var _ run run' ⟨⟨_, first, es, created, adds, held, _⟩, unrivalled⟩
  cases created with
  | @object _ t _ d _ _ _ found read edges =>
      refine ⟨t, d, found, read, held, ?_, fun key keyed => ?_⟩
      · exact (adds type _).mpr (.inr ⟨_, List.mem_cons_self, rfl, rfl⟩)
      · obtain ⟨d', held', clean⟩ := unrivalled key keyed
        cases held.symm.trans held'
        exact clean

/-! ### Reading by a key -/

/-- The answer to a look-up by a key is the first document that is as one which agrees with the key. -/
theorem Session.outcome_getByKey? {s : Session} {key d : Document} (real : s.engine.nextRows = none)
    (found : s.model.schema.typeDef type = .ok t) (nonempty : key ≠ []) (agrees : t.Agrees key d)
    (there : (s.engine.database.store.collection? type).isSome = true) :
    outcome (Session.getByKey? key type) s =
      (.ok ((NameMap.values (s.engine.database.store.documents type)).filter (matchesKey key d)).head?,
        s) := by
  obtain ⟨conditions, made, meaning⟩ := keyConditions_of_agrees type agrees
  have query : s.model.schema.keyQuery key type =
      .ok { ReadQuery.ofSource (.collections [type]) documentRow with
        conditions := conditions
        limit := some 1 } := by
    simp [Schema.keyQuery, found, made, nonempty, bind, Except.bind, pure, Except.pure]
  have rows : s.engine.database.store.rows [type] =
      .ok (NameMap.values (s.engine.database.store.documents type)) := by
    have each : ∀ C ∈ [type], (s.engine.database.store.collection? C).isSome = true := by simpa using there
    simpa using Store.rows_eq each
  unfold Session.getByKey?
  rw [outcome_bind, outcome_get]
  dsimp only
  rw [query]
  have first : ∀ l : List Document, (l.take 1).head? = l.head? := fun l => by cases l <;> rfl
  rw [← first]
  refine outcome_bind_of_ok (outcome_documents real ?_) _
  simp only [Store.answer, ReadQuery.ofSource, Store.sourceRows, rows, bind, Except.bind, Store.limited,
    Store.rowsAfter, meaning]
  rfl

/-- A document of a type in a database is told by its id. -/
theorem Database.Reachable.eq_of_alike {db : Database} {a b : String × Document} (h : db.Reachable)
    (ha : a ∈ db.store.documents type) (hb : b ∈ db.store.documents type)
    (alike : (Document.id a.2).alike (Document.id b.2) = true) : a.2 = b.2 := by
  obtain ⟨n, key, id⟩ := h.exists_id ha
  obtain ⟨n', key', id'⟩ := h.exists_id hb
  rw [id, id', Json.alike_str] at alike
  obtain ⟨_, rfl⟩ := ofKey_toString_inj alike
  have first := (h.ordered type).get?_of_mem ha
  have second := (h.ordered type).get?_of_mem hb
  rw [key] at first
  rw [key', first] at second
  exact Option.some.inj second

/-- Of the documents that are as one of a type on the fields of a key, that one is the only one if the
fields include those of the key of the type. -/
theorem Database.Reachable.eq_of_matchesKey {db : Database} {key : Document} {k : TypeDef}
    {a b : String × Document} (h : db.Reachable) (ha : a ∈ db.store.documents type)
    (hb : b ∈ db.store.documents type) (covered : ∀ f ∈ k.fields, f.name ∈ key.map Prod.fst)
    (unrivalled : Document.rivals (k.fields.map FieldDef.name) a.2 b.2 = false)
    (matched : matchesKey key b.2 a.2 = true) : a.2 = b.2 := by
  have same : (k.fields.map FieldDef.name).all (fun f => (Document.read a.2 f).alike (Document.read b.2 f)) =
      true := by
    refine List.all_eq_true.mpr fun name mem => ?_
    obtain ⟨f, hf, rfl⟩ := List.mem_map.mp mem
    obtain ⟨e, he, name⟩ := List.mem_map.mp (covered f hf)
    rw [← name]
    exact List.all_eq_true.mp matched e he
  refine h.eq_of_alike ha hb ?_
  unfold Document.rivals at unrivalled
  rw [same, Bool.and_true, Bool.not_eq_false'] at unrivalled
  exact unrivalled

/-- A document that has just been created is found by its own fields. After a creation has been committed
with a document as its result, a look-up by any of the fields that were given, with the values that were
given for them, finds a document of the type; if the fields include those of the key of the type, it finds
the new one. -/
theorem created_found_by_key (m : Model) (number : Nat) (remembers : Bool) (call : Call) (type : String)
    (data : InputObject) (u : Transaction) (db : Database) (res : Record Json)
    (root : call.isRoot = true) (mutation : call.mutation = .create type data)
    (plain : PlainFields data)
    (submitted : submission? ((Request.start number remembers [call.name]).call m call).1 = some u)
    (reachable : db.Reachable) (committed : (db.execute u).1 = .ok res) :
    ∃ t d, m.schema.typeDef type = .ok t ∧ res.get? call.name = some (.obj d) ∧
      ∀ (s : Session) (key : Document), s.model.schema = m.schema →
        s.engine.database = (db.execute u).2 → s.engine.nextRows = none → m.KeyFrom t data key →
          ∃ found, outcome (Session.getByKey? key type) s = (.ok (some found), s) ∧
            ∀ k, m.schema.keyType? type = some k → (∀ f ∈ k.fields, f.name ∈ key.map Prod.fst) →
              found = d := by
  obtain ⟨var, run, v, ⟨t, fields, left⟩, held, result, after⟩ :=
    (creation_leaves mutation plain).of_committed root submitted reachable.issued committed
  cases left.held.symm.trans held
  have type_def := (Model.typeDef_of_objectType left.found).1
  refine ⟨t, _, type_def, result, fun s key schema database real given => ?_⟩
  have later : (db.execute u).2.Reachable := .execute reachable u
  have store : (db.execute u).2.store = run.store := by rw [after]
  have agrees := Model.KeyFrom.agrees (m := { m with now := call.now }) ⟨given.nonempty, given.entries⟩
    left.read type (db.lastKey + 1)
  have there : (s.engine.database.store.collection? type).isSome = true := by
    rw [database, store]
    obtain ⟨coll, found⟩ := Store.exists_of_mem_documents left.there
    rw [found]
    rfl
  rw [← schema] at type_def
  rw [Session.outcome_getByKey? real type_def given.nonempty agrees there, database, store]
  have mem : Entry.document ⟨type, db.lastKey + 1, Model.stamped { m with now := call.now } type fields⟩ ∈
      (NameMap.values (run.store.documents type)).filter (matchesKey key (Entry.document
        ⟨type, db.lastKey + 1, Model.stamped { m with now := call.now } type fields⟩)) :=
    List.mem_filter.mpr ⟨List.mem_map_of_mem left.there, matchesKey_refl _ _⟩
  obtain ⟨found, first⟩ := Option.isSome_iff_exists.mp (List.isSome_head?.mpr (List.ne_nil_of_mem mem))
  refine ⟨found, by rw [first], fun k keyed covered => ?_⟩
  obtain ⟨hf, matched⟩ := List.mem_filter.mp (List.mem_of_mem_head? first)
  obtain ⟨e, he, rfl⟩ := List.mem_map.mp hf
  have unrivalled := left.unrivalled k keyed e he
  have new := left.there
  rw [← store] at he new
  exact later.eq_of_matchesKey he new covered unrivalled matched

/-- Volumes have titles and printings. -/
def volume : TypeDef :=
  ⟨"Volume", .object, [⟨"title", .named "String", []⟩, ⟨"printed", .list (.named "DateTime"), []⟩], [], [],
    []⟩

/-- Volumes, told by all that they have. -/
def bookshop : Model where
  schema := .ofTypes [
    ⟨"DateTime", .scalar, [], [], [], []⟩,
    volume,
    { volume with name := "_KeyForVolume", kind := .input }]
  settings := .default
  now := 0

/-- The shop with a volume that has not been printed. -/
def shelf : Database :=
  match Database.empty.setup bookshop.schema false with
  | .ok db => (db.execute
      { write := ["Volume"], read := [], statements := [.insert "_x0" "Volume" (.param "_0") [] none],
        params := [("_0", .obj [("title", .str "Atlas"), ("printed", .arr [])])] }).2
  | .error _ => Database.empty

theorem reachable_shelf : shelf.Reachable := by
  unfold shelf
  split
  · rename_i done
    exact .execute (.setup .empty done) _
  · exact .empty

/-- A volume with a title that is there already. -/
def atlas : InputObject :=
  [("title", .str "Atlas"), ("printed", .list [.str "2020-01-01T00:00:00Z", .null])]

/-- The key of the volume, as it was given. -/
def atlasKey : Document :=
  [("printed", .arr [.str "2020-01-01T00:00:00Z", .null]), ("title", .str "Atlas")]

theorem atlas_keyFrom : bookshop.KeyFrom volume atlas atlasKey := by
  refine ⟨by decide, fun e he => ?_⟩
  simp only [atlasKey, List.mem_cons, List.not_mem_nil, or_false] at he
  rcases he with rfl | rfl
  · exact ⟨_, _, rfl, rfl, rfl, rfl, by decide⟩
  · exact ⟨_, _, rfl, rfl, rfl, rfl, by decide⟩

/-- A root field that creates the volume. -/
def reprint : Call where
  now := 7
  isRoot := true
  selection := ⟨"volume", []⟩
  mutation := .create "Volume" atlas

theorem created_found_by_key_bookshop :
    ∃ u res d, submission? ((Request.start 1 true ["volume"]).call bookshop reprint).1 = some u ∧
      (shelf.execute u).1 = .ok res ∧ res.get? "volume" = some (.obj d) ∧
      (NameMap.values ((shelf.execute u).2.store.documents "Volume")).length = 2 ∧
      ∀ s : Session, s.model = bookshop →
        s.engine = { Engine.empty .plain with database := (shelf.execute u).2 } →
          outcome (Session.getByKey? atlasKey "Volume") s = (.ok (some d), s) := by
  have ran : (submission? ((Request.start 1 true ["volume"]).call bookshop reprint).1).any (fun u =>
      (shelf.execute u).1.toBool &&
        (NameMap.values ((shelf.execute u).2.store.documents "Volume")).length == 2) = true := by
    decide +kernel
  obtain ⟨u, submitted, ok⟩ := (Option.any_eq_true _ _).mp ran
  rw [Bool.and_eq_true, beq_iff_eq] at ok
  obtain ⟨res, committed⟩ := exists_of_toBool ok.1
  obtain ⟨t, d, declared, result, found⟩ := created_found_by_key bookshop 1 true reprint "Volume" atlas u
    shelf res rfl rfl ⟨_, rfl⟩ submitted reachable_shelf committed
  refine ⟨u, res, d, submitted, committed, result, ok.2, fun s model engine => ?_⟩
  cases declared
  obtain ⟨v, read, only⟩ := found s atlasKey (by rw [model]) (by rw [engine]) (by rw [engine]; rfl)
    atlas_keyFrom
  rw [read, only _ rfl (by decide)]

end DocGraph
