import Mathlib.Data.List.Nodup
import DocGraph.Query.Build
import DocGraph.Proofs.Atomicity
import DocGraph.Proofs.Checks

/-! # The identity of documents

A document is stored under a key that it holds itself, in its key field and at the end of its id.
Whatever an engine is told to do, this stays so: bodies and patches may hold other keys and ids, but those
are overwritten or left out (`Database.Identified`). Keys are numbers that are given out in order and
never again, whether transactions fail and whether all collections are dropped. Where the names of
collections are not empty and have no slash, the collection and the key can be read off an id. So there
are two ways to find the document of an id, to look it up under its key and to scan for it, and they come
to the same: `after_indexed`. -/

namespace DocGraph

variable {write : NameSet} {params : Record Json} {ss : List Statement} {run run' : Run}
  {db : Database} {store : Store} {C i : String}

/-! ### Ids of collections with a proper name -/

/-- A name that ids can be made of: it is not empty and has no slash. -/
def IsCollectionName (name : String) : Prop :=
  name ≠ "" ∧ '/' ∉ name.toList

instance (name : String) : Decidable (IsCollectionName name) :=
  inferInstanceAs (Decidable (name ≠ "" ∧ '/' ∉ name.toList))

theorem toString_ne_empty (n : Nat) : toString n ≠ "" := by
  intro h
  have digits : Nat.toDigits 10 n = [] := by
    rw [← Nat.toList_repr]
    exact congrArg String.toList h
  exact Nat.toDigits_ne_nil digits

theorem splitSlash_append {a b : List Char} (h : '/' ∉ a) :
    splitSlash (a ++ '/' :: b) = some (a, b) := by
  induction a with
  | nil => simp [splitSlash]
  | cons x a ih =>
      have other : x ≠ '/' := fun same => h (same ▸ List.mem_cons_self)
      simp [splitSlash, other, ih fun later => h (List.mem_cons_of_mem x later)]

theorem eq_of_parse {d : DocumentId} (h : DocumentId.parse i = .ok d) : d = ⟨i⟩ := by
  unfold DocumentId.parse at h
  split at h
  · cases h
    rfl
  · cases h

/-- An id is made of a collection and a key if these can be read off it. -/
theorem text_ofKey_eq_iff {key : String} (name : IsCollectionName C) (ne : key ≠ "") :
    (DocumentId.ofKey C key).text = i ↔
      ∃ d, DocumentId.parse i = .ok d ∧ d.collection = C ∧ d.key = key := by
  constructor
  · rintro rfl
    have split : splitSlash (DocumentId.ofKey C key).text.toList = some (C.toList, key.toList) := by
      rw [← splitSlash_append name.2]
      simp [DocumentId.ofKey, String.toList_append]
    obtain ⟨x, a, before⟩ := List.exists_cons_of_ne_nil fun h => name.1 (String.toList_inj.mp h)
    obtain ⟨y, b, behind⟩ := List.exists_cons_of_ne_nil fun h => ne (String.toList_inj.mp h)
    refine ⟨DocumentId.ofKey C key, ?_, ?_, ?_⟩
    · rw [DocumentId.parse, split, before, behind]
    · simp [DocumentId.collection, split]
    · simp [DocumentId.key, split]
  · rintro ⟨d, parsed, rfl, rfl⟩
    exact (text_of_parse parsed).symm

/-! ### Documents under their own keys -/

/-- A document holds the key that it is stored under, and the key is the number of one of the documents
so far. -/
structure FiledUnder (lastKey : Nat) (e : String × Document) : Prop where
  key : Record.get? e.2 Field.key = some (.str e.1)
  given : ∃ n, 1 ≤ n ∧ n ≤ lastKey ∧ e.1 = toString n

theorem FiledUnder.mono {k k' : Nat} {e : String × Document} (h : FiledUnder k e) (le : k ≤ k') :
    FiledUnder k' e := by
  obtain ⟨key, n, pos, hn, number⟩ := h
  exact ⟨key, n, pos, Nat.le_trans hn le, number⟩

def Store.Filed (store : Store) (lastKey : Nat) : Prop :=
  ∀ C, ∀ e ∈ store.documents C, FiledUnder lastKey e

theorem get?_key_keyed (collection key : String) (d : Document) :
    Record.get? (Run.keyed collection key d) Field.key = some (.str key) := by
  simp [Run.keyed, Record.get?_insert, Field.id, Field.key]

theorem PerformsAll.filed (p : PerformsAll write params ss run run')
    (h : run.store.Filed run.lastKey) : run'.store.Filed run'.lastKey := by
  refine p.invariant (I := fun r => r.store.Filed r.lastKey) ss (fun b hb r r' q hr => ?_) h
  cases q with
  | insert _ _ _ there =>
      intro C e he
      rcases Store.eq_or_mem_of_mem_documents_put there he with ⟨_, rfl⟩ | old
      · exact ⟨get?_key_keyed _ _ _, r.lastKey + 1, Nat.le_add_left 1 _, Nat.le_refl _, rfl⟩
      · exact (hr C e old).mono (Nat.le_succ _)
  | update _ _ _ there _ found =>
      intro C e he
      rcases Store.eq_or_mem_of_mem_documents_put there he with ⟨_, rfl⟩ | old
      · have filed := hr _ _ (Store.documents_eq there ▸ NameMap.mem_of_get? found)
        exact ⟨(get?_merge _ _ (Or.inr rfl)).trans filed.key, filed.given⟩
      · exact hr C e old
  | remove _ _ there | removeEdges _ _ there =>
      intro C e he
      exact hr C e (Store.mem_of_mem_documents_set there (fun e he => (List.mem_filter.mp he).1) he)
  | comment | bind | miss | setResult | assert => exact hr
  | pass | enter => exact absurd rfl (not_guarded_of_mem_partsOf ss hb _ _)

/-- Collections stay in order of their names. -/
theorem PerformsAll.sorted_collections (p : PerformsAll write params ss run run')
    (h : NameMap.Sorted run.store.collections) : NameMap.Sorted run'.store.collections := by
  refine p.invariant (I := fun r => NameMap.Sorted r.store.collections) ss
    (fun b hb r r' q hr => ?_) h
  cases q with
  | insert | update | remove | removeEdges => exact hr.insert _ _
  | comment | bind | miss | setResult | assert => exact hr
  | pass | enter => exact absurd rfl (not_guarded_of_mem_partsOf ss hb _ _)

/-! ### Commands -/

/-- What an engine can be told to do with its database. -/
inductive Command where
  | createCollection (name : String) (kind : CollectionKind)
  | dropAll
  | execute (t : Transaction)

namespace Command

def apply : Command → Database → Database
  | createCollection name kind, db => (db.createCollection name kind).2
  | dropAll, db => db.dropAll
  | execute t, db => (db.execute t).2

/-- The keys that a command gives out. -/
def given : Command → Database → List String
  | execute t, db => Run.givenAll t.write t.params t.statements (Run.start db)
  | _, _ => []

/-- New collections have proper names. -/
def Named : Command → Prop
  | createCollection name _ => IsCollectionName name
  | _ => True

instance : (command : Command) → Decidable command.Named
  | createCollection name _ => inferInstanceAs (Decidable (IsCollectionName name))
  | dropAll => isTrue trivial
  | execute _ => isTrue trivial

theorem given_eq (command : Command) (db : Database) :
    db.lastKey ≤ (command.apply db).lastKey ∧
      command.given db = keysBetween db.lastKey (command.apply db).lastKey := by
  cases command with
  | createCollection | dropAll => exact ⟨Nat.le_refl _, (keysBetween_self _).symm⟩
  | execute t => exact givenAll_execute db t

end Command

/-- The database after some commands. -/
def Database.after : Database → List Command → Database
  | db, [] => db
  | db, command :: rest => (command.apply db).after rest

/-- The keys that commands give out one after another. -/
def Database.givenBy : Database → List Command → List String
  | _, [] => []
  | db, command :: rest => command.given db ++ (command.apply db).givenBy rest

theorem Database.givenBy_eq (db : Database) (commands : List Command) :
    db.lastKey ≤ (db.after commands).lastKey ∧
      db.givenBy commands = keysBetween db.lastKey (db.after commands).lastKey := by
  induction commands generalizing db with
  | nil => exact ⟨Nat.le_refl _, (keysBetween_self _).symm⟩
  | cons command rest ih =>
      obtain ⟨le, first⟩ := command.given_eq db
      obtain ⟨le', others⟩ := ih (command.apply db)
      refine ⟨Nat.le_trans le le', ?_⟩
      rw [givenBy, first, others]
      exact keysBetween_append le le'

theorem nodup_keysBetween (a b : Nat) : (keysBetween a b).Nodup :=
  (List.nodup_range' ..).map fun _ _ => toString_inj

/-- Collections have proper names, and their documents the keys and ids that go with the place where they
are stored. -/
structure Database.Identified (db : Database) : Prop where
  named : ∀ {C c}, db.store.collection? C = some c → IsCollectionName C
  keyed : db.store.Keyed
  filed : db.store.Filed db.lastKey
  ordered : db.store.Ordered
  collections : NameMap.Sorted db.store.collections

namespace Database.Identified

theorem empty (lastKey : Nat) : (⟨Store.empty, lastKey⟩ : Database).Identified where
  named there := by cases there
  keyed := .empty
  filed C e he := by cases he
  ordered := .of_empty fun _ => rfl
  collections := List.Pairwise.nil

theorem create {name : String} (h : db.Identified) (proper : IsCollectionName name)
    (kind : CollectionKind) : (db.createCollection name kind).2.Identified where
  named there := by
    rcases Store.old_or_new_of_create there with old | ⟨rfl, _⟩
    · exact h.named old
    · exact proper
  keyed C e he := h.keyed C e (Store.documents_create _ name C kind ▸ he)
  filed C e he := h.filed C e (Store.documents_create _ name C kind ▸ he)
  ordered C := by
    show NameMap.Sorted ((db.store.create name kind).documents C)
    rw [Store.documents_create]
    exact h.ordered C
  collections := by
    show NameMap.Sorted (db.store.create name kind).collections
    unfold Store.create
    split
    · exact h.collections
    · exact h.collections.insert name _

theorem execute (h : db.Identified) (t : Transaction) : (db.execute t).2.Identified := by
  have le := lastKey_le_execute db t
  rw [execute_eq] at le ⊢
  rcases ho : outcome (Run.performAll t.write t.params t.statements) (Run.start db) with ⟨_ | _, run⟩
  · rw [ho] at le
    exact ⟨h.named, h.keyed, fun C e he => (h.filed C e he).mono le, h.ordered, h.collections⟩
  · have p := Run.performsAll_of_ok t.statements ho
    refine ⟨fun there => ?_, p.keyed h.keyed, p.filed h.filed, p.ordered h.ordered,
      p.sorted_collections h.collections⟩
    obtain ⟨c, before, _⟩ := p.frame.kind_eq there
    exact h.named before

theorem apply {command : Command} (h : db.Identified) (proper : command.Named) :
    (command.apply db).Identified := by
  cases command with
  | createCollection name kind => exact h.create proper kind
  | dropAll => exact empty db.lastKey
  | execute t => exact h.execute t

theorem after {commands : List Command} (h : db.Identified)
    (proper : ∀ command ∈ commands, command.Named) : (db.after commands).Identified := by
  induction commands generalizing db with
  | nil => exact h
  | cons command rest ih =>
      exact ih (h.apply (proper command List.mem_cons_self)) fun c hc =>
        proper c (List.mem_cons_of_mem command hc)

end Database.Identified

/-! ### Looking up and scanning -/

/-- All documents of all collections that have an id. -/
def Store.withId (store : Store) (i : String) : List Document :=
  store.collections.flatMap fun e => e.2.rows.filter fun d => d.text? Field.id == some i

/-- The document of an id, if its collection is one of some. -/
def Store.documentIn? (store : Store) (names : List String) (i : String) : Option Document :=
  if (DocumentId.mk i).collection ∈ names then store.document? i else none

theorem Store.get?_documents (store : Store) (C key : String) :
    NameMap.get? (store.documents C) key = (store.collection? C).bind fun c => c.get? key := by
  unfold documents
  cases store.collection? C with
  | none => rfl
  | some c => rfl

theorem Store.rows_eq {names : List String}
    (there : ∀ C ∈ names, (store.collection? C).isSome = true) :
    store.rows names = .ok (names.flatMap fun C => NameMap.values (store.documents C)) := by
  have found : names.mapM store.collection =
      .ok (names.map fun C => (store.collection? C).getD ⟨.document, []⟩) := by
    refine mapM_eq_ok fun C hC => ?_
    obtain ⟨c, hc⟩ := Option.isSome_iff_exists.mp (there C hC)
    simp [collection, hc]
  rw [rows, found]
  show Except.ok (List.flatMap Collection.rows _) = _
  rw [List.flatMap_map]
  refine congrArg Except.ok ?_
  refine List.flatMap_congr fun C hC => ?_
  obtain ⟨c, hc⟩ := Option.isSome_iff_exists.mp (there C hC)
  simp [Collection.rows, hc, documents_eq hc]

theorem Store.exists_of_mem_documents {e : String × Document} (he : e ∈ store.documents C) :
    ∃ c, store.collection? C = some c := by
  unfold documents at he
  cases there : store.collection? C with
  | none =>
      rw [there] at he
      cases he
  | some c => exact ⟨c, rfl⟩

/-- An id of a collection that is not there means nothing. -/
theorem Store.document?_eq_none (absent : (DocumentId.mk i).collection ∉ store.names) :
    store.document? i = none := by
  refine Option.not_isSome_iff_eq_none.mp fun found => absent ?_
  obtain ⟨d, parsed, _, stored⟩ := isSome_document?_iff.mp found
  obtain ⟨c, there⟩ := exists_of_mem_documents stored
  rw [← eq_of_parse parsed]
  exact List.mem_map_of_mem (NameMap.mem_of_get? there)

theorem flatMap_ite {α : Type} (names : List String) (a : String) (l : List α) :
    (names.flatMap fun n => if a = n then l else []) = (List.replicate (names.count a) l).flatten := by
  induction names with
  | nil => rfl
  | cons n names ih =>
      rw [List.flatMap_cons, ih]
      by_cases same : a = n
      · simp [same, List.replicate_succ]
      · simp [same, Ne.symm same]

theorem take_one_replicate {α : Type} (n : Nat) (o : Option α) :
    (List.replicate n o.toList).flatten.take 1 = if n = 0 then [] else o.toList := by
  cases n with
  | zero => rfl
  | succ n =>
      cases o with
      | none => simp
      | some a => simp [List.replicate_succ]

/-- A condition that a field equals a text. -/
theorem holds_fieldEquals_str (d : Document) (field s : String) :
    Condition.allHold d [Schema.fieldEquals field (.str s)] = (d.text? field == some s) := by
  have equal : ∀ v : Json, (v.order (.str s) == .eq) = true ↔ v = .str s := by
    intro v
    cases v <;> simp [Json.order, Json.sorted, Json.compareSorted, Json.kindRank]
  rw [Bool.eq_iff_iff, beq_iff_eq, ← Document.read_eq_str, ← equal]
  simp [Condition.allHold, Condition.holds, Schema.fieldEquals, Comparison.accepts]

namespace Database.Identified

/-- A document has an id if the id is of the place where it is stored. -/
theorem id_eq_iff {e : String × Document} (h : db.Identified) (he : e ∈ db.store.documents C) :
    Document.text? e.2 Field.id = some i ↔
      ∃ d, DocumentId.parse i = .ok d ∧ d.collection = C ∧ d.key = e.1 := by
  obtain ⟨c, there⟩ := Store.exists_of_mem_documents he
  obtain ⟨n, _, _, number⟩ := (h.filed C e he).given
  have text : Document.text? e.2 Field.id = some (DocumentId.ofKey C e.1).text := by
    rw [Document.text?, h.keyed C e he]
    rfl
  rw [text, Option.some_inj]
  exact text_ofKey_eq_iff (h.named there) (number ▸ toString_ne_empty n)

/-- The documents of a collection with an id: the one that the id means, if it is an id of the
collection. -/
theorem filter_id (h : db.Identified) (C i : String) :
    ((NameMap.values (db.store.documents C)).filter fun d => Document.text? d Field.id == some i) =
      if (DocumentId.mk i).collection = C then (db.store.document? i).toList else [] := by
  rw [NameMap.values, List.filter_map]
  cases parsed : DocumentId.parse i with
  | error =>
      have none :
          ((db.store.documents C).filter fun e => Document.text? e.2 Field.id == some i) = [] := by
        refine List.filter_eq_nil_iff.mpr fun e he hit => ?_
        obtain ⟨d, read, _⟩ := (h.id_eq_iff he).mp (beq_iff_eq.mp hit)
        cases parsed.symm.trans read
      simp [Function.comp_def, none, Store.document?, parsed]
  | ok d =>
      obtain rfl := eq_of_parse parsed
      have test : ∀ e ∈ db.store.documents C, (Document.text? e.2 Field.id == some i) =
          (decide ((DocumentId.mk i).collection = C) && e.1 == (DocumentId.mk i).key) := by
        intro e he
        rw [Bool.eq_iff_iff, beq_iff_eq, h.id_eq_iff he, Bool.and_eq_true, decide_eq_true_eq,
          beq_iff_eq]
        constructor
        · rintro ⟨d, read, same, key⟩
          cases parsed.symm.trans read
          exact ⟨same, key.symm⟩
        · rintro ⟨same, key⟩
          exact ⟨_, parsed, same, key.symm⟩
      rw [Function.comp_def, List.filter_congr test]
      split
      · rename_i same
        have found : db.store.document? i =
            NameMap.get? (db.store.documents C) (DocumentId.mk i).key := by
          rw [Store.get?_documents, ← same, Store.document?, parsed]
        simpa [same, found, NameMap.values] using (h.ordered C).values_filter _
      · rename_i other
        simp [other]

/-- Among all documents, an id belongs to the one that it means and to no other. -/
theorem withId_eq (h : db.Identified) (i : String) :
    db.store.withId i = (db.store.document? i).toList := by
  have parts : db.store.withId i = db.store.names.flatMap fun C =>
      if (DocumentId.mk i).collection = C then (db.store.document? i).toList else [] := by
    unfold Store.withId Store.names
    rw [List.flatMap_map]
    refine List.flatMap_congr fun e he => ?_
    rw [← h.filter_id e.1 i, Store.documents_eq (h.collections.get?_of_mem he)]
    rfl
  have nodup : db.store.names.Nodup := NameSet.Sorted.nodup h.collections
  rw [parts, flatMap_ite]
  by_cases there : (DocumentId.mk i).collection ∈ db.store.names
  · simp [List.count_eq_one_of_mem nodup there]
  · simp [List.count_eq_zero_of_not_mem there, Store.document?_eq_none there]

/-- A collection has an id if the id is of the collection and means a document. -/
theorem hasId_iff (h : db.Identified) :
    db.store.hasId i C = true ↔
      (DocumentId.mk i).collection = C ∧ (db.store.document? i).isSome = true := by
  have rows : db.store.hasId i C =
      (NameMap.values (db.store.documents C)).any fun d => Document.text? d Field.id == some i := by
    unfold Store.hasId Store.documents
    cases db.store.collection? C with
    | none => rfl
    | some c => rfl
  have hit : db.store.hasId i C = true ↔ ((NameMap.values (db.store.documents C)).filter fun d =>
      Document.text? d Field.id == some i) ≠ [] := by
    rw [rows]
    simp [List.filter_eq_nil_iff]
  rw [hit, h.filter_id]
  split
  · rename_i same
    simp [same, Option.isSome_iff_ne_none]
  · rename_i other
    simp [other]

/-- A check that scans collections for an id finds what the id means. -/
theorem missing_eq {names : List String} {r : Ref} {scope : Scope} (h : db.Identified)
    (there : ∀ C ∈ names, (db.store.collection? C).isSome = true)
    (value : r.value scope = .ok (.str i)) :
    (Check.missing r names).violated db.store scope =
      .ok (db.store.documentIn? names i).isNone := by
  have any : names.any (db.store.hasId i) = (db.store.documentIn? names i).isSome := by
    rw [Bool.eq_iff_iff, List.any_eq_true, Store.documentIn?]
    simp only [h.hasId_iff]
    split
    · rename_i mem
      constructor
      · rintro ⟨C, _, _, found⟩
        exact found
      · exact fun found => ⟨_, mem, rfl, found⟩
    · rename_i other
      constructor
      · rintro ⟨C, hC, rfl, _⟩
        exact absurd hC other
      · intro found
        cases found
  rw [violated_missing value there, any, Option.not_isSome]

/-- The first document with an id in some collections is the one that the id means. -/
theorem scan_eq (h : db.Identified) (names : List String) (i : String) :
    ((names.flatMap fun C => NameMap.values (db.store.documents C)).filter fun d =>
      Document.text? d Field.id == some i).take 1 = (db.store.documentIn? names i).toList := by
  simp only [List.filter_flatMap, h.filter_id]
  rw [flatMap_ite, take_one_replicate, Store.documentIn?]
  by_cases mem : (DocumentId.mk i).collection ∈ names
  · rw [if_neg (Nat.ne_of_gt (List.count_pos_iff.mpr mem)), if_pos mem]
  · rw [if_pos (List.count_eq_zero_of_not_mem mem), if_neg mem]
    rfl

/-- A query that scans collections for an id finds what the id means. -/
theorem answer_eq {s : Schema} {type : String} {q : ReadQuery} (h : db.Identified)
    (made : s.getQuery i type = .ok q)
    (there : ∀ C ∈ q.collections, (db.store.collection? C).isSome = true) :
    db.store.answer q = .ok ((db.store.documentIn? q.collections i).map Json.obj).toList := by
  obtain ⟨names, _, made⟩ := exists_of_andThen_ok made
  cases made
  have rows : db.store.rows names = _ := Store.rows_eq there
  simp only [Store.answer, ReadQuery.ofSource, Store.sourceRows, rows, bind, Except.bind,
    Store.rowsAfter, Store.limited, holds_fieldEquals_str]
  rw [if_neg (by simp), h.scan_eq]
  show Except.ok _ = Except.ok ((db.store.documentIn? names i).map Json.obj).toList
  cases db.store.documentIn? names i with
  | none => rfl
  | some d => rfl

end Database.Identified

/-! ### All databases -/

/-- A database in which documents are where their ids say. -/
structure Database.Indexed (db : Database) : Prop where
  /-- A document holds its key and its id; its key is a number up to the last key. -/
  stored : ∀ C, ∀ e ∈ db.store.documents C,
    Record.get? e.2 Field.key = some (.str e.1) ∧
      Record.get? e.2 Field.id = some (.str (C ++ "/" ++ e.1)) ∧
        ∃ n, 1 ≤ n ∧ n ≤ db.lastKey ∧ e.1 = toString n
  /-- Looking an id up gives the only document of all collections that has it. -/
  lookup : ∀ i d, db.store.document? i = some d ↔ db.store.withId i = [d]
  /-- Scanning collections in a check comes to the same. -/
  check : ∀ (i : String) (names : List String) (r : Ref) (scope : Scope),
    (∀ C ∈ names, (db.store.collection? C).isSome = true) → r.value scope = .ok (.str i) →
      (Check.missing r names).violated db.store scope =
        .ok (db.store.documentIn? names i).isNone
  /-- Scanning collections in a query comes to the same. -/
  query : ∀ (s : Schema) (i type : String) (q : ReadQuery), s.getQuery i type = .ok q →
    (∀ C ∈ q.collections, (db.store.collection? C).isSome = true) →
      db.store.answer q = .ok ((db.store.documentIn? q.collections i).map Json.obj).toList

theorem Database.Identified.indexed (h : db.Identified) : db.Indexed where
  stored C e he := by
    obtain ⟨key, given⟩ := h.filed C e he
    exact ⟨key, h.keyed C e he, given⟩
  lookup i d := by
    rw [h.withId_eq]
    cases db.store.document? i with
    | none => simp
    | some d' => simp
  check _ _ _ _ there value := h.missing_eq there value
  query _ _ _ _ made there := h.answer_eq made there

/-- Whatever an engine has been told to do, if the names of new collections are not empty and have no
slash: documents are where their ids say, and the keys given out are the numbers up to the last key, each
one once, those of transactions that failed and of collections that were dropped among them. -/
theorem after_indexed (commands : List Command) (proper : ∀ command ∈ commands, command.Named) :
    (Database.empty.after commands).Indexed ∧
      Database.empty.givenBy commands = keysBetween 0 (Database.empty.after commands).lastKey ∧
      (Database.empty.givenBy commands).Nodup := by
  have given := (Database.empty.givenBy_eq commands).2
  refine ⟨((Database.Identified.empty 0).after proper).indexed, given, ?_⟩
  rw [given]
  exact nodup_keysBetween _ _

/-- A transaction on guests whose documents claim a key and an id of their own. -/
def guestbook (statements : List Statement) : Command :=
  .execute
    { write := ["Guest"]
      read := []
      statements := statements
      params := [("body", .obj [("_key", .str "9"), ("name", .str "Ann"), ("_id", .str "Guest/9")]),
        ("guest", .str "Guest/3")] }

/-- Inserts a guest. -/
def arrival : Statement :=
  .insert "guest" "Guest" (.param "body") [] none

/-- A guest is inserted and dropped, one is inserted by a transaction that fails, and a third one stays
and is updated. -/
def visits : List Command :=
  [.createCollection "Guest" .document, guestbook [arrival], .dropAll,
    .createCollection "Guest" .document, guestbook [arrival, .setResult "gone" (.doc "nobody")],
    guestbook [arrival, .update "guest" "Guest" (.param "guest") (.param "body") []]]

theorem after_indexed_visits :
    (∀ command ∈ visits, command.Named) ∧ Database.empty.givenBy visits = ["1", "2", "3"] ∧
      (["Guest/1", "Guest/2", "Guest/3", "Guest/9"].map fun i =>
        ((Database.empty.after visits).store.withId i).length) = [0, 0, 1, 0] ∧
      (Database.empty.after visits).Indexed ∧ (Database.empty.givenBy visits).Nodup := by
  have proper : ∀ command ∈ visits, command.Named := by decide +kernel
  obtain ⟨indexed, _, nodup⟩ := after_indexed visits proper
  exact ⟨proper, by decide +kernel, by decide +kernel, indexed, nodup⟩

end DocGraph
