import DocGraph.Proofs.Emission
import DocGraph.Proofs.Run

/-! # What statements do to a store

A statement under a guard does no more than its parts do, so what all parts keep, a script keeps
(`PerformsAll.invariant`). A variable keeps its value unless some part sets it, and a collection gets
no new documents unless some part writes to it. Documents stay in order of their keys (`Store.Ordered`).
Every document is stored under the key in its id (`Store.Keyed`), and this is so in every database that an
engine can come to. -/

namespace DocGraph

variable {write : NameSet} {params : Record Json} {s : Statement} {ss tt : List Statement}
  {run run' : Run}

/-! ### Parts of a statement -/

mutual

/-- A statement, or those under its guard. -/
def Statement.parts : Statement → List Statement
  | .guarded _ body => partsOf body
  | s => [s]

/-- The parts of several statements. -/
def partsOf : List Statement → List Statement
  | [] => []
  | s :: rest => s.parts ++ partsOf rest

end

theorem mem_partsOf {b : Statement} : b ∈ partsOf ss ↔ ∃ s ∈ ss, b ∈ s.parts := by
  induction ss with
  | nil => simp [partsOf]
  | cons s ss ih => simp [partsOf, ih]

theorem partsOf_append (ss tt : List Statement) : partsOf (ss ++ tt) = partsOf ss ++ partsOf tt := by
  induction ss with
  | nil => rfl
  | cons s ss ih => rw [List.cons_append, partsOf, partsOf, ih, List.append_assoc]

mutual

theorem Statement.not_guarded_of_mem_parts : ∀ (s : Statement) {b : Statement}, b ∈ s.parts →
    ∀ condition body, b ≠ .guarded condition body
  | .guarded _ body, _, h => not_guarded_of_mem_partsOf body h
  | .comment _, _, h | .insert _ _ _ _ _, _, h | .update _ _ _ _ _, _, h | .remove _ _ _, _, h
  | .removeEdges _ _ _, _, h | .bind _ _, _, h | .setResult _ _, _, h | .assert _ _, _, h
  | .fail _, _, h => by
      rw [List.mem_singleton.mp h]
      exact fun _ _ e => nomatch e

theorem not_guarded_of_mem_partsOf : ∀ (ss : List Statement) {b : Statement}, b ∈ partsOf ss →
    ∀ condition body, b ≠ .guarded condition body
  | [], _, h => nomatch h
  | s :: rest, _, h => by
      rcases List.mem_append.mp h with h | h
      · exact Statement.not_guarded_of_mem_parts s h
      · exact not_guarded_of_mem_partsOf rest h

end

/-- A statement without a guard is its only part. -/
theorem forall_partsOf_one {P : Statement → Prop} (plain : s.parts = [s]) (h : P s) :
    ∀ b ∈ partsOf [s], P b := by
  intro b hb
  rw [partsOf, plain] at hb
  rw [List.mem_singleton.mp hb]
  exact h

theorem forall_partsOf_existsCheck {P : Statement → Prop} {id : Ref} {type label : String}
    {collections : List String} (comment : P (.comment label))
    (assert : ∀ message, P (.assert (.missing id collections) message)) :
    ∀ b ∈ partsOf (existsCheck id type label collections), P b := by
  intro b hb
  rcases List.mem_cons.mp hb with rfl | hb
  · exact comment
  · rw [List.mem_singleton.mp hb]
    exact assert _

/-- The edges at a document are cleared one collection after the other. -/
theorem forall_partsOf_clear {P : Statement → Prop} {condition endpoint : Ref} {which : EdgeMatch}
    {collections : List String} (h : ∀ C ∈ collections, P (.removeEdges C endpoint which)) :
    ∀ b ∈ partsOf [.guarded condition (collections.map fun C => .removeEdges C endpoint which)],
      P b := by
  intro b hb
  rw [partsOf, partsOf, List.append_nil] at hb
  obtain ⟨s, hs, hb⟩ := mem_partsOf.mp hb
  obtain ⟨C, hC, rfl⟩ := List.mem_map.mp hs
  rw [List.mem_singleton.mp hb]
  exact h C hC

theorem partsOf_eq_self (plain : ∀ s ∈ ss, s.parts = [s]) : partsOf ss = ss := by
  induction ss with
  | nil => rfl
  | cons s ss ih =>
      rw [partsOf, plain s List.mem_cons_self, ih fun t ht => plain t (List.mem_cons_of_mem s ht)]
      rfl

/-- What is deferred is the assertions, under a guard or not. -/
theorem partsOf_deferral (guard? : Option Ref) (plain : ∀ s ∈ ss, s.parts = [s]) :
    partsOf (deferral ss guard?) = ss := by
  cases guard? with
  | none => exact partsOf_eq_self plain
  | some condition =>
      simp only [deferral]
      split
      · rename_i empty
        rw [List.isEmpty_iff.mp empty]
        rfl
      · rw [partsOf, partsOf, List.append_nil, Statement.parts]
        exact partsOf_eq_self plain

/-- Whenever a statement succeeds, it keeps a property of runs. -/
def Keeps (write : NameSet) (params : Record Json) (I : Run → Prop) (s : Statement) : Prop :=
  ∀ run run', Performs write params s run run' → I run → I run'

mutual

theorem Performs.invariant {I : Run → Prop} : ∀ (s : Statement) {run run' : Run},
    (∀ b ∈ s.parts, Keeps write params I b) → Performs write params s run run' → I run → I run'
  | .guarded _ body, _, _, keeps, p, h => by
      cases p with
      | pass => exact h
      | enter _ _ inner => exact PerformsAll.invariant body keeps inner h
  | .comment _, _, _, keeps, p, h | .insert _ _ _ _ _, _, _, keeps, p, h
  | .update _ _ _ _ _, _, _, keeps, p, h | .remove _ _ _, _, _, keeps, p, h
  | .removeEdges _ _ _, _, _, keeps, p, h | .bind _ _, _, _, keeps, p, h
  | .setResult _ _, _, _, keeps, p, h | .assert _ _, _, _, keeps, p, h
  | .fail _, _, _, keeps, p, h => keeps _ (List.mem_singleton.mpr rfl) _ _ p h

/-- What all parts keep, a script keeps. -/
theorem PerformsAll.invariant {I : Run → Prop} : ∀ (ss : List Statement) {run run' : Run},
    (∀ b ∈ partsOf ss, Keeps write params I b) → PerformsAll write params ss run run' →
      I run → I run'
  | [], _, _, _, p, h => by
      cases p
      exact h
  | s :: rest, _, _, keeps, p, h => by
      cases p with
      | cons first others =>
          have h₁ := Performs.invariant s (fun b hb => keeps b (List.mem_append_left _ hb)) first h
          exact PerformsAll.invariant rest (fun b hb => keeps b (List.mem_append_right _ hb)) others h₁

end

/-- A script runs in two parts. -/
theorem performsAll_append :
    PerformsAll write params (ss ++ tt) run run' ↔
      ∃ mid, PerformsAll write params ss run mid ∧ PerformsAll write params tt mid run' := by
  induction ss generalizing run with
  | nil =>
      refine ⟨fun p => ⟨run, .nil, p⟩, ?_⟩
      rintro ⟨mid, p, q⟩
      cases p
      exact q
  | cons s ss ih =>
      refine ⟨fun p => ?_, ?_⟩
      · cases p with
        | cons first others =>
            obtain ⟨mid, p, q⟩ := ih.mp others
            exact ⟨mid, .cons first p, q⟩
      · rintro ⟨mid, p, q⟩
        cases p with
        | cons first others => exact .cons first (ih.mpr ⟨mid, others, q⟩)

theorem performsAll_singleton :
    PerformsAll write params [s] run run' ↔ Performs write params s run run' := by
  refine ⟨fun p => ?_, fun p => .cons p .nil⟩
  cases p with
  | cons first others =>
      cases others
      exact first

/-! ### Variables -/

/-- A variable that no part sets keeps its value. -/
theorem PerformsAll.get?_vars_eq {v : String} (p : PerformsAll write params ss run run')
    (h : ∀ b ∈ partsOf ss, ∀ x, b.binding? = some x → x.1 ≠ v) :
    run'.vars.get? v = run.vars.get? v := by
  refine p.invariant (I := fun r => r.vars.get? v = run.vars.get? v) ss (fun b hb r r' q hr => ?_) rfl
  have plain := not_guarded_of_mem_partsOf ss hb
  have other := h b hb
  cases q with
  | insert | update | remove | miss | bind =>
      show Record.get? (r.vars.insert _ _) v = _
      rw [Record.get?_insert, if_neg (Ne.symm (other _ rfl))]
      exact hr
  | comment | removeEdges | setResult | assert => exact hr
  | pass | enter => exact absurd rfl (plain _ _)

/-! ### Documents -/

theorem Store.collection?_set (s : Store) (name other : String) (c : Collection) :
    (s.set name c).collection? other = if other = name then some c else s.collection? other :=
  NameMap.get?_insert s.collections name c other

/-- The documents of a collection by key; there are none if there is no collection. -/
def Store.documents (s : Store) (name : String) : NameMap Document :=
  ((s.collection? name).map Collection.documents).getD []

theorem Store.documents_eq {s : Store} {name : String} {c : Collection}
    (h : s.collection? name = some c) : s.documents name = c.documents := by
  simp [documents, h]

theorem Store.documents_set (s : Store) (name other : String) (c : Collection) :
    (s.set name c).documents other = if other = name then c.documents else s.documents other := by
  unfold documents
  rw [collection?_set]
  split <;> rfl

/-- A collection that is replaced by a smaller one. -/
theorem Store.mem_of_mem_documents_set {s : Store} {name other : String} {c c' : Collection}
    {e : String × Document} (there : s.collection? name = some c)
    (smaller : ∀ e ∈ c'.documents, e ∈ c.documents) (he : e ∈ (s.set name c').documents other) :
    e ∈ s.documents other := by
  rw [documents_set] at he
  split at he
  · rename_i h
    rw [h, documents_eq there]
    exact smaller e he
  · exact he

/-- A collection into which one document is put. -/
theorem Store.eq_or_mem_of_mem_documents_put {s : Store} {name other key : String} {c : Collection}
    {d : Document} {e : String × Document} (there : s.collection? name = some c)
    (he : e ∈ (s.set name (c.put key d)).documents other) :
    other = name ∧ e = (key, d) ∨ e ∈ s.documents other := by
  rw [documents_set] at he
  split at he
  · rename_i same
    rcases NameMap.eq_or_mem_of_mem_insert he with new | old
    · exact Or.inl ⟨same, new⟩
    · rw [same, documents_eq there]
      exact Or.inr old
  · exact Or.inr he

/-- A collection that no part puts a document into gets none. -/
theorem PerformsAll.mem_documents {name : String} {e : String × Document}
    (p : PerformsAll write params ss run run') (h : ∀ b ∈ partsOf ss, b.target? ≠ some name)
    (he : e ∈ run'.store.documents name) : e ∈ run.store.documents name := by
  refine p.invariant (I := fun r => e ∈ r.store.documents name → e ∈ run.store.documents name) ss
    (fun b hb r r' q hr he => ?_) id he
  have plain := not_guarded_of_mem_partsOf ss hb
  have other := h b hb
  cases q with
  | insert | update =>
      rw [Store.documents_set, if_neg fun e => other (congrArg some e.symm)] at he
      exact hr he
  | remove _ _ there =>
      exact hr (Store.mem_of_mem_documents_set there (fun e he => (List.mem_filter.mp he).1) he)
  | removeEdges _ _ there =>
      exact hr (Store.mem_of_mem_documents_set there (fun e he => (List.mem_filter.mp he).1) he)
  | comment | bind | miss | setResult | assert => exact hr he
  | pass | enter => exact absurd rfl (plain _ _)

/-! ### Order -/

/-- The documents of every collection are in order of their keys. -/
def Store.Ordered (s : Store) : Prop :=
  ∀ name, NameMap.Sorted (s.documents name)

theorem Store.Ordered.of_empty {s : Store} (h : ∀ name, s.documents name = []) : s.Ordered := by
  intro name
  rw [h name]
  exact List.Pairwise.nil

theorem Store.Ordered.set {s : Store} {c : Collection} (h : s.Ordered) (name : String)
    (sorted : NameMap.Sorted c.documents) : (s.set name c).Ordered := by
  intro other
  rw [documents_set]
  split
  · exact sorted
  · exact h other

theorem Store.Ordered.sorted {s : Store} {name : String} {c : Collection} (h : s.Ordered)
    (there : s.collection? name = some c) : NameMap.Sorted c.documents :=
  documents_eq there ▸ h name

theorem PerformsAll.ordered (p : PerformsAll write params ss run run') (h : run.store.Ordered) :
    run'.store.Ordered := by
  refine p.invariant (I := fun r => r.store.Ordered) ss (fun b hb r r' q hr => ?_) h
  cases q with
  | insert _ _ _ there | update _ _ _ there => exact hr.set _ ((hr.sorted there).insert _ _)
  | remove _ _ there | removeEdges _ _ there => exact hr.set _ ((hr.sorted there).filter _)
  | comment | bind | miss | setResult | assert => exact hr
  | pass | enter => exact absurd rfl (not_guarded_of_mem_partsOf ss hb _ _)

/-! ### Ids -/

/-- The id of every document is made of its collection and the key it is stored under. -/
def Store.Keyed (s : Store) : Prop :=
  ∀ name, ∀ e ∈ s.documents name,
    Record.get? e.2 Field.id = some (.str (DocumentId.ofKey name e.1).text)

theorem Document.read_of_get? {d : Document} {field : String} {v : Json}
    (get : Record.get? d field = some v) : d.read field = v := by
  rw [read, get]
  rfl

theorem Store.Keyed.id_eq {s : Store} {name : String} {e : String × Document} (h : s.Keyed)
    (he : e ∈ s.documents name) : Document.id e.2 = .str (DocumentId.ofKey name e.1).text :=
  Document.read_of_get? (h name e he)

theorem Store.Keyed.empty : Store.empty.Keyed :=
  fun _ _ h => nomatch h

/-- Putting a document under the key in its id. -/
theorem Store.Keyed.put {s : Store} {name key : String} {c : Collection} {d : Document} (h : s.Keyed)
    (there : s.collection? name = some c)
    (keyed : Record.get? d Field.id = some (.str (DocumentId.ofKey name key).text)) :
    (s.set name (c.put key d)).Keyed := by
  intro other e he
  rcases eq_or_mem_of_mem_documents_put there he with ⟨rfl, rfl⟩ | he
  · exact keyed
  · exact h other e he

theorem Record.get?_insertAll {α : Type} {r s : List (String × α)} {name : String}
    (h : ∀ e ∈ s, e.1 ≠ name) : get? (insertAll r s) name = get? r name := by
  induction s generalizing r with
  | nil => rfl
  | cons e s ih =>
      have he := h e List.mem_cons_self
      show get? (insertAll (insert r e.1 e.2) s) name = _
      rw [ih fun e he => h e (List.mem_cons_of_mem _ he), get?_insert, if_neg (Ne.symm he)]

/-- A name that is set to one value only. -/
theorem Record.get?_insertAll_of_mem {α : Type} {d es : List (String × α)} {e : String × α} (he : e ∈ es)
    (only : ∀ e' ∈ es, e'.1 = e.1 → e'.2 = e.2) : get? (insertAll d es) e.1 = some e.2 := by
  induction es generalizing d with
  | nil => cases he
  | cons first rest ih =>
      show get? (insertAll (insert d first.1 first.2) rest) e.1 = _
      by_cases later : ∃ e' ∈ rest, e'.1 = e.1
      · obtain ⟨e', he', name⟩ := later
        have same : e' = e := Prod.ext name (only e' (List.mem_cons_of_mem _ he') name)
        exact ih (same ▸ he') fun e' he' => only e' (List.mem_cons_of_mem _ he')
      · have last : e = first := by
          rcases List.mem_cons.mp he with here | there
          · exact here
          · exact absurd ⟨e, there, rfl⟩ later
        rw [get?_insertAll fun e' he' name => later ⟨e', he', name⟩, get?_insert, last, if_pos rfl]

theorem get?_id_keyed (collection key : String) (d : Document) :
    Record.get? (Run.keyed collection key d) Field.id =
      some (.str (DocumentId.ofKey collection key).text) := by
  rw [Run.keyed, Record.get?_insert, if_pos rfl]

/-- A change of fields leaves the key and the id. -/
theorem get?_merge {field : String} (d patch : Document)
    (reserved : field = Field.id ∨ field = Field.key) :
    Record.get? (Run.merge d patch) field = Record.get? d field := by
  refine Record.get?_insertAll fun e he => ?_
  have other := (List.mem_filter.mp he).2
  simp only [Bool.and_eq_true, bne_iff_ne] at other
  rcases reserved with rfl | rfl
  · exact other.1
  · exact other.2

theorem get?_id_merge (d patch : Document) :
    Record.get? (Run.merge d patch) Field.id = Record.get? d Field.id :=
  get?_merge d patch (Or.inl rfl)

theorem PerformsAll.keyed (p : PerformsAll write params ss run run') (h : run.store.Keyed) :
    run'.store.Keyed := by
  refine p.invariant (I := fun r => r.store.Keyed) ss (fun b hb r r' q hr => ?_) h
  have plain := not_guarded_of_mem_partsOf ss hb
  cases q with
  | insert _ _ _ there => exact hr.put there (get?_id_keyed _ _ _)
  | @update _ _ name key _ _ _ c _ old _ _ _ _ there _ found =>
      have hold := hr name (key, old) (Store.documents_eq there ▸ NameMap.mem_of_get? found)
      exact hr.put there ((get?_id_merge old _).trans hold)
  | remove _ _ there =>
      intro name e he
      exact hr name e
        (Store.mem_of_mem_documents_set there (fun e he => (List.mem_filter.mp he).1) he)
  | removeEdges _ _ there =>
      intro name e he
      exact hr name e
        (Store.mem_of_mem_documents_set there (fun e he => (List.mem_filter.mp he).1) he)
  | comment | bind | miss | setResult | assert => exact hr
  | pass | enter => exact absurd rfl (plain _ _)

/-- A transaction either leaves the store alone or has run to its end. -/
theorem execute_store (db : Database) (t : Transaction) :
    (db.execute t).2.store = db.store ∨
      ∃ run, PerformsAll t.write t.params t.statements (Run.start db) run ∧
        (db.execute t).2.store = run.store := by
  rw [execute_eq]
  rcases ho : outcome (Run.performAll t.write t.params t.statements) (Run.start db) with ⟨e | _, run⟩
  · exact Or.inl rfl
  · exact Or.inr ⟨run, Run.performsAll_of_ok _ ho, rfl⟩

/-- A transaction that succeeds has run to its end. -/
theorem exists_run_of_execute_ok {db : Database} {t : Transaction} {res : Record Json}
    (h : (db.execute t).1 = .ok res) :
    ∃ run, PerformsAll t.write t.params t.statements (Run.start db) run ∧
      db.execute t = (.ok res, ⟨run.store, run.lastKey⟩) ∧ res = run.result := by
  rw [execute_eq] at h ⊢
  rcases ho : outcome (Run.performAll t.write t.params t.statements) (Run.start db) with ⟨e | _, run⟩
  · rw [ho] at h
    cases h
  · rw [ho] at h
    cases h
    exact ⟨run, Run.performsAll_of_ok _ ho, rfl, rfl⟩

/-! ### Databases -/

/-- A new collection has no documents. -/
theorem Store.documents_create (s : Store) (name other : String) (kind : CollectionKind) :
    (s.create name kind).documents other = s.documents other := by
  unfold create
  split
  · rfl
  · rename_i gone
    rw [documents_set]
    split
    · rename_i same
      rw [same, documents, gone]
      rfl
    · rfl

theorem Store.documents_foldl_create (s : Store) (names : List String) (other : String)
    (kind : CollectionKind) :
    (names.foldl (fun st name => st.create name kind) s).documents other = s.documents other := by
  induction names generalizing s with
  | nil => rfl
  | cons name names ih => exact (ih _).trans (s.documents_create name other kind)

/-- A collection that is there after adding one was there before, or is the one added. -/
theorem Store.old_or_new_of_create {s : Store} {name other : String} {kind : CollectionKind}
    {c : Collection} (h : (s.create name kind).collection? other = some c) :
    s.collection? other = some c ∨ other = name ∧ c.kind = kind := by
  unfold create at h
  split at h
  · exact Or.inl h
  · rw [collection?_set] at h
    split at h
    · rename_i same
      cases h
      exact Or.inr ⟨same, rfl⟩
    · exact Or.inl h

theorem Store.old_or_mem_of_foldl_create {s : Store} {names : List String} {name : String}
    {kind : CollectionKind} {c : Collection}
    (h : (names.foldl (fun st name => st.create name kind) s).collection? name = some c) :
    s.collection? name = some c ∨ name ∈ names ∧ c.kind = kind := by
  induction names generalizing s with
  | nil => exact Or.inl h
  | cons first names ih =>
      rcases ih h with old | ⟨later, same⟩
      · rcases old_or_new_of_create old with old | ⟨rfl, same⟩
        · exact Or.inl old
        · exact Or.inr ⟨List.mem_cons_self, same⟩
      · exact Or.inr ⟨List.mem_cons_of_mem first later, same⟩

/-- Setting up the collections of a schema drops all documents or none, and keeps the last key. -/
theorem documents_of_setup {db db' : Database} {schema : Schema} {drop : Bool}
    (done : db.setup schema drop = .ok db') :
    (∀ name, db'.store.documents name = if drop then [] else db.store.documents name) ∧
      db'.lastKey = db.lastKey := by
  unfold Database.setup at done
  rcases edges : schema.edgeCollections with _ | edges
  · rw [edges] at done
    cases done
  · rw [edges] at done
    cases done
    refine ⟨fun name => ?_, rfl⟩
    dsimp only
    rw [Store.documents_foldl_create, Store.documents_foldl_create]
    cases drop <;> rfl

/-- Setting up the collections of a schema adds no documents. -/
theorem mem_documents_of_setup {db db' : Database} {schema : Schema} {drop : Bool}
    (done : db.setup schema drop = .ok db') {name : String} {e : String × Document}
    (he : e ∈ db'.store.documents name) : e ∈ db.store.documents name := by
  rw [(documents_of_setup done).1 name] at he
  cases drop with
  | true => cases he
  | false => exact he

/-- The databases that an engine can come to. -/
inductive Database.Reachable : Database → Prop
  | empty : Reachable Database.empty
  | execute {db : Database} (before : db.Reachable) (t : Transaction) : Reachable (db.execute t).2
  | createCollection {db : Database} (before : db.Reachable) (name : String) (kind : CollectionKind) :
      Reachable (db.createCollection name kind).2
  | dropAll {db : Database} (before : db.Reachable) : Reachable db.dropAll
  | setup {db db' : Database} {schema : Schema} {drop : Bool} (before : db.Reachable)
      (done : db.setup schema drop = .ok db') : Reachable db'

theorem Database.Reachable.keyed {db : Database} (h : db.Reachable) : db.store.Keyed := by
  induction h with
  | empty | dropAll => exact Store.Keyed.empty
  | @execute db _ t ih =>
      rcases execute_store db t with same | ⟨run, p, ran⟩
      · rw [same]
        exact ih
      · rw [ran]
        exact p.keyed ih
  | createCollection _ name kind ih =>
      intro other e he
      exact ih other e (Store.documents_create _ name other kind ▸ he)
  | setup _ done ih => exact fun name e he => ih name e (mem_documents_of_setup done he)

theorem Database.Reachable.ordered {db : Database} (h : db.Reachable) : db.store.Ordered := by
  induction h with
  | empty | dropAll => exact .of_empty fun _ => rfl
  | @execute db _ t ih =>
      rcases execute_store db t with same | ⟨run, p, ran⟩
      · rw [same]
        exact ih
      · rw [ran]
        exact p.ordered ih
  | createCollection _ name kind ih =>
      intro other
      show NameMap.Sorted ((Store.create _ name kind).documents other)
      rw [Store.documents_create]
      exact ih other
  | @setup _ _ _ drop _ done ih =>
      intro name
      rw [(documents_of_setup done).1 name]
      cases drop with
      | true => exact List.Pairwise.nil
      | false => exact ih name

end DocGraph
