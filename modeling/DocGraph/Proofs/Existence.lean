import DocGraph.Proofs.Keys

/-! # What remembered existence checks say

A check that a context remembers was made at some earlier point of the script, on a reference whose
value does not change any more. What can change is the store: a deletion in between may take the
document out. `Remembers` says what a run still knows of the remembered checks at each point. The
values and the collections are certain; that the document is still there is so if every deletion
keeps to `DeletionRule.safe` and no type is named like a collection of edges (`Schema.Apart`). -/

namespace DocGraph

variable {m : Model} {D : Demands} {c c' : Context} {ds ds' : List Duty} {ss : List Statement}
  {write : NameSet} {params : Record Json} {run run' : Run}

/-! ### Documents that stay -/

/-- A collection has a document under a key. -/
def Store.Stores (s : Store) (name key : String) : Prop :=
  ∃ d, (key, d) ∈ s.documents name

/-- Putting a document somewhere takes none out. -/
theorem Store.Stores.put {s : Store} {name key other k : String} {coll : Collection} {d : Document}
    (h : s.Stores name key) (there : s.collection? other = some coll) :
    (s.set other (coll.put k d)).Stores name key := by
  obtain ⟨old, ho⟩ := h
  unfold Stores
  rw [documents_set]
  split
  · rename_i hn
    rw [hn, documents_eq there] at ho
    by_cases hk : key = k
    · exact ⟨d, hk ▸ NameMap.mem_insert_self⟩
    · exact ⟨old, NameMap.mem_insert_of_ne ho hk⟩
  · exact ⟨old, ho⟩

/-- The collection that a statement takes documents out of. -/
def Statement.drains? : Statement → Option String
  | .remove _ collection _ => some collection
  | .removeEdges collection _ _ => some collection
  | _ => none

/-- A collection keeps its documents unless some part takes them out. -/
theorem PerformsAll.stores {name key : String} (p : PerformsAll write params ss run run')
    (h : ∀ b ∈ partsOf ss, b.drains? ≠ some name) (hs : run.store.Stores name key) :
    run'.store.Stores name key := by
  refine p.invariant (I := fun r => r.store.Stores name key) ss (fun b hb r r' q hr => ?_) hs
  have plain := not_guarded_of_mem_partsOf ss hb
  have other := h b hb
  cases q with
  | insert _ _ _ there => exact hr.put there
  | update _ _ _ there => exact hr.put there
  | remove | removeEdges =>
      dsimp only [Store.Stores]
      rw [Store.documents_set, if_neg fun e => other (congrArg some e.symm)]
      exact hr
  | comment | bind | miss | setResult | assert => exact hr
  | pass | enter => exact absurd rfl (plain _ _)

/-- No statement takes a collection away. -/
theorem PerformsAll.isSome_collection? {name : String} (p : PerformsAll write params ss run run')
    (h : (run.store.collection? name).isSome = true) :
    (run'.store.collection? name).isSome = true := by
  have set : ∀ {s : Store} {other : String} {coll : Collection},
      (s.collection? name).isSome = true → ((s.set other coll).collection? name).isSome = true := by
    intro s other coll there
    unfold Store.collection? Store.set
    rw [NameMap.get?_insert]
    split
    · rfl
    · exact there
  refine p.invariant (I := fun r => (r.store.collection? name).isSome = true) ss
    (fun b hb r r' q hr => ?_) h
  cases q with
  | insert | update | remove | removeEdges => exact set hr
  | comment | bind | miss | setResult | assert => exact hr
  | pass | enter => exact absurd rfl (not_guarded_of_mem_partsOf ss hb _ _)

/-! ### The check of an id -/

/-- Whether a collection has a document of an id. -/
def Store.hasId (s : Store) (i name : String) : Bool :=
  (s.collection? name).any fun coll => coll.hasId i

/-- Documents are found by the key in their id. -/
theorem Store.Keyed.hasId_iff {s : Store} (h : s.Keyed) {i name : String} :
    s.hasId i name = true ↔ ∃ key, i = (DocumentId.ofKey name key).text ∧ s.Stores name key := by
  have text : ∀ e ∈ s.documents name,
      Document.text? e.2 Field.id = some (DocumentId.ofKey name e.1).text := by
    intro e he
    rw [Document.text?, h name e he]
    rfl
  have found : s.hasId i name = true ↔
      ∃ e ∈ s.documents name, Document.text? e.2 Field.id = some i := by
    unfold hasId documents
    cases s.collection? name with
    | none => simp
    | some coll => simp [Collection.hasId, Collection.rows, NameMap.values]
  rw [found]
  constructor
  · rintro ⟨e, he, hi⟩
    rw [text e he] at hi
    exact ⟨e.1, (Option.some.inj hi).symm, e.2, he⟩
  · rintro ⟨key, rfl, d, hd⟩
    exact ⟨(key, d), hd, text _ hd⟩

/-- The error over an id that is no document of a type. -/
def Error.absent (i type : String) : Error :=
  .transaction (.thrown s!"Object '{i}' does not exist as instance of {type}")

section check

variable {id : Ref} {i type label : String} {collections : List String} {store : Store} {scope : Scope}

theorem mapM_hasId (there : ∀ C ∈ collections, (store.collection? C).isSome = true) :
    (collections.mapM fun C => (store.collection C).map fun coll => coll.hasId i) =
      .ok (collections.map (store.hasId i)) := by
  refine mapM_eq_ok fun C hC => ?_
  obtain ⟨coll, hc⟩ := Option.isSome_iff_exists.mp (there C hC)
  simp [Store.collection, Store.hasId, hc, Except.map]

/-- The check looks for the id in every collection. -/
theorem violated_missing (value : id.value scope = .ok (.str i))
    (there : ∀ C ∈ collections, (store.collection? C).isSome = true) :
    (Check.missing id collections).violated store scope =
      .ok (!collections.any (store.hasId i)) := by
  have text : id.text? scope = .ok (some i) := by
    rw [Ref.text?, value]
    rfl
  have any : (collections.map (store.hasId i)).contains true = collections.any (store.hasId i) := by
    rw [List.contains_eq_any_beq, List.any_map]
    congr 1
    funext C
    simp
  simp only [Check.violated, text, mapM_hasId there, bind, Except.bind, pure, Except.pure, any]

/-- An id that is not missing is the id of a document in one of the collections. -/
theorem exists_of_missing_clean
    (h : (Check.missing id collections).violated store scope = .ok false) :
    ∃ i, id.value scope = .ok (.str i) ∧
      (∀ C ∈ collections, (store.collection? C).isSome = true) ∧
      ∃ C ∈ collections, store.hasId i C = true := by
  rcases hv : id.value scope with e | v
  · simp [Check.violated, Ref.text?, hv, Except.map, bind, Except.bind] at h
  · cases v with
    | str i =>
        have there : ∀ C ∈ collections, (store.collection? C).isSome = true := by
          intro C hC
          rcases hm : (collections.mapM fun C => (store.collection C).map fun coll => coll.hasId i)
            with e | found
          · simp [Check.violated, Ref.text?, hv, Except.map, Json.str?, bind, Except.bind] at h hm
            rw [hm] at h
            cases h
          · obtain ⟨b, hb⟩ := exists_of_mapM_ok hm hC
            rcases hc : store.collection? C with _ | coll
            · simp [Store.collection, hc, Except.map] at hb
            · rfl
        refine ⟨i, rfl, there, ?_⟩
        rw [violated_missing hv there] at h
        simpa using h
    | null | bool | num | arr | obj =>
        simp [Check.violated, Ref.text?, hv, Except.map, Json.str?, bind, Except.bind, pure,
          Except.pure] at h

theorem outcome_assert {check : Check} {message : Message} {b : Bool}
    (h : check.violated run.store (run.scope params) = .ok b) :
    outcome (Run.perform write params (.assert check message)) run =
      if b then outcome (Run.fail params message) run else (.ok ⟨⟩, run) := by
  have looked : outcome (Run.ofExcept (check.violated run.store ⟨params, run.vars⟩)) run =
      (.ok b, run) := (Run.outcome_ofExcept _ run).trans (congrArg (·, run) h)
  rw [Run.perform, outcome_bind_of_ok (outcome_get run), outcome_bind_of_ok looked]
  cases b with
  | false => rfl
  | true => rfl

/-- The statements of the check, on an id that has a value. -/
theorem outcome_existsCheck (value : id.value (run.scope params) = .ok (.str i))
    (there : ∀ C ∈ collections, (run.store.collection? C).isSome = true) :
    outcome (Run.performAll write params (existsCheck id type label collections)) run =
      (if collections.any (run.store.hasId i) then .ok ⟨⟩ else .error (.absent i type), run) := by
  have violated := violated_missing value there
  have fill : (⟨[.text "Object '", .value id, .text s!"' does not exist as instance of {type}"]⟩ :
      Message).fill (run.scope params) =
        .ok s!"Object '{i}' does not exist as instance of {type}" := by
    simp [Message.fill, MessagePart.fill, value, Except.map, Json.inMessage, bind, Except.bind, pure,
      Except.pure, String.join, String.append_assoc]
    rfl
  rw [existsCheck, Run.performAll, Run.perform, outcome_bind, outcome_pure]
  dsimp only
  rw [Run.performAll, outcome_bind, outcome_assert violated, Run.outcome_fail, fill]
  cases collections.any (run.store.hasId i) with
  | false => rfl
  | true => rfl

end check

/-! ### What is known of an id -/

theorem exists_of_keyOf {t key : String} (h : Run.keyOf (.str t) = .ok key) :
    ∃ d, DocumentId.parse t = .ok d ∧ key = d.key := by
  have h : (DocumentId.parse t).map DocumentId.key = .ok key := h
  cases parsed : DocumentId.parse t with
  | error e =>
      rw [parsed] at h
      cases h
  | ok d =>
      rw [parsed] at h
      cases h
      exact ⟨d, rfl, rfl⟩

theorem text_param_ne_varName (p : String) (k : Nat) : (Ref.param p).text ≠ varName k := by
  intro same
  have chars := congrArg String.toList same
  simp [Ref.text, varName, String.toList_append] at chars

/-- An exported name has no dot. -/
theorem isExportName_text_param (p : String) : isExportName (Ref.param p).text = false := by
  have chars : (Ref.param p).text.toList = "params".toList ++ '.' :: p.toList := by
    simp [Ref.text, String.toList_append]
  have dot : Char.isAlphanum '.' = false := by decide
  simp [isExportName, chars, dot]

namespace Scoping

variable {r r' : Ref} {scope : Scope} {i : String}

/-- What is known of an id stays the same. -/
theorem idKey_eq (sc : Scoping c ds) (given : c.Given r) (e : c.Extends c') :
    Synthesis.idKey c' r = Synthesis.idKey c r :=
  given.idKey_eq (fun h => (sc.exports h).1) e

/-- An id that is known has its value from the start. -/
theorem value_of_literal (sc : Scoping c ds) (given : c.Given r)
    (key : Synthesis.idKey c r = .literal i)
    (hp : ∀ {p v}, c.params.get? p = some v → scope.params.get? p = some v) :
    r.value scope = .ok (.str i) := by
  cases given with
  | @param p v h =>
      rw [Synthesis.idKey, h] at key
      cases v with
      | str j =>
          cases key
          rw [Ref.value, hp h]
          rfl
      | null | bool | num | arr | obj => cases key
  | exported h =>
      obtain ⟨rfl, _⟩ := sc.exports h
      cases key

theorem not_exported_param (sc : Scoping c ds) {p : String} {x : Ref}
    (h : c.exports.get? (Ref.param p).text = some x) : False := by
  rcases sc.names _ (sc.exports h).2 with ⟨k, _, same⟩ | ⟨legal, _⟩
  · exact text_param_ne_varName p k same
  · rw [isExportName_text_param] at legal
    cases legal

/-- References to places are told apart by their text. -/
theorem eq_of_text_eq (sc : Scoping c ds) (given : c.Given r) (given' : c.Given r')
    (same : r.text = r'.text) : r = r' := by
  cases given with
  | @param p _ h =>
      cases given' with
      | @param p' _ h' =>
          have chars := congrArg String.toList same
          simp only [Ref.text, String.toList_append, List.append_cancel_left_eq] at chars
          rw [String.toList_inj.mp chars]
      | @exported n _ h' =>
          obtain ⟨rfl, _⟩ := sc.exports h'
          have same : (Ref.param p).text = n := same
          exact (sc.not_exported_param (same ▸ h')).elim
  | @exported n _ h =>
      obtain ⟨rfl, _⟩ := sc.exports h
      cases given' with
      | @param p _ h' =>
          have same : n = (Ref.param p).text := same
          exact (sc.not_exported_param (same ▸ h)).elim
      | exported h' =>
          obtain ⟨rfl, _⟩ := sc.exports h'
          exact congrArg Ref.exported same

theorem idKey_of_place (sc : Scoping c ds) (given : c.Given r) {text : String}
    (key : Synthesis.idKey c r = .place text) : r.text = text := by
  cases given with
  | @param p v h =>
      rw [Synthesis.idKey, h] at key
      cases v with
      | str j => cases key
      | null | bool | num | arr | obj => exact IdKey.place.inj key
  | exported h =>
      obtain ⟨rfl, _⟩ := sc.exports h
      exact IdKey.place.inj key

/-- Ids of which the same is known have the same value. -/
theorem value_eq (sc : Scoping c ds) (given : c.Given r) (given' : c.Given r')
    (same : Synthesis.idKey c r = Synthesis.idKey c r')
    (hp : ∀ {p v}, c.params.get? p = some v → scope.params.get? p = some v) :
    r.value scope = r'.value scope := by
  cases key : Synthesis.idKey c r' with
  | literal i =>
      rw [sc.value_of_literal given (same.trans key) hp, sc.value_of_literal given' key hp]
  | place text =>
      have texts : r.text = r'.text :=
        (sc.idKey_of_place given (same.trans key)).trans (sc.idKey_of_place given' key).symm
      rw [sc.eq_of_text_eq given given' texts]

end Scoping

/-! ### What deletions may do -/

/-- A deletion that invalidates no check which is remembered after it. Every such check that may be
about the deleted document has to be about another id, known from the start. -/
def DeletionRule.safe (s : Schema) : DeletionRule := fun memo type key =>
  ∀ i d, key = .literal i → DocumentId.parse i = .ok d → ∀ e ∈ memo, key.Spares e →
    ∀ collections, s.possibleCollections e.2 = .ok collections → type ∈ collections →
      ∃ j, e.1 = .literal j ∧ j ≠ (DocumentId.ofKey type d.key).text

/-- A rule that has to be kept in some cases only. -/
def DeletionRule.provided (trusted : Prop) (D : DeletionRule) : DeletionRule := fun memo type key =>
  trusted → D memo type key

/-- No type has its objects in a collection of edges. -/
def Schema.Apart (s : Schema) : Prop :=
  ∀ type collections, s.possibleCollections type = .ok collections →
    ∀ C ∈ collections, ∀ source field, C ≠ edgeCollection source field

/-- Names of collections of edges are recognized by a part of them. -/
theorem Schema.apart_of_names {s : Schema}
    (h : ∀ t ∈ s.types, Text.contains t.name "EdgeFrom" = false) : s.Apart := by
  rintro type collections possible C hC source field rfl
  unfold possibleCollections at possible
  rcases hp : s.possibleTypes type with e | ts
  · rw [hp] at possible
    cases possible
  · rw [hp] at possible
    cases possible
    obtain ⟨t, ht, name⟩ := List.mem_map.mp hC
    have no := h t (mem_types_of_possibleTypes hp t ht)
    rw [name, contains_edgeCollection] at no
    cases no

/-! ### What is remembered -/

/-- A remembered check, at a point of a run: a reference that it was made on, with the id that it
has as its value, and the collections in which the id was looked for. -/
structure Recalls (s : Schema) (c : Context) (params : Record Json) (run : Run) (e : IdKey × String)
    (r : Ref) (i : String) (collections : List String) : Prop where
  given : c.Given r
  key : Synthesis.idKey c r = e.1
  possible : s.possibleCollections e.2 = .ok collections
  value : r.value (run.scope params) = .ok (.str i)
  there : ∀ C ∈ collections, (run.store.collection? C).isSome = true

/-- What a run knows of a check that is remembered. If deletions can be trusted, the document that
was found is still there, unless its id is about to be forgotten. -/
def Remembered (trusted : Prop) (s : Schema) (c : Context) (ds : List Duty) (params : Record Json)
    (run : Run) (e : IdKey × String) : Prop :=
  ∃ r i collections, Recalls s c params run e r i collections ∧
    (trusted → (∀ id, .forget id ∈ ds → (Synthesis.idKey c id).Spares e) →
      ∃ C ∈ collections, ∃ key, i = (DocumentId.ofKey C key).text ∧ run.store.Stores C key)

/-- What a run knows of all checks that are remembered. -/
def Remembers (trusted : Prop) (s : Schema) (c : Context) (ds : List Duty) (params : Record Json)
    (run : Run) : Prop :=
  ∀ e ∈ c.memo, Remembered trusted s c ds params run e

section steps

variable {trusted : Prop} {s : Schema} {entry : IdKey × String}

/-- Values and collections stay. -/
theorem Recalls.keep {r : Ref} {i : String} {collections : List String}
    (h : Recalls s c params run entry r i collections) (sc : Scoping c ds) (ext : c.Extends c')
    (anew : SetsAnew c ss)
    (p : PerformsAll write params ss run run') : Recalls s c' params run' entry r i collections where
  given := h.given.mono ext
  key := (sc.idKey_eq h.given ext).trans h.key
  possible := h.possible
  value := by
    rw [← h.value]
    cases h.given with
    | param => rfl
    | exported hx =>
        obtain ⟨rfl, bound⟩ := sc.exports hx
        show Scope.var _ _ = Scope.var _ _
        unfold Scope.var Run.scope
        rw [p.get?_vars_eq (anew _ _ bound)]
  there C hC := p.isSome_collection? (h.there C hC)

/-- Statements that take documents out of collections of edges only. -/
theorem Remembered.keep (h : Remembered trusted s c ds params run entry) (sc : Scoping c ds)
    (ext : c.Extends c')
    (anew : SetsAnew c ss)
    (p : PerformsAll write params ss run run') (apart : trusted → s.Apart)
    (drains : ∀ b ∈ partsOf ss, ∀ C, b.drains? = some C →
      ∃ source field, C = edgeCollection source field)
    (duties : ∀ id, .forget id ∈ ds → .forget id ∈ ds' ∨ (Synthesis.idKey c id).Spares entry) :
    Remembered trusted s c' ds' params run' entry := by
  obtain ⟨r, i, collections, recalls, found⟩ := h
  refine ⟨r, i, collections, recalls.keep sc ext anew p, fun ht spared => ?_⟩
  obtain ⟨C, hC, key, hi, stored⟩ := found ht fun id duty => by
    rcases duties id duty with duty' | spares
    · rw [← sc.idKey_eq (sc.duties _ duty) ext]
      exact spared id duty'
    · exact spares
  refine ⟨C, hC, key, hi, p.stores (fun b hb drained => ?_) stored⟩
  obtain ⟨source, field, edge⟩ := drains b hb C drained
  exact apart ht _ _ recalls.possible C hC source field edge

/-- A deletion that can be trusted takes out no document that stays remembered. -/
theorem Remembered.remove {var type : String} {id : Ref}
    (h : Remembered trusted s c [.bind var] params run entry) (sc : Scoping c [.bind var])
    (hp : ∀ {p v}, c.params.get? p = some v → params.get? p = some v)
    (remembered : entry ∈ c.memo) (given : c.Given id)
    (rule : trusted → DeletionRule.safe s c.memo type (Synthesis.idKey c id))
    (anew : SetsAnew c [.remove var type id])
    (p : Performs write params (.remove var type id) run run') (forgets : .forget id ∈ ds') :
    Remembered trusted s (c.add [.remove var type id]) ds' params run' entry := by
  have ext := c.extends_add [.remove var type id]
  have all := performsAll_singleton.mpr p
  obtain ⟨r, i, collections, recalls, found⟩ := h
  refine ⟨r, i, collections, recalls.keep sc ext anew all, fun ht spared => ?_⟩
  obtain ⟨C, hC, key, hi, stored⟩ := found ht (by simp)
  have spares := spared id forgets
  rw [sc.idKey_eq given ext] at spares
  by_cases other : C = type
  · subst other
    cases known : Synthesis.idKey c id with
    | place text =>
        rw [known] at spares
        exact spares.elim
    | literal t =>
        cases p with
        | miss => exact ⟨C, hC, key, hi, stored⟩
        | @remove _ _ _ k _ coll _ v value _ there keyed _ =>
            cases value.symm.trans (sc.value_of_literal given known hp)
            obtain ⟨d, parsed, rfl⟩ := exists_of_keyOf keyed
            obtain ⟨j, hj, ne⟩ := rule ht t d known parsed entry remembered spares collections
              recalls.possible hC
            cases recalls.value.symm.trans
              (sc.value_of_literal recalls.given (recalls.key.trans hj) hp)
            have hk : key ≠ d.key := fun same => ne (same ▸ hi)
            obtain ⟨old, ho⟩ := stored
            refine ⟨C, hC, key, hi, old, ?_⟩
            rw [Store.documents_set, if_pos rfl]
            exact List.mem_filter.mpr ⟨Store.documents_eq there ▸ ho, by simpa using hk⟩
  · refine ⟨C, hC, key, hi, all.stores (fun b hb drained => ?_) stored⟩
    rw [List.mem_singleton.mp hb] at drained
    exact other (Option.some.inj drained).symm

theorem exists_of_existsCheck {id : Ref} {type label : String} {collections : List String}
    (p : PerformsAll write params (existsCheck id type label collections) run run') :
    run' = run ∧ (Check.missing id collections).violated run.store (run.scope params) = .ok false := by
  cases p with
  | cons first others =>
      cases first
      cases performsAll_singleton.mp others with
      | assert clean => exact ⟨rfl, clean⟩

theorem Emits.remembers
    (e : Emits m (.ofDeletion (.provided trusted (.safe m.schema))) c ds ss c' ds')
    (sc : Scoping c ds) (hp : ∀ {p v}, c.params.get? p = some v → params.get? p = some v)
    (apart : trusted → m.schema.Apart) (keyed : run.store.Keyed)
    (p : PerformsAll write params ss run run') (h : Remembers trusted m.schema c ds params run) :
    Remembers trusted m.schema c' ds' params run' := by
  have ext := e.extends
  have anew := e.setsAnew sc
  -- Most steps take out edges at most and forget nothing.
  have keep : ∀ {entry : IdKey × String}, entry ∈ c.memo →
      (∀ b ∈ partsOf ss, ∀ C, b.drains? = some C → ∃ source field, C = edgeCollection source field) →
      (∀ id, .forget id ∈ ds → .forget id ∈ ds' ∨ (Synthesis.idKey c id).Spares entry) →
      Remembered trusted m.schema c' ds' params run' entry :=
    fun remembered => (h _ remembered).keep sc ext anew p apart
  have edgeless : ∀ C, (none : Option String) = some C →
      ∃ source field, C = edgeCollection source field := fun C drained => by cases drained
  have nothing : ∀ b ∈ partsOf [], ∀ C, b.drains? = some C →
      ∃ source field, C = edgeCollection source field := fun b hb => by cases hb
  cases e with
  | param | lockWrite => exact fun x hx => keep hx nothing fun _ duty => .inl duty
  | lockRead C =>
      have memo : (c.lockRead C).memo = c.memo := by
        unfold Context.lockRead
        split <;> rfl
      exact fun x hx => keep (memo ▸ hx) nothing fun _ duty => .inl duty
  | name | noKey | defer | waive =>
      exact fun x hx => keep hx nothing fun _ duty => .inl (by simpa using duty)
  | remark | abort | insert | insertEdge | assertFree | «export» | assertKey =>
      exact fun x hx => keep hx (forall_partsOf_one rfl edgeless) fun _ duty =>
        .inl (by simpa using duty)
  | update | updateEdge =>
      exact fun x hx => keep hx (forall_partsOf_one rfl edgeless) fun _ duty => by simp at duty
  | removeEdge =>
      refine fun x hx => keep hx (forall_partsOf_one rfl fun C h => ?_) fun _ duty => by simp at duty
      exact ⟨_, _, (Option.some.inj h).symm⟩
  | dropEdges =>
      refine fun x hx => keep hx (forall_partsOf_one rfl fun C h => ?_) fun _ duty => .inl duty
      exact ⟨_, _, (Option.some.inj h).symm⟩
  | clearEdges edges locked =>
      refine fun x hx => keep hx (forall_partsOf_clear fun C' hC' C h => ?_) fun _ duty =>
        .inl (by simpa using duty)
      exact Option.some.inj h ▸ edges C' hC'
  | remove given locked rule =>
      exact fun x hx => (h x hx).remove sc hp hx given rule anew (performsAll_singleton.mp p) (by simp)
  | @assertExists _ id type label collections given possible locked =>
      obtain ⟨rfl, clean⟩ := exists_of_existsCheck p
      intro x hx
      have hx : x ∈ c.memo ∨ x = (Synthesis.idKey c id, type) := by
        simp only [Context.add, Context.memoize] at hx
        split at hx
        · simpa using hx
        · exact .inl hx
      rcases hx with hx | rfl
      · exact keep hx (forall_partsOf_existsCheck edgeless fun _ => edgeless) fun _ duty => .inl duty
      · obtain ⟨i, value, there, C, hC, has⟩ := exists_of_missing_clean clean
        obtain ⟨key, hi, stored⟩ := keyed.hasId_iff.mp has
        exact ⟨id, i, collections, ⟨given.mono ext, sc.idKey_eq given ext, possible, value, there⟩,
          fun _ _ => ⟨C, hC, key, hi, stored⟩⟩
  | @forget _ id =>
      intro x hx
      obtain ⟨hx, spares⟩ := (c.mem_memo_forget id).mp hx
      refine keep hx nothing fun id' duty => ?_
      rcases List.mem_cons.mp duty with same | duty
      · cases same
        exact .inr spares
      · exact .inl duty

end steps

end DocGraph
