import DocGraph.Proofs.Atomicity
import DocGraph.Proofs.Moves
import Mathlib.Logic.Relation

/-! # The engine of a session

A session has its engine run transactions and answer queries, tells it to hold transactions back, and lets it
take note of them. `Engine.Step` lists these, and whatever a session does comes down to a number of them
(`Session.Reachable.steps`). So what the steps keep holds of the engine of every session that can be reached:
its database is one that an engine can come to, no rows wait to be given in place of an answer, and the
collections are those that were there at the beginning, all that the schema needs or none. -/

namespace DocGraph

variable {m : Model} {s s' : Session} {e e' : Engine} {C : String}

/-! ### Steps of an engine -/

/-- What a session can do with its engine. -/
inductive Engine.Step (e : Engine) : Engine → Prop
  | execute (t : Transaction) : Step e (e.execute t).2
  | note (t : Transaction) : Step e (e.note t)
  | hold (holds : Bool) : Step e { e with holds := holds }
  | answer (q : ReadQuery) : Step e (e.answer q).2

/-- Any number of steps. -/
abbrev Engine.Steps : Engine → Engine → Prop :=
  Relation.ReflTransGen Engine.Step

namespace Engine.Step

theorem nextRows (h : e.Step e') (own : e.nextRows = none) : e'.nextRows = none := by
  cases h with
  | execute | hold => exact own
  | note t =>
      unfold Engine.note
      split <;> exact own
  | answer q =>
      unfold Engine.answer
      split
      · rfl
      · exact own

theorem database (h : e.Step e') :
    e'.database = e.database ∨ ∃ t, e'.database = (e.database.execute t).2 := by
  cases h with
  | execute t => exact .inr ⟨t, rfl⟩
  | hold => exact .inl rfl
  | note t =>
      unfold Engine.note
      split <;> exact .inl rfl
  | answer q =>
      unfold Engine.answer
      split <;> exact .inl rfl

end Engine.Step

namespace Engine.Steps

theorem nextRows (h : e.Steps e') (own : e.nextRows = none) : e'.nextRows = none := by
  induction h with
  | refl => exact own
  | tail _ step ih => exact step.nextRows ih

/-- What every transaction keeps, all steps keep. -/
theorem database {I : Database → Prop} (h : e.Steps e')
    (kept : ∀ db t, I db → I (db.execute t).2) (before : I e.database) : I e'.database := by
  induction h with
  | refl => exact before
  | tail _ step ih =>
      rcases step.database with same | ⟨t, executed⟩
      · exact same ▸ ih
      · exact executed ▸ kept _ t ih

end Engine.Steps

/-- No collection comes or goes with a transaction. -/
theorem isSome_collection?_execute (db : Database) (t : Transaction) (C : String) :
    ((db.execute t).2.store.collection? C).isSome = (db.store.collection? C).isSome := by
  rcases execute_store db t with same | ⟨run, p, ran⟩
  · rw [same]
  · have kinds := congrArg Option.isSome (p.frame.kinds C)
    rw [Option.isSome_map, Option.isSome_map] at kinds
    rw [ran, kinds]
    rfl

/-! ### Sessions step by step -/

namespace Session

theorem steps_complete (s : Session) (number : Nat) (t : Transaction) :
    s.engine.Steps (s.complete number t).engine := by
  unfold Session.complete
  dsimp only
  split <;> exact .single (.execute t)

theorem steps_submit (s : Session) (f : WaitingField) (slot : String) (t : Transaction) :
    s.engine.Steps (s.submit f slot t).2.engine := by
  unfold Session.submit
  dsimp only
  split
  · exact .single (.note t)
  · exact .head (.note t) (steps_complete { s with engine := s.engine.note t } f.request t)

theorem steps_contribute (s : Session) (r : Request) (o : Operation) :
    s.engine.Steps (s.contribute r o).2.engine := by
  unfold Session.contribute
  generalize r.contribute s.model o.isRoot o.selection o.mutation = result
  obtain ⟨reply, r'⟩ := result
  rcases reply with e | name | _ | ⟨name, t⟩
  · exact .refl
  · exact .refl
  · exact .refl
  · exact steps_submit (s.putRequest r') _ _ t

theorem steps_contributeAll (s : Session) (number : Nat) (operations : List Operation) :
    s.engine.Steps (s.contributeAll number operations).2.engine := by
  induction operations generalizing s with
  | nil => exact .refl
  | cons o operations ih =>
      unfold Session.contributeAll
      split
      · exact .refl
      · rename_i r _
        exact (s.steps_contribute r o).trans (ih _)

theorem steps_release (s : Session) : s.engine.Steps s.release.2.engine := by
  have each : ∀ (held : List HeldTransaction) (s : Session), s.engine.Steps (held.foldl (fun s h =>
      (s.complete h.field.request h.transaction).fillSlot h.slot h.field) s).engine := by
    intro held
    induction held with
    | nil => exact fun s => .refl
    | cons h held ih =>
        intro s
        have completed := s.steps_complete h.field.request h.transaction
        exact completed.trans (ih ((s.complete h.field.request h.transaction).fillSlot h.slot h.field))
  exact .head (.hold false)
    (each s.held { s with engine := { s.engine with holds := false }, held := [] })

theorem engine_resolve {slot : String} {answer : FieldAnswer} (h : s.resolve slot = some (answer, s')) :
    s'.engine = s.engine := by
  obtain ⟨f, _, hf⟩ := Option.map_eq_some_iff.mp h
  split at hf <;> cases hf <;> rfl

theorem engine_resolveAll (s : Session) (slots : List String) :
    (s.resolveAll slots).2.engine = s.engine := by
  induction slots generalizing s with
  | nil => rfl
  | cons slot slots ih =>
      unfold Session.resolveAll
      split
      · exact ih s
      · rename_i answer s' resolved
        exact (ih s').trans (engine_resolve resolved)

theorem steps_run (s : Session) (operations : List Operation) :
    s.engine.Steps (s.run operations).2.2.engine := by
  have contributed := steps_contributeAll
    { (s.openRequest (operations.map fun o => o.selection.responseName)).2 with
      running := some (s.requests.length + 1) } (s.requests.length + 1) operations
  have resolved := engine_resolveAll (Session.contributeAll
    { (s.openRequest (operations.map fun o => o.selection.responseName)).2 with
      running := some (s.requests.length + 1) } (s.requests.length + 1) operations).2
    (operations.map fun o => o.selection.responseName)
  exact resolved ▸ contributed

theorem engine_query (q : ReadQuery) (s : Session) :
    (outcome (Session.query q) s).2.engine = (s.engine.answer q).2 := by
  unfold Session.query
  rw [outcome_bind, outcome_get]
  dsimp only
  rcases s.engine.answer q with ⟨e | rows, engine⟩
  · rfl
  · rfl

theorem Move.steps (h : s.Move s') : s.engine.Steps s'.engine := by
  cases h with
  | advance | name | drop => exact .refl
  | contribute known o => exact s.steps_contribute _ o
  | run operations => exact s.steps_run operations
  | hold => exact .single (.hold true)
  | release => exact s.steps_release
  | resolve resolved => exact engine_resolve resolved ▸ .refl
  | query q => exact engine_query q s ▸ .single (.answer q)

theorem Reachable.steps {kind : EngineKind} (h : Session.Reachable m kind s) :
    ∃ first, Session.start m kind = .ok first ∧ first.engine.Steps s.engine := by
  induction h with
  | start opened => exact ⟨_, opened, .refl⟩
  | move _ move ih =>
      obtain ⟨first, opened, steps⟩ := ih
      exact ⟨first, opened, steps.trans move.steps⟩

end Session

/-! ### Collections that a schema needs -/

/-- A field whose edges have a collection: an edge field that is not marked by an underscore. -/
def Schema.IsForward (s : Schema) (f : FieldDef) : Prop :=
  Text.startsWith f.name "_" = false ∧ s.isEdgeField f = .ok true

/-- A collection of stored objects, or of the edges of one of their fields. -/
def Schema.Needs (s : Schema) (C : String) : Prop :=
  ∃ t ∈ s.types, isStored t = true ∧
    (t.name = C ∨ ∃ f ∈ t.fields, s.IsForward f ∧ edgeCollection t.name f.name = C)

theorem Schema.kind_of_isStored {t : TypeDef} (h : isStored t = true) : t.kind = .object := by
  simp only [isStored, Bool.and_eq_true, beq_iff_eq] at h
  exact h.1.1.1.1

theorem mem_keepM {α : Type} {test : α → Except Error Bool} {l kept : List α} {a : α}
    (h : keepM test l = .ok kept) : a ∈ kept ↔ a ∈ l ∧ test a = .ok true := by
  induction l generalizing kept with
  | nil =>
      cases h
      simp
  | cons x l ih =>
      obtain ⟨b, tested, h⟩ := exists_of_andThen_ok h
      obtain ⟨rest, others, h⟩ := exists_of_andThen_ok h
      cases h
      cases b with
      | true =>
          rw [if_pos rfl, List.mem_cons, List.mem_cons, ih others]
          constructor
          · rintro (rfl | ⟨mem, passed⟩)
            · exact ⟨.inl rfl, tested⟩
            · exact ⟨.inr mem, passed⟩
          · rintro ⟨rfl | mem, passed⟩
            · exact .inl rfl
            · exact .inr ⟨mem, passed⟩
      | false =>
          rw [if_neg Bool.false_ne_true, List.mem_cons, ih others]
          constructor
          · rintro ⟨mem, passed⟩
            exact ⟨.inr mem, passed⟩
          · rintro ⟨rfl | mem, passed⟩
            · cases tested.symm.trans passed
            · exact ⟨mem, passed⟩

theorem Schema.mem_edgeCollectionsOf {s : Schema} {t : TypeDef} {edges : List String}
    (found : s.edgeCollectionsOf t = .ok edges) :
    C ∈ edges ↔ ∃ f ∈ t.fields, s.IsForward f ∧ edgeCollection t.name f.name = C := by
  obtain ⟨kept, tested, made⟩ := exists_of_andThen_ok found
  cases made
  simp [List.mem_map, mem_keepM tested, IsForward, and_assoc]

theorem Schema.mem_edgeCollections {s : Schema} {edges : List String}
    (found : s.edgeCollections = .ok edges) :
    C ∈ edges ↔ ∃ t ∈ s.types, isStored t = true ∧ ∃ f ∈ t.fields, s.IsForward f ∧
      edgeCollection t.name f.name = C := by
  obtain ⟨lists, each, made⟩ := exists_of_andThen_ok found
  cases made
  rw [List.mem_flatten]
  constructor
  · rintro ⟨list, mem, here⟩
    obtain ⟨t, ht, own⟩ := exists_of_mem_mapM each mem
    obtain ⟨known, stored⟩ := List.mem_filter.mp ht
    exact ⟨t, known, stored, (mem_edgeCollectionsOf own).mp here⟩
  · rintro ⟨t, known, stored, here⟩
    have among := List.mem_filter.mpr ⟨known, stored⟩
    obtain ⟨list, own⟩ := exists_of_mapM_ok each among
    exact ⟨list, mem_of_mapM_ok each among own, (mem_edgeCollectionsOf own).mpr here⟩

theorem Schema.needs_iff {s : Schema} {edges : List String} (found : s.edgeCollections = .ok edges) :
    s.Needs C ↔ C ∈ s.documentCollections ∨ C ∈ edges := by
  unfold Needs documentCollections
  rw [mem_edgeCollections found]
  constructor
  · rintro ⟨t, known, stored, own | edge⟩
    · exact .inl (List.mem_map.mpr ⟨t, List.mem_filter.mpr ⟨known, stored⟩, own⟩)
    · exact .inr ⟨t, known, stored, edge⟩
  · rintro (documents | ⟨t, known, stored, edge⟩)
    · obtain ⟨t, among, own⟩ := List.mem_map.mp documents
      obtain ⟨known, stored⟩ := List.mem_filter.mp among
      exact ⟨t, known, stored, .inl own⟩
    · exact ⟨t, known, stored, .inr edge⟩

theorem Store.isSome_create {st : Store} {name : String} {kind : CollectionKind} :
    ((st.create name kind).collection? C).isSome = true ↔
      (st.collection? C).isSome = true ∨ C = name := by
  unfold create
  split
  · rename_i there
    refine ⟨.inl, fun h => h.elim id fun same => ?_⟩
    rw [same, there]
    rfl
  · rw [collection?_set]
    split
    · rename_i same
      simp [same]
    · rename_i other
      simp [other]

theorem Store.isSome_foldl_create {st : Store} {names : List String} {kind : CollectionKind} :
    ((names.foldl (fun st name => st.create name kind) st).collection? C).isSome = true ↔
      (st.collection? C).isSome = true ∨ C ∈ names := by
  induction names generalizing st with
  | nil => simp
  | cons name names ih => rw [List.foldl_cons, ih, isSome_create, List.mem_cons, or_assoc]

/-- Setting up an empty database makes the collections that the schema needs. -/
theorem Database.isSome_of_setup {schema : Schema} {drop : Bool} {db : Database}
    (done : Database.empty.setup schema drop = .ok db) :
    (db.store.collection? C).isSome = true ↔ schema.Needs C := by
  obtain ⟨edges, found, made⟩ := exists_of_andThen_ok done
  cases made
  dsimp only
  rw [Store.isSome_foldl_create, Store.isSome_foldl_create, Schema.needs_iff found]
  have none : ((if drop = true then Store.empty else Database.empty.store).collection? C).isSome = false := by
    cases drop <;> rfl
  simp [none]

/-! ### Every session that can be reached -/

namespace Session.Reachable

variable {kind : EngineKind}

/-- A new session has a new engine, or one that has been set up. -/
theorem engine_of_start (opened : Session.start m kind = .ok s) :
    s.engine = Engine.empty kind ∨ ∃ db, Database.empty.setup m.schema m.settings.drop = .ok db ∧
      s.engine = { Engine.empty kind with database := db } := by
  cases kind with
  | recording =>
      cases opened
      exact .inl rfl
  | plain =>
      obtain ⟨db, done, made⟩ := exists_of_andThen_ok opened
      cases made
      exact .inr ⟨db, done, rfl⟩

/-- An engine gives its own answers. -/
theorem nextRows (h : Session.Reachable m kind s) : s.engine.nextRows = none := by
  obtain ⟨first, opened, steps⟩ := h.steps
  refine steps.nextRows ?_
  rcases engine_of_start opened with same | ⟨db, _, same⟩ <;> rw [same] <;> rfl

theorem database (h : Session.Reachable m kind s) : s.engine.database.Reachable := by
  obtain ⟨first, opened, steps⟩ := h.steps
  refine steps.database (fun db t before => before.execute t) ?_
  rcases engine_of_start opened with same | ⟨db, done, same⟩
  · rw [same]
    exact .empty
  · rw [same]
    exact .setup .empty done

theorem schema (h : Session.Reachable m kind s) : s.model.schema = m.schema := by
  have sound : s.Sound m (Context.OnCourse m .any) fun _ => True :=
    h.reachableBy.sound (fun _ _ _ _ => trivial) (fun mutation _ => mutation.meets_any) fun _ _ => trivial
  rw [sound.model]

/-- The collections are those of the session as it was opened. -/
theorem collections_eq (h : Session.Reachable m kind s) : ∃ first, Session.start m kind = .ok first ∧
    ∀ C, (s.engine.database.store.collection? C).isSome =
      (first.engine.database.store.collection? C).isSome := by
  obtain ⟨first, opened, steps⟩ := h.steps
  refine ⟨first, opened, ?_⟩
  exact steps.database (I := fun db => ∀ C, (db.store.collection? C).isSome =
      (first.engine.database.store.collection? C).isSome)
    (fun db t before C => (isSome_collection?_execute db t C).trans (before C)) fun _ => rfl

/-- There are all the collections that the schema needs, or none. -/
theorem collections (h : Session.Reachable m kind s) :
    (∀ C, s.engine.database.store.collection? C = none) ∨
      ∀ C, (s.engine.database.store.collection? C).isSome = true ↔ m.schema.Needs C := by
  obtain ⟨first, opened, same⟩ := h.collections_eq
  rcases engine_of_start opened with new | ⟨db, done, made⟩
  · refine .inl fun C => Option.not_isSome_iff_eq_none.mp ?_
    rw [same C, new]
    exact Bool.false_ne_true
  · refine .inr fun C => ?_
    rw [same C, made]
    exact Database.isSome_of_setup done

/-- With a plain engine, which is set up at once, there are all the collections that the schema needs. -/
theorem isSome_iff_needs (h : Session.Reachable m .plain s) (C : String) :
    (s.engine.database.store.collection? C).isSome = true ↔ m.schema.Needs C := by
  obtain ⟨first, opened, same⟩ := h.collections_eq
  obtain ⟨db, done, made⟩ := exists_of_andThen_ok opened
  cases made
  rw [same C]
  exact Database.isSome_of_setup done

end Session.Reachable

/-- Mutations of some kind are mutations. -/
theorem Session.ReachableBy.reachable {allowed : Mutation → Prop} {kind : EngineKind}
    (h : Session.ReachableBy allowed m kind s) : Session.Reachable m kind s := by
  induction h with
  | start opened => exact .start opened
  | move _ move ih =>
      refine .move ih ?_
      cases move with
      | advance now => exact .advance now
      | name name responseNames => exact .name name responseNames
      | drop name => exact .drop name
      | contribute known o _ => exact .contribute known o
      | run operations _ => exact .run operations
      | hold => exact .hold
      | release => exact .release
      | resolve resolved => exact .resolve resolved
      | query q => exact .query q

theorem Session.reachable_of_after {requests : List (List Operation)}
    (h : Session.after? m requests = some s) : Session.Reachable m .plain s := by
  have any : Session.ReachableBy (fun _ => True) m .plain s :=
    Session.reachable_after h fun _ _ _ _ => trivial
  exact any.reachable

end DocGraph
