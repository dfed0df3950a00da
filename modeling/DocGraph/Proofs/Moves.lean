import DocGraph.Session
import DocGraph.Proofs.Request
import DocGraph.Proofs.Store

/-! # Moves of a session

A session makes its moves in any order, with any number of requests under way at the same time and
transactions that the engine holds back. All transactions that it ever runs are those of contexts under any
rule that lasts. So what every such transaction keeps, a session keeps (`Session.Sound`), with one lemma for
each move; `Session.ReachableBy.follows` is what it comes to, and `Session.ReachableBy.sound` for contexts
on course. -/

namespace DocGraph

variable {m : Model} {D : Demands} {allowed : Mutation → Prop} {R : Context → Prop}
  {I : Database → Prop} {s s' : Session}

/-! ### Moves -/

/-- What can happen in a session. -/
inductive Session.Move (s : Session) : Session → Prop
  /-- Time passes. -/
  | advance (now : Int) : Move s { s with model := { s.model with now := now } }
  | name (name : String) (responseNames : List String) : Move s (s.nameRequest name responseNames).2
  | drop (name : String) : Move s (s.dropRequest name).2
  | contribute {r : Request} (known : r ∈ s.requests) (o : Operation) : Move s (s.contribute r o).2
  | run (operations : List Operation) : Move s (s.run operations).2.2
  | hold : Move s { s with engine := { s.engine with holds := true } }
  | release : Move s s.release.2
  | resolve {slot : String} {answer : FieldAnswer} {s' : Session}
      (resolved : s.resolve slot = some (answer, s')) : Move s s'
  | query (q : ReadQuery) : Move s (outcome (Session.query q) s).2

/-- The sessions that can be reached from a new one. -/
inductive Session.Reachable (m : Model) (kind : EngineKind) : Session → Prop
  | start {s : Session} (opened : Session.start m kind = .ok s) : Reachable m kind s
  | move {s s' : Session} (before : Reachable m kind s) (move : s.Move s') : Reachable m kind s'

/-- What can happen in a session whose mutations are all of some kind. -/
inductive Session.MoveBy (allowed : Mutation → Prop) (s : Session) : Session → Prop
  | advance (now : Int) : MoveBy allowed s { s with model := { s.model with now := now } }
  | name (name : String) (responseNames : List String) :
      MoveBy allowed s (s.nameRequest name responseNames).2
  | drop (name : String) : MoveBy allowed s (s.dropRequest name).2
  | contribute {r : Request} (known : r ∈ s.requests) (o : Operation) (kind : allowed o.mutation) :
      MoveBy allowed s (s.contribute r o).2
  | run (operations : List Operation) (kind : ∀ o ∈ operations, allowed o.mutation) :
      MoveBy allowed s (s.run operations).2.2
  | hold : MoveBy allowed s { s with engine := { s.engine with holds := true } }
  | release : MoveBy allowed s s.release.2
  | resolve {slot : String} {answer : FieldAnswer} {s' : Session}
      (resolved : s.resolve slot = some (answer, s')) : MoveBy allowed s s'
  | query (q : ReadQuery) : MoveBy allowed s (outcome (Session.query q) s).2

/-- The sessions that can be reached from a new one by mutations of some kind. -/
inductive Session.ReachableBy (allowed : Mutation → Prop) (m : Model) (kind : EngineKind) :
    Session → Prop
  | start {s : Session} (opened : Session.start m kind = .ok s) : ReachableBy allowed m kind s
  | move {s s' : Session} (before : ReachableBy allowed m kind s) (move : s.MoveBy allowed s') :
      ReachableBy allowed m kind s'

theorem Session.Reachable.reachableBy {kind : EngineKind} (h : Session.Reachable m kind s) :
    Session.ReachableBy (fun _ => True) m kind s := by
  induction h with
  | start opened => exact .start opened
  | move _ move ih =>
      refine .move ih ?_
      cases move with
      | advance now => exact .advance now
      | name name responseNames => exact .name name responseNames
      | drop name => exact .drop name
      | contribute known o => exact .contribute known o trivial
      | run operations => exact .run operations fun _ _ => trivial
      | hold => exact .hold
      | release => exact .release
      | resolve resolved => exact .resolve resolved
      | query q => exact .query q

/-! ### What all moves keep -/

/-- Every transaction under a rule keeps a property of databases. -/
def KeptUnder (R : Context → Prop) (I : Database → Prop) : Prop :=
  ∀ db t, t.Follows R → I db → I (db.execute t).2

/-- All requests and transactions of a session are under a rule, and its database has a property. -/
structure Session.Sound (m : Model) (R : Context → Prop) (I : Database → Prop) (s : Session) : Prop where
  model : s.model = { m with now := s.model.now }
  database : I s.engine.database
  requests : ∀ r ∈ s.requests, r.Follows R
  held : ∀ h ∈ s.held, h.transaction.Follows R

namespace Session.Sound

/-- Names, slots and the state of the engine apart from its database do not matter. -/
theorem of_eq (h : s.Sound m R I) (model : s'.model = s.model)
    (database : s'.engine.database = s.engine.database) (requests : s'.requests = s.requests)
    (held : s'.held = s.held) : s'.Sound m R I where
  model := by
    rw [model]
    exact h.model
  database := by
    rw [database]
    exact h.database
  requests := by
    rw [requests]
    exact h.requests
  held := by
    rw [held]
    exact h.held

theorem fillSlot (h : s.Sound m R I) (slot : String) (f : WaitingField) : (s.fillSlot slot f).Sound m R I :=
  h.of_eq rfl rfl rfl rfl

theorem putRequest {r : Request} (h : s.Sound m R I) (hr : r.Follows R) : (s.putRequest r).Sound m R I where
  model := h.model
  database := h.database
  requests r' hr' := by
    obtain ⟨o, ho, rfl⟩ := List.mem_map.mp hr'
    split
    · exact hr
    · exact h.requests o ho
  held := h.held

theorem openRequest (h : s.Sound m R I) (lasting : Lasting m allowed R) (names : List String) :
    (s.openRequest names).2.Sound m R I where
  model := h.model
  database := h.database
  requests r hr := by
    rcases List.mem_append.mp hr with hr | hr
    · exact h.requests r hr
    · rw [List.mem_singleton.mp hr]
      exact lasting.follows_start _ _ names
  held := h.held

theorem complete {t : Transaction} (h : s.Sound m R I) (kept : KeptUnder R I) (number : Nat)
    (ht : t.Follows R) : (s.complete number t).Sound m R I := by
  have executed : ({ s with engine := (s.engine.execute t).2 } : Session).Sound m R I :=
    { h with database := kept _ t ht h.database }
  unfold Session.complete
  dsimp only
  split
  · rename_i r found
    exact executed.putRequest ((h.requests r (List.mem_of_find?_eq_some found)).finish _)
  · exact executed

theorem note (h : s.Sound m R I) (t : Transaction) :
    ({ s with engine := s.engine.note t } : Session).Sound m R I := by
  refine h.of_eq rfl ?_ rfl rfl
  show (s.engine.note t).database = s.engine.database
  unfold Engine.note
  split <;> rfl

theorem submit {t : Transaction} (h : s.Sound m R I) (kept : KeptUnder R I) (f : WaitingField)
    (slot : String) (ht : t.Follows R) : (s.submit f slot t).2.Sound m R I := by
  unfold Session.submit
  dsimp only
  split
  · refine { h.note t with held := fun o ho => ?_ }
    rcases List.mem_append.mp ho with ho | ho
    · exact h.held o ho
    · rw [List.mem_singleton.mp ho]
      exact ht
  · exact ((h.note t).complete kept f.request ht).fillSlot slot f

theorem contribute {r : Request} (h : s.Sound m R I) (lasting : Lasting m allowed R)
    (kept : KeptUnder R I) (known : r ∈ s.requests) (o : Operation) (kind : allowed o.mutation) :
    (s.contribute r o).2.Sound m R I := by
  have turn := call_turn m r ⟨s.model.now, o.isRoot, o.selection, o.mutation⟩
  have on := turn.follows lasting kind (h.requests r known)
  unfold Request.call at on
  rw [← h.model] at on
  unfold Session.contribute
  generalize r.contribute s.model o.isRoot o.selection o.mutation = result at on ⊢
  obtain ⟨reply, r'⟩ := result
  have put := h.putRequest on.1
  rcases reply with e | name | _ | ⟨name, t⟩
  · exact put
  · exact put.fillSlot _ _
  · exact put
  · exact put.submit kept _ _ (on.2 t rfl)

theorem contributeAll (h : s.Sound m R I) (lasting : Lasting m allowed R) (kept : KeptUnder R I)
    (number : Nat) (operations : List Operation) (kinds : ∀ o ∈ operations, allowed o.mutation) :
    (s.contributeAll number operations).2.Sound m R I := by
  induction operations generalizing s with
  | nil => exact h
  | cons o operations ih =>
      unfold Session.contributeAll
      split
      · exact h
      · rename_i r found
        refine ih (h.contribute lasting kept (List.mem_of_find?_eq_some found) o ?_) fun o' ho => ?_
        · exact kinds o List.mem_cons_self
        · exact kinds o' (List.mem_cons_of_mem o ho)

theorem release (h : s.Sound m R I) (kept : KeptUnder R I) : s.release.2.Sound m R I := by
  have each : ∀ (held : List HeldTransaction) (s : Session), s.Sound m R I →
      (∀ h ∈ held, h.transaction.Follows R) →
      (held.foldl (fun s h =>
        (s.complete h.field.request h.transaction).fillSlot h.slot h.field) s).Sound m R I := by
    intro held
    induction held with
    | nil => exact fun s h _ => h
    | cons o held ih =>
        intro s h all
        refine ih _ ((h.complete kept _ (all o List.mem_cons_self)).fillSlot _ _) fun x hx => ?_
        exact all x (List.mem_cons_of_mem o hx)
  exact each s.held _ { h with held := nofun } h.held

theorem resolve {slot : String} {answer : FieldAnswer} (h : s.Sound m R I)
    (resolved : s.resolve slot = some (answer, s')) : s'.Sound m R I := by
  obtain ⟨f, _, hf⟩ := Option.map_eq_some_iff.mp resolved
  split at hf
  · cases hf
    exact h
  · cases hf
    exact h.of_eq rfl rfl rfl rfl

theorem resolveAll (h : s.Sound m R I) (slots : List String) : (s.resolveAll slots).2.Sound m R I := by
  induction slots generalizing s with
  | nil => exact h
  | cons slot slots ih =>
      unfold Session.resolveAll
      split
      · exact ih h
      · rename_i answer s' resolved
        exact ih (h.resolve resolved)

theorem run (h : s.Sound m R I) (lasting : Lasting m allowed R) (kept : KeptUnder R I)
    (operations : List Operation) (kinds : ∀ o ∈ operations, allowed o.mutation) :
    (s.run operations).2.2.Sound m R I := by
  have opened := h.openRequest lasting (operations.map fun o => o.selection.responseName)
  have running : ({ (s.openRequest (operations.map fun o => o.selection.responseName)).2 with
      running := some (s.requests.length + 1) } : Session).Sound m R I := opened.of_eq rfl rfl rfl rfl
  exact ((running.contributeAll lasting kept _ operations kinds).resolveAll _).of_eq rfl rfl rfl rfl

theorem query (h : s.Sound m R I) (q : ReadQuery) : (outcome (Session.query q) s).2.Sound m R I := by
  have asked : (outcome (Session.query q) s).2 = { s with engine := (s.engine.answer q).2 } := by
    unfold Session.query
    rw [outcome_bind, outcome_get]
    dsimp only
    rcases s.engine.answer q with ⟨e | rows, engine⟩
    · rfl
    · rfl
  rw [asked]
  refine h.of_eq rfl ?_ rfl rfl
  show (s.engine.answer q).2.database = s.engine.database
  unfold Engine.answer
  split <;> rfl

end Session.Sound

/-! ### New sessions -/

/-- A store without documents. -/
def Store.Vacant (s : Store) : Prop :=
  ∀ name, s.documents name = []

/-- A database without documents, in which every collection that is not for the objects of a type is
for edges. -/
structure Database.IsNew (schema : Schema) (db : Database) : Prop where
  vacant : db.store.Vacant
  kinds : ∀ {C c}, db.store.collection? C = some c → C ∈ schema.documentCollections ∨ c.kind = .edge

theorem Database.isNew_empty (schema : Schema) : Database.empty.IsNew schema where
  vacant _ := rfl
  kinds there := by cases there

theorem Database.isNew_of_setup {schema : Schema} {drop : Bool} {db : Database}
    (done : Database.empty.setup schema drop = .ok db) : db.IsNew schema where
  vacant name := List.eq_nil_iff_forall_not_mem.mpr fun e he =>
    List.not_mem_nil ((Database.isNew_empty schema).vacant name ▸ mem_documents_of_setup done he)
  kinds {C c} there := by
    obtain ⟨edges, _, made⟩ := exists_of_andThen_ok done
    cases made
    rcases Store.old_or_mem_of_foldl_create there with documents | ⟨_, edge⟩
    · rcases Store.old_or_mem_of_foldl_create documents with old | ⟨mem, _⟩
      · cases drop <;> cases old
      · exact Or.inl mem
    · exact Or.inr edge

theorem Session.Sound.start {kind : EngineKind}
    (begins : ∀ db : Database, db.IsNew m.schema → I db) (opened : Session.start m kind = .ok s) :
    s.Sound m R I := by
  have sound : ∀ {db : Database}, db.IsNew m.schema →
      ({ Session.empty m kind with engine := { Engine.empty kind with database := db } } :
        Session).Sound m R I := by
    intro db h
    refine ⟨rfl, begins _ h, fun r hr => ?_, fun p hp => ?_⟩
    · cases hr
    · cases hp
  cases kind with
  | plain =>
      have opened : (Session.empty m .plain).setup = .ok s := opened
      unfold Session.setup at opened
      rcases hd : (Session.empty m .plain).engine.database.setup (Session.empty m .plain).model.schema
        (Session.empty m .plain).model.settings.drop with e | db
      · rw [hd] at opened
        cases opened
      · rw [hd] at opened
        cases opened
        exact sound (Database.isNew_of_setup hd)
  | recording =>
      cases opened
      exact sound (Database.isNew_empty m.schema)

/-- What holds at the beginning and is kept by every transaction under a rule that lasts holds of every
session that can be reached. -/
theorem Session.ReachableBy.follows {kind : EngineKind} (h : Session.ReachableBy allowed m kind s)
    (lasting : Lasting m allowed R) (kept : KeptUnder R I)
    (begins : ∀ db : Database, db.IsNew m.schema → I db) : s.Sound m R I := by
  induction h with
  | start opened => exact .start begins opened
  | move _ move ih =>
      cases move with
      | advance now => exact { ih with model := congrArg (fun m : Model => { m with now := now }) ih.model }
      | name name responseNames => exact (ih.openRequest lasting responseNames).of_eq rfl rfl rfl rfl
      | drop name => exact ih.of_eq rfl rfl rfl rfl
      | contribute known o kind => exact ih.contribute lasting kept known o kind
      | run operations kinds => exact ih.run lasting kept operations kinds
      | hold => exact ih.of_eq rfl rfl rfl rfl
      | release => exact ih.release kept
      | resolve resolved => exact ih.resolve resolved
      | query q => exact ih.query q

/-- Every transaction on course keeps a property of databases. -/
def Kept (m : Model) (D : Demands) (I : Database → Prop) : Prop :=
  ∀ db t, t.OnCourse m D → I db → I (db.execute t).2

/-- What holds at the beginning and is kept by every transaction on course holds of every session that
can be reached. -/
theorem Session.ReachableBy.sound {kind : EngineKind} (h : Session.ReachableBy allowed m kind s)
    (kept : Kept m D I) (meets : ∀ mutation, allowed mutation → ∀ memo, mutation.Meets D memo)
    (begins : ∀ db : Database, db.IsNew m.schema → I db) : s.Sound m (Context.OnCourse m D) I := by
  have on := lasting_onCourse m D
  exact h.follows ⟨on.start, fun kind => on.mutate (meets _ kind)⟩
    (fun db t follows => kept db t follows.onCourse) begins

/-! ### Requests one after the other -/

/-- A request with one root field. -/
def Mutation.request (mutation : Mutation) : List Operation :=
  [⟨true, ⟨"field", []⟩, mutation, "field"⟩]

/-- The session after some requests, with an engine that runs transactions at once. -/
def Session.after? (m : Model) (requests : List (List Operation)) : Option Session :=
  (Session.start m .plain).toOption.map
    (requests.foldl fun s operations => (s.run operations).2.2)

theorem Session.reachable_after {allowed : Mutation → Prop} {requests : List (List Operation)}
    (h : Session.after? m requests = some s)
    (kinds : ∀ operations ∈ requests, ∀ o ∈ operations, allowed o.mutation) :
    Session.ReachableBy allowed m .plain s := by
  have from_any : ∀ s, Session.ReachableBy allowed m .plain s →
      Session.ReachableBy allowed m .plain
        (requests.foldl (fun s operations => (s.run operations).2.2) s) := by
    clear h
    induction requests with
    | nil => exact fun s reachable => reachable
    | cons operations requests ih =>
        intro s reachable
        refine ih (fun o ho => kinds o (List.mem_cons_of_mem _ ho)) _ ?_
        exact .move reachable (.run operations (kinds operations List.mem_cons_self))
  obtain ⟨first, opened, rfl⟩ := Option.map_eq_some_iff.mp h
  rcases hs : Session.start m .plain with e | first'
  · rw [hs] at opened
    cases opened
  · rw [hs] at opened
    cases opened
    exact from_any first (.start hs)

end DocGraph
