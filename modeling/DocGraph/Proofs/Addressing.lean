import DocGraph.Proofs.Locks
import DocGraph.Proofs.Nesting
import DocGraph.Proofs.Paging
import DocGraph.Proofs.Removal

/-! # Mutations that are addressed by an id

Deletions and updates name a collection and an id. The id is read for its key, and the document under that
key is taken out or merged into. In a database that an engine can come to, a document is stored under the key
that its id says (`Database.Reachable.get?_iff`), so for an id of the collection this is the document of the
id. The main statement is `addressed_alone`: no other document changes but edges at this one, and if there is
no such document, a deletion comes to nothing and an update is refused. -/

namespace DocGraph

variable {α : Type} {m : Model} {c : Context} {write : NameSet} {params : Record Json} {run run' : Run}
  {db : Database} {C i : String}

open Synthesis

/-! ### Documents of an id -/

/-- The document under the key of an id of a collection is the one of the id. -/
theorem Database.Reachable.get?_iff {coll : Collection} {key : String} {d : Document} (h : db.Reachable)
    (proper : IsCollectionName C) (home : ∀ id, DocumentId.parse i = .ok id → id.collection = C)
    (there : db.store.collection? C = some coll) :
    Run.keyOf (.str i) = .ok key ∧ coll.get? key = some d ↔
      (key, d) ∈ db.store.documents C ∧ Document.id d = .str i := by
  rw [Store.documents_eq there]
  constructor
  · rintro ⟨read, found⟩
    obtain ⟨id, parsed, rfl⟩ := exists_of_map_ok read
    have entry := NameMap.mem_of_get? found
    refine ⟨entry, ?_⟩
    rw [← Store.documents_eq there] at entry
    rw [h.keyed.id_eq entry, text_of_parse parsed, home id parsed]
  · rintro ⟨entry, id⟩
    rw [← Store.documents_eq there] at entry
    obtain ⟨n, key_eq, id'⟩ := h.exists_id entry
    have named := Json.str.inj (id'.symm.trans id)
    obtain ⟨read, parsed, _, same⟩ := (text_ofKey_eq_iff proper (toString_ne_empty n)).mp named
    have sorted := (h.ordered C).get?_of_mem entry
    rw [Store.documents_eq there] at sorted
    refine ⟨?_, sorted⟩
    show (DocumentId.parse i).map DocumentId.key = .ok key
    rw [parsed]
    exact congrArg Except.ok (same.trans key_eq.symm)

theorem Database.Reachable.get?_eq_none {coll : Collection} (h : db.Reachable) (proper : IsCollectionName C)
    (home : ∀ id, DocumentId.parse i = .ok id → id.collection = C)
    (there : db.store.collection? C = some coll)
    (absent : ∀ e ∈ db.store.documents C, Document.id e.2 ≠ .str i) (key : String)
    (read : Run.keyOf (.str i) = .ok key) : coll.get? key = none := by
  rcases found : coll.get? key with _ | d
  · rfl
  · obtain ⟨entry, id⟩ := (h.get?_iff proper home there).mp ⟨read, found⟩
    exact absurd id (absent _ entry)

/-! ### Scripts of updates -/

/-- The names that fields of an input object are given by. -/
def usedNames (data : InputObject) : List String :=
  data.filterMap fun e => e.2.var?

/-- Makes the script fail over each name in an input object, as nothing has been exported. -/
def unexported (data : InputObject) : List Statement :=
  (usedNames data).map fun x => .fail (.ofText s!"Variable ${x} has not been exported")

/-- In a new request no name stands for anything. -/
theorem outcome_imports (none : ∀ x, c.exports.get? x = none) (data : InputObject) :
    outcome (imports data) c = (.ok [], c.add (unexported data)) := by
  induction data generalizing c with
  | nil => simp [imports, unexported, usedNames, Context.add]
  | cons e rest ih =>
      obtain ⟨field, value⟩ := e
      cases value with
      | null | bool | num | str | list | obj =>
          simp only [imports]
          rw [ih none]
          simp [unexported, usedNames, Input.var?]
      | var x =>
          rw [imports, outcome_bind_of_ok (outcome_get c), none x]
          refine (outcome_bind_of_ok (s := c) (t := c.add [_]) rfl _).trans ?_
          refine (ih (c := c.add [_]) none).trans ?_
          simp [unexported, usedNames, Input.var?, Context.add]

/-- All documents stay but those that may go. -/
def Spares (gone : String → Document → Prop) (s s' : Store) : Prop :=
  ∀ D e, e ∈ s.documents D → e ∈ s'.documents D ∨ gone D e.2

/-- The script of an update with the answer under a name: fields are merged into the document of an id, then
statements run that leave all documents but some. -/
def Transaction.Revises (t : Transaction) (name C i : String) (data : InputObject) (patch : Document)
    (gone : String → Document → Prop) (deferred : List Statement) : Prop :=
  ∃ text p q rest, t.statements = .comment text :: (unexported data ++
      .update (varName 0) C (.param p) (.param q) [] ::
        (rest ++ (answerStatements name (varName 0) ++ finale deferred))) ∧
    t.params.get? p = some (.str i) ∧ t.params.get? q = some (.obj patch) ∧
    ∀ {run run'}, run.store.Issued run.lastKey → PerformsAll t.write t.params rest run run' →
      Spares gone run.store run'.store

/-- The error of an update whose document is not there: over the first name in its input, or else over the
id. -/
def missing (C i : String) (data : InputObject) : Error :=
  match usedNames data with
  | x :: _ => .transaction (.thrown s!"Variable ${x} has not been exported")
  | [] =>
    match Run.keyOf (.str i) with
    | .ok key => .transaction (.documentNotFound C key)
    | .error e => e

/-- An update of a document that is not there is refused. -/
theorem outcome_update_missing (var : String) {coll : Collection} {id doc : Ref}
    {imported : List (String × Ref)} {patch : Document} {v : Json}
    (read : Run.bodyOf (run.scope params) doc imported = .ok patch)
    (value : id.value (run.scope params) = .ok v) (writable : C ∈ write)
    (there : run.store.collection? C = some coll)
    (gone : ∀ key, Run.keyOf v = .ok key → coll.get? key = none) :
    outcome (Run.perform write params (.update var C id doc imported)) run =
      (.error (match Run.keyOf v with
        | .ok key => .transaction (.documentNotFound C key)
        | .error e => e), run) := by
  have refused : outcome (Run.update write C v patch) run =
      (.error (match Run.keyOf v with
        | .ok key => .transaction (.documentNotFound C key)
        | .error e => e), run) := by
    unfold Run.update
    rw [outcome_bind, Run.outcome_checkWritable, if_pos (List.contains_iff_mem.mpr writable)]
    dsimp only
    rw [outcome_bind, Run.outcome_ofExcept]
    rcases keyed : Run.keyOf v with e | key
    · rfl
    · dsimp only
      rw [outcome_bind_of_ok (outcome_get run), outcome_bind, Run.outcome_ofExcept, Store.collection, there]
      dsimp only
      rw [gone key keyed]
      rfl
  rw [Run.perform, outcome_bind_of_ok (Run.outcome_body_of_ok read),
    outcome_bind_of_ok (Run.outcome_value_of_ok value), outcome_bind_of_error refused]

theorem bodyOf_param_nil {q : String} {patch : Document} (given : params.get? q = some (.obj patch)) :
    Run.bodyOf (run.scope params) (.param q) [] = .ok patch := by
  simp [Run.bodyOf, Ref.document, Ref.value, Run.scope, given, bind, Except.bind, pure, Except.pure,
    Record.insertAll]

/-- An update of a document that is not there fails, and nothing changes. -/
theorem Transaction.Revises.execute_missing {t : Transaction} {name : String} {data : InputObject}
    {patch : Document} {gone : String → Document → Prop} {deferred : List Statement} {coll : Collection}
    (h : t.Revises name C i data patch gone deferred) (covered : t.Covered)
    (there : db.store.collection? C = some coll)
    (absent : ∀ key, Run.keyOf (.str i) = .ok key → coll.get? key = none) :
    db.execute t = (.error (missing C i data), db) := by
  obtain ⟨text, p, q, rest, script, id, given, _⟩ := h
  have writable : C ∈ t.write := by
    refine (covered.parts (.update (varName 0) C (.param p) (.param q) []) ?_).writes C rfl
    rw [script]
    refine mem_partsOf.mpr ⟨_, List.mem_cons_of_mem _ (List.mem_append_right _ List.mem_cons_self), ?_⟩
    exact List.mem_singleton_self _
  have value : (Ref.param p).value ((Run.start db).scope t.params) = .ok (.str i) := by
    simp [Ref.value, Run.scope, id]
  have refused := outcome_update_missing (varName 0) (bodyOf_param_nil given) value writable there
    absent
  rw [execute_eq, script, Run.performAll, outcome_bind, Run.perform, outcome_pure]
  dsimp only
  unfold unexported missing
  rcases usedNames data with _ | ⟨x, names⟩
  · rw [List.map_nil, List.nil_append, Run.performAll, outcome_bind_of_error refused]
    rfl
  · rw [List.map_cons, List.cons_append, Run.performAll, outcome_bind, Run.perform, Run.outcome_fail]
    rfl

/-- An update that is committed found the document and merged its fields into it. -/
theorem Transaction.Revises.of_committed {t : Transaction} {name : String} {data : InputObject}
    {patch : Document} {gone : String → Document → Prop} {deferred : List Statement} {res : Record Json}
    (h : t.Revises name C i data patch gone deferred) (quiet : ∀ b ∈ partsOf (finale deferred), b.IsQuiet)
    (issued : db.store.Issued db.lastKey) (committed : (db.execute t).1 = .ok res) :
    ∃ coll key old, usedNames data = [] ∧ db.store.collection? C = some coll ∧
      Run.keyOf (.str i) = .ok key ∧ coll.get? key = some old ∧
      Spares gone (db.store.set C (coll.put key (Run.merge old patch))) (db.execute t).2.store := by
  obtain ⟨text, p, q, rest, script, id, given, spares⟩ := h
  obtain ⟨final, ran, executed, rfl⟩ := exists_run_of_execute_ok committed
  have value : (Ref.param p).value ((Run.start db).scope t.params) = .ok (.str i) := by
    simp [Ref.value, Run.scope, id]
  rw [script] at ran
  cases ran with
  | cons remark ran =>
      cases remark
      unfold unexported at ran
      rcases names : usedNames data with _ | ⟨x, others⟩
      · rw [names] at ran
        cases ran with
        | cons update ran =>
            have issued' := (performsAll_singleton.mpr update).issued issued
            obtain ⟨run, ran, last⟩ := performsAll_append.mp ran
            obtain ⟨_, _, _, store, _⟩ := last.answered quiet
            rw [executed, store]
            cases update with
            | @update _ _ _ key _ _ _ coll _ old _ read value' _ there keyed found =>
                cases value.symm.trans value'
                cases (bodyOf_param_nil given).symm.trans read
                exact ⟨coll, key, old, rfl, there, keyed, found, spares issued' ran⟩
      · rw [names] at ran
        cases ran with
        | cons failing _ => cases failing

/-! ### What the statements of an update spare -/

theorem Spares.refl (gone : String → Document → Prop) (s : Store) : Spares gone s s :=
  fun _ _ => .inl

theorem Spares.trans {gone : String → Document → Prop} {s₁ s₂ s₃ : Store} (h : Spares gone s₁ s₂)
    (h' : Spares gone s₂ s₃) : Spares gone s₁ s₃ := by
  intro D e he
  rcases h D e he with kept | left
  · exact h' D e kept
  · exact .inr left

/-- Insertions spare everything. -/
theorem Performs.spares_of_insert {var D : String} {doc : Ref} {imported : List (String × Ref)}
    {ends : Option (Ref × Ref)} {gone : String → Document → Prop}
    (p : Performs write params (.insert var D doc imported ends) run run')
    (issued : run.store.Issued run.lastKey) : Spares gone run.store run'.store := by
  obtain ⟨_, _, _, _, _, adds, _⟩ := p.adds_of_insert issued
  exact fun C e he => .inl ((adds C e).mpr (.inl he))

theorem admits_spares (m : Model) (p : String) (i : String) (gone : String → Document → Prop) :
    Admits m (fun _ _ => True) fun params s s' => params.get? p = some (.str i) → Spares gone s s' where
  refl _ s _ := .refl gone s
  trans h h' given := (h given).trans (h' given)
  document _ _ _ _ _ issued performed _ := performed.spares_of_insert issued
  edge issued performed _ := performed.spares_of_insert issued

/-- The edges that leave an id in the collections of the fields of an input object. -/
def Replaces (m : Model) (u : TypeDef) (data : InputObject) (i D : String) (e : Document) : Prop :=
  ∃ name value f, (name, value) ∈ data ∧ m.edgeField? u name value = some f ∧
    D = edgeCollection u.name f.name ∧ e.read Field.source = .str i

theorem read_of_touches_outbound {e : Document} (h : Run.touches .outbound (.str i) e = true) :
    e.read Field.source = .str i := by
  unfold Run.touches at h
  dsimp only at h
  split at h
  · rename_i v found
    rw [Document.read_of_get? found, Json.same_str.mp h]
  · cases h

/-- The edges of a field that leave an id are taken out, and nothing else changes. -/
theorem dropEdges_effects {type p : String} {f : FieldDef} :
    Effects (Model.dropEdges type f (.param p)) c fun _ params run run' =>
      params.get? p = some (.str i) → run'.lastKey = run.lastKey ∧ run'.vars = run.vars ∧
        ∀ D e, e ∈ run'.store.documents D ↔ e ∈ run.store.documents D ∧
          ¬ (D = edgeCollection type f.name ∧ Run.touches .outbound (.str i) e.2 = true) := by
  unfold Model.dropEdges
  refine (Idle.lockWrite _).bind_effects fun _ c₁ _ => (Idle.comment _).bind_effects fun _ c₂ _ => ?_
  intro a c' done
  cases done
  refine ⟨⟨id, Nat.le_refl _⟩, [_], rfl, ?_⟩
  intro write params run run' _ _ performed given
  cases performsAll_singleton.mp performed with
  | @removeEdges _ _ _ _ v coll value' _ there =>
      have value : (Ref.param p).value (run.scope params) = .ok (.str i) := by
        simp [Ref.value, Run.scope, given]
      cases value.symm.trans value'
      refine ⟨rfl, rfl, fun D e => ?_⟩
      dsimp only
      rw [Store.documents_set]
      by_cases here : D = edgeCollection type f.name
      · rw [if_pos here, here, Store.documents_eq there]
        simp [Collection.eraseWhere]
      · rw [if_neg here]
        simp [here]

theorem dropEdges_spares {u : TypeDef} {data : InputObject} {name p : String} {value : Input} {f : FieldDef}
    (field : (name, value) ∈ data) (edge : m.edgeField? u name value = some f) :
    Changes (fun params s s' => params.get? p = some (.str i) → Spares (Replaces m u data i) s s')
      (Model.dropEdges u.name f (.param p)) c := by
  refine (dropEdges_effects (i := i)).mono fun _ params run run' effect given D e he => ?_
  obtain ⟨_, _, documents⟩ := effect given
  by_cases dropped : D = edgeCollection u.name f.name ∧ Run.touches .outbound (.str i) e.2 = true
  · exact .inr ⟨name, value, f, field, edge, dropped.1, read_of_touches_outbound dropped.2⟩
  · exact .inl ((documents D e).mpr ⟨he, dropped⟩)

/-! ### Scripts that updates are put into -/

/-- The fields that change in an updated document of a type. -/
def Model.revised (m : Model) (type : String) (d : Document) : Document :=
  (Record.insert d Field.updated (.int m.now)).insert Field.typeName (.str type)

/-- The fields that change in an updated edge. -/
def Model.reannotated (m : Model) (d : Document) : Document :=
  ((Record.swapErase d Field.source).swapErase Field.target).insert Field.updated (.int m.now)

/-- A context in which an update has been put into statements makes the script of one. -/
theorem Transaction.Revises.of_context {name text p q : String} {data : InputObject} {patch : Document}
    {gone : String → Document → Prop} {rest : List Statement}
    (statements : c.statements = (.comment text :: (unexported data ++
      [.update (varName 0) C (.param p) (.param q) []])) ++ rest)
    (id : c.params.get? p = some (.str i)) (given : c.params.get? q = some (.obj patch))
    (spares : ∀ {run run'}, run.store.Issued run.lastKey → PerformsAll c.write c.params rest run run' →
      Spares gone run.store run'.store) :
    (c.answer name (varName 0)).transaction.Revises name C i data patch gone c.deferred := by
  refine ⟨text, p, q, rest, ?_, id, given, spares⟩
  rw [Context.statements_transaction]
  show (c.statements ++ _) ++ _ = _
  rw [statements]
  simp
  rfl

theorem objectEdges_spares (u : TypeDef) (data : InputObject) (var p : String) :
    Changes (fun params s s' => params.get? p = some (.str i) → Spares (Replaces m u data i) s s')
      (m.objectEdges var u (some (.param p)) data) c := by
  refine (admits_spares m p i (Replaces m u data i)).objectEdges var u _ data c ?_ ?_
  · exact fun _ _ _ _ _ => .of_all fun _ _ => trivial
  · intro id same name value f c' field edge
    cases same
    exact dropEdges_spares field edge

theorem update_revises {number : Nat} {remembers : Bool} {type : String} {data : InputObject}
    {exports : Option Selection} (name : String) :
    Ensures (m.update type (.str i) data exports none) (Context.empty number remembers) fun var c =>
      ∃ u d, m.objectType type = .ok u ∧ m.storedFields u (literals data) = .ok d ∧
        (c.answer name var).transaction.Revises name type i data (m.revised type d) (Replaces m u data i)
          c.deferred := by
  unfold Model.update
  refine ensureOpen_ensures.bind fun _ c₁ h₁ => .ofExcept_bind fun u found => ?_
  subst h₁
  refine (push_ensures _).bind fun _ c₂ h₂ => ?_
  refine Ensures.bind (fun r c₃ done => Effects.of_freshParam_ok done) fun r c₃ h₃ => ?_
  obtain ⟨rfl, rfl, _⟩ := h₃
  subst h₂
  refine Ensures.bind (fun imported c₄ done => done) fun imported c₄ h₄ => ?_
  cases (outcome_imports (fun _ => rfl) data).symm.trans h₄
  refine .ofExcept_bind fun d read => ?_
  refine Ensures.bind (fun r c₅ done => Effects.of_freshParam_ok done) fun r c₅ h₅ => ?_
  obtain ⟨rfl, rfl, free⟩ := h₅
  refine Ensures.bind (fun var c₆ done => done) fun var c₆ h₆ => ?_
  cases h₆
  refine Ensures.bind (fun _ c₇ done => done) fun _ c₇ h₇ => ?_
  cases h₇
  refine (push_ensures _).bind fun _ c₈ h₈ => ?_
  intro var c' done
  obtain ⟨grows, rest, statements, spares⟩ :=
    (admits_spares m (paramName 0) i _).edges_bind (objectEdges_spares u data _ _) _ _ done
  obtain rfl : var = varName 0 := by
    obtain ⟨_, _, _, done⟩ := outcome_bind_ok.mp done
    obtain ⟨_, _, _, done⟩ := outcome_bind_ok.mp done
    obtain ⟨_, _, _, done⟩ := outcome_bind_ok.mp done
    obtain ⟨_, _, _, done⟩ := outcome_bind_ok.mp done
    cases done
    rfl
  subst h₈
  have named := grows.params ((Context.extends_addParam _ free).params (Context.get?_addParam _ _))
  refine ⟨u, d, found, read, .of_context statements named (grows.params (Context.get?_addParam _ _)) ?_⟩
  exact fun issued performed => spares id issued performed named

theorem updateEdge_revises {number : Nat} {remembers : Bool} {type field : String} {data : InputObject}
    {exports : Option Selection} (name : String) :
    Ensures (m.updateEdge type field (.str i) data exports none) (Context.empty number remembers) fun var c =>
      ∃ d, Input.literalFields (literals data) = .ok d ∧
        (c.answer name var).transaction.Revises name (edgeCollection type field) i data (m.reannotated d)
          (fun _ _ => False) c.deferred := by
  unfold Model.updateEdge
  refine ensureOpen_ensures.bind fun _ c₁ h₁ => ?_
  subst h₁
  refine Ensures.bind (fun var c₂ done => done) fun var c₂ h₂ => ?_
  cases h₂
  refine Ensures.bind (fun _ c₃ done => done) fun _ c₃ h₃ => ?_
  cases h₃
  refine (push_ensures _).bind fun _ c₄ h₄ => ?_
  subst h₄
  refine Ensures.bind (fun imported c₅ done => done) fun imported c₅ h₅ => ?_
  cases (outcome_imports (fun _ => rfl) data).symm.trans h₅
  refine .ofExcept_bind fun d read => ?_
  refine Ensures.bind (fun r c₆ done => Effects.of_freshParam_ok done) fun r c₆ h₆ => ?_
  obtain ⟨rfl, rfl, _⟩ := h₆
  refine Ensures.bind (fun r c₇ done => Effects.of_freshParam_ok done) fun r c₇ h₇ => ?_
  obtain ⟨rfl, rfl, free⟩ := h₇
  refine (push_ensures _).bind fun _ c₈ h₈ => ?_
  subst h₈
  refine Ensures.bind (fun _ c₉ done => done) fun _ c₉ exported => .of_pure _ ?_
  obtain ⟨grows, rest, statements, spares⟩ :=
    (admits_spares m (paramName 1) i fun _ _ => False).exportSelection _ _ _ _ exported
  have named := grows.params (Context.get?_addParam _ _)
  have given := grows.params ((Context.extends_addParam _ free).params (Context.get?_addParam _ _))
  exact ⟨d, read, .of_context statements named given fun issued performed => spares id issued performed named⟩

/-! ### Collections of a type and of its edges -/

theorem Text.toUpper_ne_nil (x : Char) : Text.toUpper x ≠ [] := by
  have forms : ∀ e ∈ Text.upperForms, e.2 ≠ [] := by decide
  unfold Text.toUpper
  split
  · rename_i form found
    obtain ⟨before, after, split, _⟩ := List.lookup_eq_some_iff.mp found
    have mem : (x.toNat, form) ∈ Text.upperForms := by simp [split]
    simpa using forms _ mem
  · simp

theorem Text.length_le_capitalize (s : String) : s.toList.length ≤ (Text.capitalize s).toList.length := by
  unfold Text.capitalize
  split
  · simp [*]
  · rename_i x rest chars
    have := List.length_pos_iff.mpr (Text.toUpper_ne_nil x)
    simp only [chars, String.toList_ofList, List.length_append, List.length_cons]
    omega

/-- The edges that leave the documents of a collection are in others. -/
theorem edgeCollection_ne (type field : String) : edgeCollection type field ≠ type := by
  intro same
  have lengths := congrArg (fun s => s.toList.length) same
  have := Text.length_le_capitalize type
  simp [edgeCollection] at lengths this
  omega

/-! ### Mutations with an address -/

namespace Mutation

/-- The collection and the id that a mutation is addressed by. -/
def address? : Mutation → Option (String × Input)
  | update type id _ | delete type id => some (type, id)
  | updateEdge type field id _ | deleteEdge type field id => some (edgeCollection type field, id)
  | create .. | createEdge .. => none

/-- What comes of a mutation if the document of its id is not there. -/
def missed (name i : String) : Mutation → Outcome
  | update type _ data => .error (missing type i data)
  | updateEdge type field _ data => .error (missing (edgeCollection type field) i data)
  | _ => .ok [(name, .null)]

/-- What a mutation makes of the document of its id: nothing is left of it, or the fields that are given are
merged into it. -/
inductive Turns (m : Model) : Mutation → Document → Option Document → Prop
  | delete (type : String) (id : Input) (d : Document) : Turns m (.delete type id) d none
  | deleteEdge (type field : String) (id : Input) (d : Document) :
      Turns m (.deleteEdge type field id) d none
  | update {type : String} {u : TypeDef} {data : InputObject} {new : Document} (id : Input) (d : Document)
      (found : m.objectType type = .ok u) (read : m.storedFields u (literals data) = .ok new) :
      Turns m (.update type id data) d (some (Run.merge d (m.revised type new)))
  | updateEdge {data : InputObject} {new : Document} (type field : String) (id : Input) (d : Document)
      (read : Input.literalFields (literals data) = .ok new) :
      Turns m (.updateEdge type field id data) d (some (Run.merge d (m.reannotated new)))

/-- The edges that may go with a mutation at an id: with a document those at it go, and the fields that are
given take the place of the edges that left the document through them. -/
inductive Detaches (m : Model) (i : String) : Mutation → String → Document → Prop
  | delete {type D : String} {u : TypeDef} {touching : List String} {e : Document} (id : Input)
      (found : m.objectType type = .ok u) (collections : m.touchingCollections u = .ok touching)
      (touched : D ∈ touching) (at_end : e.IsAt i) : Detaches m i (.delete type id) D e
  | update {type D : String} {u : TypeDef} {data : InputObject} {e : Document} (id : Input)
      (found : m.objectType type = .ok u) (replaced : Replaces m u data i D e) :
      Detaches m i (.update type id data) D e

/-- The script of a mutation with an address is that of a removal or of an update. -/
inductive Acts (m : Model) (mutation : Mutation) (name C i : String) (deferred : List Statement)
    (t : Transaction) : Prop
  | removes {cleared? : Option (List String)} (script : t.Removes name C i cleared? deferred)
      (missed : mutation.missed name i = .ok [(name, .null)]) (turns : ∀ d, mutation.Turns m d none)
      (detaches : ∀ D ∈ cleared?.getD [], ∀ e, Document.IsAt e i → mutation.Detaches m i D e)
  | revises {data : InputObject} {patch : Document} {gone : String → Document → Prop}
      (script : t.Revises name C i data patch gone deferred)
      (missed : mutation.missed name i = .error (missing C i data))
      (turns : ∀ d, mutation.Turns m d (some (Run.merge d patch)))
      (detaches : ∀ D e, gone D e → mutation.Detaches m i D e) (here : ∀ e, ¬ gone C e)

theorem synthesize_acts {number : Nat} {remembers : Bool} {exports : Option Selection} {mutation : Mutation}
    (name : String) (address : mutation.address? = some (C, .str i)) :
    Ensures (mutation.synthesize m exports none) (Context.empty number remembers) fun var c =>
      mutation.Acts m name C i c.deferred (c.answer name var).transaction := by
  cases mutation with
  | create | createEdge => cases address
  | delete type id =>
      cases address
      refine (delete_removes name).mono ?_
      rintro var c ⟨u, touching, found, collections, script⟩
      exact .removes script rfl (.delete _ _) fun D touched e => .delete _ found collections touched
  | deleteEdge type field id =>
      cases address
      refine (deleteEdge_removes name).mono fun var c script => ?_
      exact .removes script rfl (.deleteEdge _ _ _) fun D touched => by cases touched
  | update type id data =>
      cases address
      refine (update_revises name).mono ?_
      rintro var c ⟨u, d, found, read, script⟩
      refine .revises script rfl (fun _ => .update _ _ found read) (fun _ _ => .update _ found) ?_
      rintro e ⟨_, _, f, _, _, same, _⟩
      rw [Schema.name_of_typeDef (Model.typeDef_of_objectType found).1] at same
      exact edgeCollection_ne _ _ same.symm
  | updateEdge type field id data =>
      cases address
      refine (updateEdge_revises name).mono ?_
      rintro var c ⟨d, read, script⟩
      exact .revises script rfl (fun _ => .updateEdge _ _ _ _ read) (fun _ _ => False.elim) fun _ => id

/-- Without the document, the mutation comes to nothing. -/
theorem Acts.execute_missing {mutation : Mutation} {name : String} {deferred : List Statement}
    {t : Transaction} {coll : Collection} (h : mutation.Acts m name C i deferred t) (covered : t.Covered)
    (there : db.store.collection? C = some coll)
    (gone : ∀ key, Run.keyOf (.str i) = .ok key → coll.get? key = none) :
    db.execute t = (mutation.missed name i, db) := by
  cases h with
  | removes script missed =>
      rw [missed]
      exact script.execute_missing there gone
  | revises script missed =>
      rw [missed]
      exact script.execute_missing covered there gone

/-- What is committed has found the collection. -/
theorem Acts.exists_collection {mutation : Mutation} {name : String} {deferred : List Statement}
    {t : Transaction} {res : Record Json} (h : mutation.Acts m name C i deferred t)
    (quiet : ∀ b ∈ partsOf (finale deferred), b.IsQuiet) (reachable : db.Reachable)
    (committed : (db.execute t).1 = .ok res) : ∃ coll, db.store.collection? C = some coll := by
  cases h with
  | removes script =>
      obtain ⟨coll, there, _⟩ := script.of_committed quiet reachable.keyed committed
      exact ⟨coll, there⟩
  | revises script =>
      obtain ⟨coll, _, _, _, there, _⟩ := script.of_committed quiet reachable.issued committed
      exact ⟨coll, there⟩

/-- With a document, that one changes, and no other but edges that may go. -/
structure Confined (m : Model) (mutation : Mutation) (name C i : String) (e : String × Document)
    (res : Record Json) (s s' : Store) : Prop where
  turned : ∃ after?, mutation.Turns m e.2 after? ∧ (after? = none → res.get? name = some (.obj e.2)) ∧
    ∀ d, (e.1, d) ∈ s'.documents C ↔ after? = some d
  others : ∀ D o, o ∈ s.documents D → (D, o.1) ≠ (C, e.1) →
    o ∈ s'.documents D ∨ mutation.Detaches m i D o.2

end Mutation

theorem mem_documents_put_of_ne {s : Store} {coll : Collection} {key D : String} {d : Document}
    {o : String × Document} (there : s.collection? C = some coll) (mem : o ∈ s.documents D)
    (other : (D, o.1) ≠ (C, key)) : o ∈ (s.set C (coll.put key d)).documents D := by
  rw [Store.documents_set]
  by_cases here : D = C
  · subst here
    rw [if_pos rfl]
    rw [Store.documents_eq there] at mem
    exact NameMap.mem_insert_of_ne mem fun same => other (by rw [same])
  · rw [if_neg here]
    exact mem

/-- A removal is confined to the document of its id. -/
theorem Mutation.Confined.of_stays {mutation : Mutation} {name : String} {e : String × Document}
    {res : Record Json} {s s' : Store} {cleared : List String} (turns : mutation.Turns m e.2 none)
    (detaches : ∀ D ∈ cleared, ∀ e, Document.IsAt e i → mutation.Detaches m i D e)
    (result : res.get? name = some (.obj e.2)) (text : (DocumentId.ofKey C e.1).text = i)
    (documents : ∀ D, s'.documents D = (s.documents D).filter (stays C e.1 cleared D)) :
    mutation.Confined m name C i e res s s' where
  turned := by
    refine ⟨none, turns, fun _ => result, fun d => ?_⟩
    rw [documents]
    constructor
    · intro mem
      simpa [stays] using (List.mem_filter.mp mem).2
    · intro same
      cases same
  others D o mem other := by
    rw [documents]
    by_cases kept : stays C e.1 cleared D o = true
    · exact .inl (List.mem_filter.mpr ⟨mem, kept⟩)
    · rw [stays, text] at kept
      have apart : (D == C && o.1 == e.1) = false := by
        simpa using fun here same => other (by rw [here, same])
      rw [apart, Bool.not_false, Bool.true_and, Bool.not_eq_true', Bool.not_eq_false,
        Bool.and_eq_true] at kept
      exact .inr (detaches D (List.contains_iff_mem.mp kept.1) o.2 (touches_any_iff.mp kept.2))

/-- An update is confined to the document of its id. -/
theorem Mutation.Confined.of_spares {mutation : Mutation} {name : String} {e : String × Document}
    {res : Record Json} {s s' : Store} {coll : Collection} {new : Document}
    {gone : String → Document → Prop} (there : s.collection? C = some coll) (ordered : s'.Ordered)
    (turns : mutation.Turns m e.2 (some new)) (detaches : ∀ D e, gone D e → mutation.Detaches m i D e)
    (here : ∀ e, ¬ gone C e) (spares : Spares gone (s.set C (coll.put e.1 new)) s') :
    mutation.Confined m name C i e res s s' where
  turned := by
    have put : (e.1, new) ∈ (s.set C (coll.put e.1 new)).documents C := by
      rw [Store.documents_set, if_pos rfl]
      exact NameMap.mem_insert_self
    have kept := (spares C _ put).resolve_right (here _)
    refine ⟨some new, turns, fun no => (by cases no), fun d => ⟨fun mem => ?_, fun same => ?_⟩⟩
    · exact ((ordered C).get?_of_mem kept).symm.trans ((ordered C).get?_of_mem mem)
    · cases same
      exact kept
  others D o mem other :=
    (spares D o (mem_documents_put_of_ne there mem other)).imp_right (detaches D o.2)

/-- What is committed is confined to the document of the id. -/
theorem Mutation.Acts.confined {mutation : Mutation} {name : String} {deferred : List Statement}
    {t : Transaction} {res : Record Json} {e : String × Document}
    (h : mutation.Acts m name C i deferred t) (quiet : ∀ b ∈ partsOf (finale deferred), b.IsQuiet)
    (reachable : db.Reachable) (proper : IsCollectionName C)
    (home : ∀ id, DocumentId.parse i = .ok id → id.collection = C) (committed : (db.execute t).1 = .ok res)
    (mem : e ∈ db.store.documents C) (id : Document.id e.2 = .str i) :
    mutation.Confined m name C i e res db.store (db.execute t).2.store := by
  cases h with
  | removes script _ turns detaches =>
      obtain ⟨coll, there, left⟩ := script.of_committed quiet reachable.keyed committed
      obtain ⟨keyed, found⟩ := (reachable.get?_iff proper home there).mpr ⟨mem, id⟩
      rcases left with ⟨gone, _⟩ | ⟨key, d, keyed', found', result, _, documents⟩
      · cases found.symm.trans (gone e.1 keyed)
      · cases keyed.symm.trans keyed'
        cases found.symm.trans found'
        have text := Json.str.inj ((reachable.keyed.id_eq mem).symm.trans id)
        exact .of_stays (turns e.2) detaches result text documents
  | revises script _ turns detaches here =>
      obtain ⟨coll, key, old, _, there, keyed', found', spares⟩ :=
        script.of_committed quiet reachable.issued committed
      obtain ⟨keyed, found⟩ := (reachable.get?_iff proper home there).mpr ⟨mem, id⟩
      cases keyed.symm.trans keyed'
      cases found.symm.trans found'
      exact .of_spares there (reachable.execute t).ordered (turns e.2) detaches here spares

/-- A mutation that is sent alone and addressed by an id of a collection, or by a text that is no id at all,
has to do with the document of the id only. If there is none, a deletion is committed with null, an update is
refused, and nothing changes. If there is one, what is committed takes just that out or merges the fields
into it, and leaves all other documents but edges at this one. -/
theorem addressed_alone (m : Model) (number : Nat) (remembers : Bool) (call : Call) (C i : String)
    (t : Transaction) (db : Database) (root : call.isRoot = true)
    (address : call.mutation.address? = some (C, .str i))
    (submitted : submission? ((Request.start number remembers [call.name]).call m call).1 = some t)
    (reachable : db.Reachable) (proper : IsCollectionName C)
    (home : ∀ id, DocumentId.parse i = .ok id → id.collection = C) :
    ((∃ coll, db.store.collection? C = some coll) →
      (∀ e ∈ db.store.documents C, Document.id e.2 ≠ .str i) →
        db.execute t = (call.mutation.missed call.name i, db)) ∧
    ∀ res, (db.execute t).1 = .ok res → (∃ coll, db.store.collection? C = some coll) ∧
      ∀ e ∈ db.store.documents C, Document.id e.2 = .str i →
        call.mutation.Confined { m with now := call.now } call.name C i e res db.store
          (db.execute t).2.store := by
  obtain ⟨var, c, synthesis, rfl⟩ := exists_of_submission_start root submitted
  have beginning : Course m .any number remembers (Context.empty number remembers) [] [] := .start
  obtain ⟨_, course, _, _⟩ := beginning.synthesis_ok (call.mutation.meets_any _) synthesis
  have acts := Mutation.synthesize_acts call.name address _ _ synthesis
  refine ⟨?_, fun res committed => ⟨?_, fun e mem id => ?_⟩⟩
  · rintro ⟨coll, there⟩ absent
    refine acts.execute_missing course.covers.answer.transaction there ?_
    exact reachable.get?_eq_none proper home there absent
  · exact acts.exists_collection course.quiet reachable committed
  · exact acts.confined course.quiet reachable proper home committed mem id

/-- A root field that gives a person another name. -/
def naming (i : String) : Call where
  now := 7
  isRoot := true
  selection := ⟨"named", []⟩
  mutation := .update "Person" (.str i) [("name", .str "Ann")]

theorem addressed_alone_club :
    (∃ t, submission? ((Request.start 1 true ["left"]).call club (leaving "Person/7")).1 = some t ∧
      clubhouse.execute t = (.ok [("left", .null)], clubhouse)) ∧
    ∃ t res e, submission? ((Request.start 1 true ["named"]).call club (naming "Person/1")).1 = some t ∧
      (clubhouse.execute t).1 = .ok res ∧ e ∈ clubhouse.store.documents "Person" ∧
      Document.id e.2 = .str "Person/1" ∧
      (naming "Person/1").mutation.Confined { club with now := 7 } "named" "Person" "Person/1" e res
        clubhouse.store (clubhouse.execute t).2.store := by
  have collection : (clubhouse.store.collection? "Person").isSome = true := by decide +kernel
  have absent : (clubhouse.store.documents "Person").all
      (fun e => (Document.id e.2).str? != some "Person/7") = true := by
    decide +kernel
  have present : (clubhouse.store.documents "Person").any
      (fun e => (Document.id e.2).str? == some "Person/1") = true := by
    decide +kernel
  have left : (submission? ((Request.start 1 true ["left"]).call club (leaving "Person/7")).1).isSome =
      true := by
    decide +kernel
  have named : (submission? ((Request.start 1 true ["named"]).call club (naming "Person/1")).1).any
      (fun t => Outcome.id? "named" (clubhouse.execute t).1 == some "Person/1") = true := by
    decide +kernel
  refine ⟨?_, ?_⟩
  · obtain ⟨t, submitted⟩ := Option.isSome_iff_exists.mp left
    obtain ⟨missed, _⟩ := addressed_alone club 1 true (leaving "Person/7") "Person" "Person/7" t clubhouse rfl
      rfl submitted reachable_clubhouse (by decide) fun id parsed => by rw [eq_of_parse parsed]; decide
    refine ⟨t, submitted, missed (Option.isSome_iff_exists.mp collection) fun e he same => ?_⟩
    have other := List.all_eq_true.mp absent e he
    rw [same] at other
    cases other
  · obtain ⟨t, submitted, ok⟩ := (Option.any_eq_true _ _).mp named
    obtain ⟨res, _, committed, _⟩ := exists_of_id? (beq_iff_eq.mp ok)
    obtain ⟨e, he, same⟩ := List.any_eq_true.mp present
    have id := Json.eq_str_of_str? (beq_iff_eq.mp same)
    obtain ⟨_, alone⟩ := addressed_alone club 1 true (naming "Person/1") "Person" "Person/1" t clubhouse rfl
      rfl submitted reachable_clubhouse (by decide) fun id parsed => by rw [eq_of_parse parsed]; decide
    exact ⟨t, res, e, submitted, committed, he, id, (alone res committed).2 e he id⟩

/-- What a failed request says. -/
def Outcome.message? : Outcome → Option String
  | .error e => some e.message
  | .ok _ => none

/-- Of an id only the key counts: a deletion of a person by an id of a team takes out the person of that key.
And a text that is no id is refused as such. -/
theorem addressed_elsewhere :
    clubhouse.Reachable ∧ (∀ e ∈ clubhouse.store.documents "Person", Document.id e.2 ≠ .str "Team/1") ∧
    (∃ t, submission? ((Request.start 1 true ["left"]).call club (leaving "Team/1")).1 = some t ∧
      Outcome.id? "left" (clubhouse.execute t).1 = some "Person/1") ∧
    ∃ t, submission? ((Request.start 1 true ["named"]).call club (naming "abc")).1 = some t ∧
      Outcome.message? (clubhouse.execute t).1 = some "Input error: 'abc' is not a document id" := by
  have absent : (clubhouse.store.documents "Person").all
      (fun e => (Document.id e.2).str? != some "Team/1") = true := by
    decide +kernel
  have left : (submission? ((Request.start 1 true ["left"]).call club (leaving "Team/1")).1).any
      (fun t => Outcome.id? "left" (clubhouse.execute t).1 == some "Person/1") = true := by
    decide +kernel
  have named : (submission? ((Request.start 1 true ["named"]).call club (naming "abc")).1).any
      (fun t => Outcome.message? (clubhouse.execute t).1 ==
        some "Input error: 'abc' is not a document id") = true := by
    decide +kernel
  obtain ⟨t, submitted, removed⟩ := (Option.any_eq_true _ _).mp left
  obtain ⟨t', submitted', refused⟩ := (Option.any_eq_true _ _).mp named
  refine ⟨reachable_clubhouse, fun e he same => ?_, ⟨t, submitted, beq_iff_eq.mp removed⟩,
    t', submitted', beq_iff_eq.mp refused⟩
  have other := List.all_eq_true.mp absent e he
  rw [same] at other
  cases other

end DocGraph
