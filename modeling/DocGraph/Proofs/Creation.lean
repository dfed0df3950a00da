import DocGraph.Proofs.Effects
import DocGraph.Proofs.Identity
import DocGraph.Proofs.Lifecycle

/-! # The graph that a creation stores

An input object stands for a graph: a document for each object to be created in it, and an edge for each
entry of its edge fields. `Creates` says which documents and edges these are, with the keys that they get
when the objects are gone through from the outside in and in order; nothing in it speaks of statements,
parameters or variables. The main statement is `created_graph`: what a creation has stored once it commits
is that graph, and no more. -/

namespace DocGraph

variable {m : Model} {c : Context} {write : NameSet} {params : Record Json}

open Synthesis

/-! ### Input without variables -/

/-- The fields of an input object hold no variable. -/
def PlainFields (data : List (String × Input)) : Prop :=
  ∃ fields, Input.literalFields data = .ok fields

def PlainItems (items : List Input) : Prop :=
  ∃ values, Input.literalItems items = .ok values

def Input.Plain (v : Input) : Prop :=
  ∃ j, v.literal = .ok j

theorem PlainFields.cons {name : String} {v : Input} {rest : List (String × Input)}
    (h : PlainFields ((name, v) :: rest)) : v.Plain ∧ PlainFields rest := by
  obtain ⟨fields, read⟩ := h
  rw [Input.literalFields] at read
  obtain ⟨j, value, read⟩ := exists_of_andThen_ok read
  obtain ⟨js, others, _⟩ := exists_of_andThen_ok read
  exact ⟨⟨j, value⟩, js, others⟩

theorem PlainItems.cons {v : Input} {rest : List Input} (h : PlainItems (v :: rest)) :
    v.Plain ∧ PlainItems rest := by
  obtain ⟨values, read⟩ := h
  rw [Input.literalItems] at read
  obtain ⟨j, value, read⟩ := exists_of_andThen_ok read
  obtain ⟨js, others, _⟩ := exists_of_andThen_ok read
  exact ⟨⟨j, value⟩, js, others⟩

theorem Input.Plain.fields {data : InputObject} (h : (Input.obj data).Plain) : PlainFields data := by
  obtain ⟨j, read⟩ := h
  rw [Input.literal] at read
  obtain ⟨fields, read, _⟩ := exists_of_map_ok read
  exact ⟨fields, read⟩

theorem Input.Plain.items {items : List Input} (h : (Input.list items).Plain) : PlainItems items := by
  obtain ⟨j, read⟩ := h
  rw [Input.literal] at read
  obtain ⟨values, read, _⟩ := exists_of_map_ok read
  exact ⟨values, read⟩

theorem Input.Plain.var? {v : Input} (h : v.Plain) : v.var? = none := by
  obtain ⟨j, read⟩ := h
  cases v with
  | var name =>
      rw [Input.literal] at read
      cases read
  | null | bool | num | str | list | obj => rfl

theorem PlainFields.get? {data : InputObject} {name : String} {v : Input} (h : PlainFields data)
    (found : data.get? name = some v) : v.Plain := by
  induction data with
  | nil => cases found
  | cons e rest ih =>
      obtain ⟨value, others⟩ := h.cons
      rw [Record.get?_cons] at found
      split at found
      · cases found
        exact value
      · exact ih others found

theorem PlainFields.literals {data : InputObject} (h : PlainFields data) :
    Synthesis.literals data = data := by
  induction data with
  | nil => rfl
  | cons e rest ih =>
      obtain ⟨value, others⟩ := h.cons
      have plain : e.2.var?.isNone = true := by
        rw [value.var?]
        rfl
      unfold Synthesis.literals
      rw [List.filter_cons, if_pos plain]
      exact congrArg (e :: ·) (ih others)

/-- Nothing is imported. -/
theorem PlainFields.imports {data : InputObject} (h : PlainFields data) :
    Synthesis.imports data = pure [] := by
  induction data with
  | nil => rw [Synthesis.imports]
  | cons e rest ih =>
      obtain ⟨name, v⟩ := e
      obtain ⟨value, others⟩ := h.cons
      have plain := value.var?
      cases v with
      | var x => cases plain
      | null | bool | num | str | list | obj =>
          simp only [Synthesis.imports]
          exact ih others

theorem PlainFields.annotations {item : InputObject} (h : PlainFields item) :
    PlainFields (annotations item) := by
  unfold DocGraph.annotations
  rcases found : item.get? "annotations" with _ | v
  · exact ⟨[], rfl⟩
  · cases v with
    | obj fields => exact (h.get? found).fields
    | null | bool | num | str | list | var => exact ⟨[], rfl⟩

/-! ### Entries of a store -/

/-- A document of a store: its collection, the number of its key, and the fields that it is given. -/
structure Entry where
  collection : String
  number : Nat
  fields : Document

namespace Entry

def key (e : Entry) : String := toString e.number

def id (e : Entry) : String := (DocumentId.ofKey e.collection e.key).text

/-- The document, with its key and its id over whatever its fields say. -/
def document (e : Entry) : Document := Run.keyed e.collection e.key e.fields

end Entry

/-- The fields of a new document, with the date and the type over whatever is given. -/
def Model.stamped (m : Model) (type : String) (d : Document) : Document :=
  (Record.insert d Field.created (.int m.now)).insert Field.typeName (.str type)

/-- An edge of a field between two ids, with its ends over whatever its annotations say. -/
def Model.edgeEntry (m : Model) (type field source target : String) (number : Nat) (d : Document) :
    Entry where
  collection := edgeCollection type field
  number := number
  fields := (Record.insert (m.stamped ("_" ++ edgeCollection type field) d) Field.source
    (.str source)).insert Field.target (.str target)

/-! ### The graph of an input object -/

mutual

/-- `Creates m type data k es k'`: after `k` keys have been given out, an object of a type is the entries
`es`, a document and what its edges lead to, and `k'` keys have been given out then. -/
inductive Creates (m : Model) : String → InputObject → Nat → List Entry → Nat → Prop
  | object {type : String} {t : TypeDef} {data : InputObject} {d : Document} {k k' : Nat}
      {es : List Entry} (found : m.objectType type = .ok t) (stored : m.storedFields t data = .ok d)
      (edges : Leaves m (Entry.id ⟨type, k + 1, m.stamped type d⟩) t data (k + 1) es k') :
      Creates m type data k (⟨type, k + 1, m.stamped type d⟩ :: es) k'

/-- The edges that leave a document through the fields of an input object. -/
inductive Leaves (m : Model) : String → TypeDef → InputObject → Nat → List Entry → Nat → Prop
  | none {source : String} {t : TypeDef} {k : Nat} : Leaves m source t [] k [] k
  | stored {source name : String} {t : TypeDef} {value : Input} {rest : InputObject} {k k' : Nat}
      {es : List Entry} (other : m.edgeField? t name value = none)
      (more : Leaves m source t rest k es k') : Leaves m source t ((name, value) :: rest) k es k'
  | field {source name : String} {t : TypeDef} {f : FieldDef} {value : Input} {rest : InputObject}
      {k k' k'' : Nat} {es es' : List Entry} (edge : m.edgeField? t name value = some f)
      (joined : Joins m source t.name f value.items k es k')
      (more : Leaves m source t rest k' es' k'') :
      Leaves m source t ((name, value) :: rest) k (es ++ es') k''

/-- The edges of the entries of a field: to the id that is connected, or to the document that is created
for the entry. -/
inductive Joins (m : Model) : String → String → FieldDef → List Input → Nat → List Entry → Nat → Prop
  | none {source type : String} {f : FieldDef} {k : Nat} : Joins m source type f [] k [] k
  | null {source type : String} {f : FieldDef} {rest : List Input} {k k' : Nat} {es : List Entry}
      (more : Joins m source type f rest k es k') : Joins m source type f (.null :: rest) k es k'
  | connect {source type id : String} {f : FieldDef} {item : InputObject} {rest : List Input}
      {k k' : Nat} {a : Document} {es : List Entry} (given : item.get? "connect" = some (.str id))
      (annotated : Input.literalFields (annotations item) = .ok a)
      (more : Joins m source type f rest (k + 1) es k') :
      Joins m source type f (.obj item :: rest) k
        (m.edgeEntry type f.name source id (k + 1) a :: es) k'
  | create {source type key target : String} {f : FieldDef} {item data : InputObject}
      {rest : List Input} {k k' k'' : Nat} {a : Document} {first : Entry} {es es' : List Entry}
      (unconnected : item.get? "connect" = Option.none) (chosen : Chooses m f item key target)
      (given : item.get? key = some (.obj data))
      (created : Creates m target data k (first :: es) k')
      (annotated : Input.literalFields (annotations item) = .ok a)
      (more : Joins m source type f rest (k' + 1) es' k'') :
      Joins m source type f (.obj item :: rest) k
        (first :: es ++ m.edgeEntry type f.name source first.id (k' + 1) a :: es') k''

end

/-! ### Runs that add entries -/

/-- The documents of a run are those from before and the entries. -/
def Adds (es : List Entry) (run run' : Run) : Prop :=
  ∀ C d, d ∈ run'.store.documents C ↔
    d ∈ run.store.documents C ∨ ∃ e ∈ es, e.collection = C ∧ d = (e.key, e.document)

theorem Adds.of_eq {run run' : Run} (same : run'.store = run.store) : Adds [] run run' := by
  intro C d
  simp [same]

theorem Adds.append {es es' : List Entry} {run mid run' : Run} (h : Adds es run mid)
    (h' : Adds es' mid run') : Adds (es ++ es') run run' := by
  intro C d
  rw [h' C d, h C d]
  constructor
  · rintro ((old | ⟨e, he, new⟩) | ⟨e, he, new⟩)
    · exact Or.inl old
    · exact Or.inr ⟨e, List.mem_append_left _ he, new⟩
    · exact Or.inr ⟨e, List.mem_append_right _ he, new⟩
  · rintro (old | ⟨e, he, new⟩)
    · exact Or.inl (Or.inl old)
    · rcases List.mem_append.mp he with he | he
      · exact Or.inl (Or.inr ⟨e, he, new⟩)
      · exact Or.inr ⟨e, he, new⟩

/-- Document variables below a number keep their values, those listed apart. -/
def KeepsBelow (n : Nat) (except : List String) (run run' : Run) : Prop :=
  ∀ i < n, varName i ∉ except → run'.vars.get? (varName i) = run.vars.get? (varName i)

theorem KeepsBelow.of_eq {n : Nat} {except : List String} {run run' : Run} (same : run'.vars = run.vars) :
    KeepsBelow n except run run' := by
  intro i _ _
  rw [same]

theorem KeepsBelow.trans {n n' : Nat} {except except' : List String} {run mid run' : Run}
    (h : KeepsBelow n except run mid) (h' : KeepsBelow n' except' mid run') (le : n ≤ n') :
    KeepsBelow n (except ++ except') run run' := by
  intro i hi other
  rw [List.mem_append, not_or] at other
  rw [h' i (Nat.lt_of_lt_of_le hi le) other.2, h i hi other.1]

theorem KeepsBelow.mono {n n' : Nat} {except : List String} {run run' : Run}
    (h : KeepsBelow n' except run run') (le : n ≤ n') : KeepsBelow n except run run' :=
  fun i hi => h i (Nat.lt_of_lt_of_le hi le)

/-- A variable that is not below a number does not count there. -/
theorem KeepsBelow.drop {n k : Nat} {except : List String} {run run' : Run}
    (h : KeepsBelow n (varName k :: except) run run') (le : n ≤ k) : KeepsBelow n except run run' := by
  intro i hi other
  refine h i hi fun mem => ?_
  rcases List.mem_cons.mp mem with same | mem
  · have same := append_toString_injective same
    omega
  · exact other mem

theorem KeepsBelow.insert (n : Nat) (run : Run) (var : String) (v : Json) (run' : Run)
    (same : run'.vars = run.vars.insert var v) : KeepsBelow n [var] run run' := by
  intro i _ other
  rw [same, Record.get?_insert, if_neg (by simpa using other)]

/-- The variable holds a document of an id. -/
def Run.Names (run : Run) (var id : String) : Prop :=
  ∃ d, run.vars.get? var = some (.obj d) ∧ Record.get? d Field.id = some (.str id)

theorem Run.Names.value {run : Run} {var id : String} (h : run.Names var id) (params : Record Json) :
    (Ref.doc var).id.value (run.scope params) = .ok (.str id) := by
  obtain ⟨d, held, field⟩ := h
  simp [Ref.id, Ref.value, Run.scope, Scope.var, held, field, bind, Except.bind, pure, Except.pure]

theorem Run.names_of_entry {run : Run} {var : String} {e : Entry}
    (held : run.vars.get? var = some (.obj e.document)) : run.Names var e.id :=
  ⟨_, held, get?_id_keyed _ _ _⟩

theorem Run.Names.keep {run run' : Run} {n i : Nat} {id : String} {except : List String}
    (h : run.Names (varName i) id) (keeps : KeepsBelow n except run run') (lt : i < n)
    (other : varName i ∉ except) : run'.Names (varName i) id := by
  obtain ⟨d, held, field⟩ := h
  exact ⟨d, (keeps i lt other).trans held, field⟩

/-- An insertion adds one entry, under the next key. -/
theorem Performs.adds_of_insert {run run' : Run} {var collection : String} {doc : Ref}
    {imports : List (String × Ref)} {ends : Option (Ref × Ref)}
    (p : Performs write params (.insert var collection doc imports ends) run run')
    (issued : run.store.Issued run.lastKey) :
    ∃ body d, Run.bodyOf (run.scope params) doc imports = .ok body ∧
      Run.endsOf (run.scope params) body ends = .ok d ∧ run'.lastKey = run.lastKey + 1 ∧
      Adds [⟨collection, run.lastKey + 1, d⟩] run run' ∧
      run'.vars = run.vars.insert var (.obj (Entry.document ⟨collection, run.lastKey + 1, d⟩)) := by
  cases p with
  | @insert _ _ _ _ _ _ coll body d read withEnds writable there ended =>
      refine ⟨body, d, read, withEnds, rfl, fun C e => ?_, rfl⟩
      have fresh : ∀ e ∈ coll.documents, e.1 ≠ run.nextKey := by
        intro e he same
        rw [← Store.documents_eq there] at he
        obtain ⟨n, le, key⟩ := issued collection e he
        have := toString_inj (key.symm.trans same)
        omega
      dsimp only
      rw [Store.documents_set]
      by_cases here : C = collection
      · subst here
        rw [if_pos rfl, Store.documents_eq there]
        constructor
        · intro mem
          rcases NameMap.eq_or_mem_of_mem_insert mem with rfl | old
          · exact Or.inr ⟨_, List.mem_singleton_self _, rfl, rfl⟩
          · exact Or.inl old
        · rintro (old | ⟨e', he, _, rfl⟩)
          · exact NameMap.mem_insert_of_ne old (fresh e old)
          · rw [List.mem_singleton.mp he]
            exact NameMap.mem_insert_self
      · rw [if_neg here]
        constructor
        · exact Or.inl
        · rintro (old | ⟨e', he, same, _⟩)
          · exact old
          · rw [List.mem_singleton.mp he] at same
            exact absurd same.symm here

theorem bodyOf_param {run : Run} {p : String} {d body : Document} (given : params.get? p = some (.obj d))
    (read : Run.bodyOf (run.scope params) (.param p) [] = .ok body) : body = d := by
  simp only [Run.bodyOf, Ref.document, Ref.value, Run.scope, given, bind, Except.bind] at read
  cases read
  rfl

/-! ### What the parts of a creation do -/

theorem endsOf_eq {run : Run} {source target : Ref} {a b : String} {body d : Document}
    (from_source : source.value (run.scope params) = .ok (.str a))
    (to_target : target.value (run.scope params) = .ok (.str b))
    (read : Run.endsOf (run.scope params) body (some (source, target)) = .ok d) :
    d = (Record.insert body Field.source (.str a)).insert Field.target (.str b) := by
  simp only [Run.endsOf, from_source, to_target, bind, Except.bind] at read
  cases read
  rfl

/-- The statements of an edge add the edge between the ids that its ends mean. -/
theorem insertEdge_effects {type field targetType : String} {source target : Ref} {given : InputObject}
    {ends : EndChecks} (plain : PlainFields given) :
    Effects (m.insertEdge type field source target targetType given none none ends) c
      fun _ params run run' => ∀ a b, source.value (run.scope params) = .ok (.str a) →
        target.value (run.scope params) = .ok (.str b) →
          ∃ d, Input.literalFields given = .ok d ∧ run'.lastKey = run.lastKey + 1 ∧
            Adds [m.edgeEntry type field a b (run.lastKey + 1) d] run run' ∧
            KeepsBelow c.nextVar [] run run' := by
  unfold Model.insertEdge
  refine (Idle.lockWrite _).bind_effects fun _ c₁ g₁ => ?_
  refine (Idle.comment _).bind_effects fun _ c₂ g₂ => ?_
  rw [plain.imports, pure_bind]
  refine Effects.freshVar_bind (Effects.ofExcept_bind fun d read => ?_)
  rw [plain.literals] at read
  refine Effects.freshParam_bind fun p c₃ g₃ => ?_
  refine (Idle.checkEdge _ _ _ _ _ _).bind_effects fun _ c₄ g₄ => Effects.push_bind ?_
  have rest : Idle (do
      exportSelection (varName c₂.nextVar) none
      m.deferChecks type source none
      return varName c₂.nextVar) :=
    (Idle.pure _).bind fun _ => (Idle.deferChecks _ _ _).bind fun _ => Idle.pure _
  refine (rest.effects _).mono ?_
  rintro _ params mid _ rfl write run issued performed value a b from_source to_target
  obtain ⟨body, d', read', ended, key, adds, vars⟩ := performed.adds_of_insert issued
  obtain rfl := bodyOf_param value read'
  obtain rfl := endsOf_eq from_source to_target ended
  exact ⟨d, read, key, adds, (KeepsBelow.insert _ _ _ _ _ vars).drop (g₁.trans g₂).vars⟩

/-- What creating the document of an entry has to do: the document is there, under the next key, with what
its edges lead to. -/
def CreatesAt (m : Model) (type : String) (data : InputObject) (n : Nat) (var : String) (run run' : Run) :
    Prop :=
  ∃ first es, Creates m type data run.lastKey (first :: es) run'.lastKey ∧ Adds (first :: es) run run' ∧
    run'.vars.get? var = some (.obj first.document) ∧ KeepsBelow n [var] run run'

/-- The statements of an entry add its edge, and the document that it creates before. -/
theorem entryEdge_effects {site : EdgeSite} {i : Nat} {unions : Bool} {item : InputObject}
    {create : (key type var : String) → Synthesis Unit} (named : site.var = varName i)
    (taken : i < c.nextVar) (plain : PlainFields item)
    (creates : ∀ key type n c', n < c'.nextVar → Model.holdsObject item key = true →
      Effects (create key type (varName n)) c' fun _ _ run run' =>
        ∃ data, item.get? key = some (.obj data) ∧
          CreatesAt m type data c'.nextVar (varName n) run run') :
    Effects (m.entryEdge site unions item create) c fun _ _ run run' =>
      ∀ source, run.Names site.var source → ∃ es, Adds es run run' ∧ KeepsBelow c.nextVar [] run run' ∧
        ∀ rest k es', Joins m source site.type site.field rest run'.lastKey es' k →
          Joins m source site.type site.field (.obj item :: rest) run.lastKey (es ++ es') k := by
  unfold Model.entryEdge
  split
  · exact .of_fail _
  · rename_i v not_null found
    have value := plain.get? found
    cases v with
    | var name => cases value.var?
    | null => exact absurd rfl not_null
    | bool | num | list | obj => exact .of_throw _
    | str id =>
        refine Effects.freshParam_bind fun p c₁ g₁ => ?_
        refine (insertEdge_effects plain.annotations).bind fun _ c₂ g₂ => .of_pure _ ?_
        intro params run' run edge value source names
        have target : (Ref.param p).value (run.scope params) = .ok (.str id) := by
          simp [Ref.value, Run.scope, value]
        obtain ⟨d, read, key, adds, keeps⟩ := edge source id (names.value params) target
        refine ⟨_, adds, keeps.mono g₁.vars, fun rest k es more => ?_⟩
        rw [key] at more
        exact .connect found read more
  · rename_i unconnected
    refine Effects.ofExcept_bind fun creation chosen => ?_
    cases creation with
    | none | several => exact .of_fail _
    | create key type =>
        obtain ⟨chooses, holds⟩ := chooses_of_creation chosen
        refine Effects.freshVar_bind ?_
        refine (creates key type c.nextVar c.addVar (Nat.lt_succ_self _) holds).bind fun _ c₁ g₁ => ?_
        refine (insertEdge_effects plain.annotations).bind fun _ c₂ g₂ => .of_pure _ ?_
        rintro params run' mid edge run ⟨data, given, first, es₁, created, adds₁, here, keeps₁⟩ source names
        -- The variable of the new document is not that of the document at which the edge starts.
        have other : varName i ∉ [varName c.nextVar] := by
          intro mem
          have same := append_toString_injective (List.mem_singleton.mp mem)
          omega
        have there : mid.Names site.var source := by
          rw [named] at names ⊢
          exact names.keep keeps₁ (Nat.lt_succ_of_lt taken) other
        obtain ⟨d, read, key, adds₂, keeps₂⟩ :=
          edge source first.id (there.value params) ((Run.names_of_entry here).value params)
        have below := (keeps₁.mono (Nat.le_succ c.nextVar)).drop (Nat.le_refl _)
        refine ⟨_, adds₁.append adds₂, below.trans keeps₂ (Nat.le_trans (Nat.le_succ _) g₁.vars), ?_⟩
        intro rest k es more
        rw [key] at more
        have joins := Joins.create unconnected chooses given created read more
        simpa using joins

/-- Neither the store nor a document variable has changed. -/
structure Undisturbed (run run' : Run) : Prop where
  store : run'.store = run.store
  lastKey : run'.lastKey = run.lastKey
  vars : ∀ i, run'.vars.get? (varName i) = run.vars.get? (varName i)

theorem Undisturbed.refl (run : Run) : Undisturbed run run :=
  ⟨rfl, rfl, fun _ => rfl⟩

theorem Undisturbed.trans {run mid run' : Run} (h : Undisturbed run mid) (h' : Undisturbed mid run') :
    Undisturbed run run' :=
  ⟨h'.store.trans h.store, h'.lastKey.trans h.lastKey, fun i => (h'.vars i).trans (h.vars i)⟩

/-- A new name is recorded with what it stands for. -/
theorem of_exportVar_ok {name : String} {r : Ref} {a : Unit} {c' : Context}
    (h : outcome (exportVar name r) c = (.ok a, c')) :
    c.exports.contains name = false ∧ c' = { c with exports := c.exports.insert name r } := by
  unfold exportVar at h
  rw [outcome_bind_of_ok (outcome_get c)] at h
  split at h
  · cases h
  · rename_i free
    cases h
    exact ⟨by simpa using free, rfl⟩

/-- An export sets a variable that is none of the document variables. -/
theorem exportField_effects (var field : String) (exportAs : Option String) :
    Effects (exportField var field exportAs) c fun _ _ => Undisturbed := by
  cases exportAs with
  | none => exact .of_pure _ fun _ run => .refl run
  | some name =>
      rw [Synthesis.exportField]
      by_cases legal : isExportName name = true
      · rw [if_neg (by simp [legal])]
        intro a c'' done
        obtain ⟨_, c', recorded, done⟩ := outcome_bind_ok.mp done
        obtain ⟨_, rfl⟩ := of_exportVar_ok recorded
        cases done
        refine ⟨⟨id, Nat.le_refl _⟩, [_], rfl, ?_⟩
        intro write params run run' _ _ p
        cases performsAll_singleton.mp p with
        | bind value =>
            refine ⟨rfl, rfl, fun i => ?_⟩
            have other : varName i ≠ name := by
              rintro rfl
              rw [isExportName_varName] at legal
              cases legal
            exact (Record.get?_insert _ _ _ _).trans (if_neg other)
      · rw [if_pos (by simpa using legal)]
        exact .of_throw _

/-- Leaving the store and the document variables as they are passes on. -/
theorem composes_undisturbed : Composes fun {α} (x : Synthesis α) => ∀ c, Effects x c fun _ _ => Undisturbed where
  pure a _ := .of_pure a fun _ run => .refl run
  throw e _ := .of_throw e
  bind first later c := by
    refine (first c).bind fun a c₁ _ => (later a c₁).mono ?_
    exact fun _ _ _ _ after _ before => before.trans after

theorem exportSelection_effects (var : String) (exports : Option Selection) :
    Effects (exportSelection var exports) c fun _ _ => Undisturbed :=
  composes_undisturbed.exportSelection (fun text _ => .of_fail text)
    (fun name exportAs _ => exportField_effects var name exportAs) exports c

/-- A name for a document: one that has been taken, or the next one. -/
theorem varOr_effects {α : Type} {var? : Option String} {f : String → Synthesis α}
    {G : α → Record Json → Run → Run → Prop}
    (taken : ∀ v, var? = some v → ∃ i < c.nextVar, v = varName i)
    (h : ∀ i c', c.Grows c' → i < c'.nextVar → (∀ v, var? = some v → varName i = v) →
      Effects (f (varName i)) c' G) : Effects (Model.varOr var? >>= f) c G := by
  cases var? with
  | none =>
      refine Effects.freshVar_bind (h c.nextVar c.addVar ⟨id, Nat.le_succ _⟩ (Nat.lt_succ_self _) ?_)
      intro v hv
      cases hv
  | some v =>
      obtain ⟨i, lt, rfl⟩ := taken v rfl
      exact h i c (.refl c) lt fun v hv => Option.some.inj hv

/-- The statements of a document add it and what its edges lead to, if those of the edges do. -/
theorem insertDocument_effects {type : String} {data : InputObject} {exports : Option Selection}
    {var? : Option String} {edges : String → TypeDef → Synthesis Unit} (plain : PlainFields data)
    (taken : ∀ v, var? = some v → ∃ i < c.nextVar, v = varName i)
    (leaves : ∀ i t c', i < c'.nextVar → Effects (edges (varName i) t) c' fun _ _ run run' =>
      ∀ source, run.Names (varName i) source → ∃ es, Leaves m source t data run.lastKey es run'.lastKey ∧
        Adds es run run' ∧ KeepsBelow c'.nextVar [] run run') :
    Effects (m.insertDocument type data exports var? edges) c fun var _ run run' =>
      (∀ v, var? = some v → var = v) ∧ CreatesAt m type data c.nextVar var run run' := by
  unfold Model.insertDocument
  refine Idle.ensureOpen.bind_effects fun _ c₁ g₁ => Effects.ofExcept_bind fun t found => ?_
  refine (Idle.comment _).bind_effects fun _ c₂ g₂ => ?_
  rw [plain.imports, pure_bind]
  refine Effects.ofExcept_bind fun d read => ?_
  rw [plain.literals] at read
  refine Effects.freshParam_bind fun p c₃ g₃ => ?_
  have before : c.nextVar ≤ c₃.nextVar := ((g₁.trans g₂).trans g₃).vars
  refine varOr_effects (fun v hv => ?_) fun i c₄ g₄ lt same => ?_
  · obtain ⟨i, hi, name⟩ := taken v hv
    exact ⟨i, Nat.lt_of_lt_of_le hi before, name⟩
  refine (Idle.lockWrite _).bind_effects fun _ c₅ g₅ => Effects.push_bind ?_
  -- From the insertion on the variable names the document, at which the edges start.
  have bound : i < (c₅.add [.insert (varName i) type (.param p) [] none]).nextVar :=
    Nat.lt_of_lt_of_le lt g₅.vars
  refine (leaves i t _ bound).bind fun _ c₆ g₆ => ?_
  refine (exportSelection_effects _ exports).bind fun _ c₇ g₇ => ?_
  refine (Idle.checkKey _ _).bind_effects fun _ c₈ g₈ => ?_
  refine (Idle.deferChecks _ _ _).bind_effects fun _ c₉ g₉ => Effects.of_pure _ ?_
  rintro params run' run₂ exported run₁ edges write run issued performed value
  obtain ⟨body, d', read', ended, next, adds, set⟩ := performed.adds_of_insert issued
  obtain rfl : body = m.stamped type d := bodyOf_param value read'
  cases ended
  have held : run₁.vars.get? (varName i) =
      some (.obj (Entry.document ⟨type, run.lastKey + 1, m.stamped type d⟩)) := by
    rw [set, Record.get?_insert, if_pos rfl]
  obtain ⟨es, left, adds', keeps⟩ := edges _ (Run.names_of_entry held)
  rw [next, ← exported.lastKey] at left
  refine ⟨fun v hv => same v hv, _, es, .object found read left, ?_, ?_, ?_⟩
  · simpa using (adds.append adds').append (.of_eq exported.store)
  · rw [exported.vars i, keeps i bound List.not_mem_nil, held]
  · have below : c.nextVar ≤ c₅.nextVar := Nat.le_trans before (g₄.trans g₅).vars
    intro j hj other
    have first := KeepsBelow.insert c.nextVar run _ _ _ set j hj other
    have second := keeps j (Nat.lt_of_lt_of_le hj below) List.not_mem_nil
    exact (exported.vars j).trans (second.trans first)

mutual

theorem objectEdges_effects (i : Nat) (t : TypeDef) :
    ∀ (data : List (String × Input)) (c : Context), PlainFields data → i < c.nextVar →
    Effects (m.objectEdges (varName i) t none data) c fun _ _ run run' =>
      ∀ source, run.Names (varName i) source → ∃ es, Leaves m source t data run.lastKey es run'.lastKey ∧
        Adds es run run' ∧ KeepsBelow c.nextVar [] run run'
  | [], c, _, _ => by
      rw [Model.objectEdges]
      exact .of_pure _ fun _ run source _ => ⟨[], .none, .of_eq rfl, .of_eq rfl⟩
  | (name, value) :: rest, c, plain, taken => by
      obtain ⟨plain_value, plain_rest⟩ := plain.cons
      rw [Model.objectEdges]
      rcases edge : m.edgeField? t name value with _ | f
      · refine (objectEdges_effects i t rest c plain_rest taken).mono ?_
        intro _ _ run run' later source names
        obtain ⟨es, left, more⟩ := later source names
        exact ⟨es, .stored edge left, more⟩
      · refine (fieldEdges_effects ⟨varName i, t.name, f⟩ i true rfl value c plain_value taken).bind
          fun _ c₁ g₁ => ?_
        refine (objectEdges_effects i t rest c₁ plain_rest (Nat.lt_of_lt_of_le taken g₁.vars)).mono ?_
        intro _ _ mid run' later run first source names
        obtain ⟨es, joined, adds, keeps⟩ := first source names
        obtain ⟨es', left, adds', keeps'⟩ := later source (names.keep keeps taken List.not_mem_nil)
        exact ⟨es ++ es', .field edge joined left, adds.append adds', keeps.trans keeps' g₁.vars⟩

theorem fieldEdges_effects (site : EdgeSite) (i : Nat) (unions : Bool) (named : site.var = varName i) :
    ∀ (value : Input) (c : Context), value.Plain → i < c.nextVar →
    Effects (m.fieldEdges site unions value) c fun _ _ run run' =>
      ∀ source, run.Names site.var source → ∃ es,
        Joins m source site.type site.field value.items run.lastKey es run'.lastKey ∧
          Adds es run run' ∧ KeepsBelow c.nextVar [] run run'
  | .list items, c, plain, taken => by
      rw [Model.fieldEdges]
      exact listEdges_effects site i unions named items c plain.items taken
  | .obj item, c, plain, taken => by
      rw [Model.fieldEdges]
      refine (entryEdge_effects named taken plain.fields fun key type n c' lt holds =>
        createAt_effects key type n item c' plain.fields lt holds).mono ?_
      intro _ _ run run' entry source names
      obtain ⟨es, adds, keeps, joins⟩ := entry source names
      refine ⟨es, ?_, adds, keeps⟩
      rw [← List.append_nil es]
      exact joins [] _ [] .none
  | .null, c, _, _ => by
      rw [Model.fieldEdges]
      exact .of_pure _ fun _ run source _ => ⟨[], .null .none, .of_eq rfl, .of_eq rfl⟩
  | .bool _, c, _, _ | .num _, c, _, _ | .str _, c, _, _ | .var _, c, _, _ => by
      simp only [Model.fieldEdges]
      exact .of_throw _

theorem listEdges_effects (site : EdgeSite) (i : Nat) (unions : Bool) (named : site.var = varName i) :
    ∀ (items : List Input) (c : Context), PlainItems items → i < c.nextVar →
    Effects (m.listEdges site unions items) c fun _ _ run run' =>
      ∀ source, run.Names site.var source → ∃ es,
        Joins m source site.type site.field items run.lastKey es run'.lastKey ∧
          Adds es run run' ∧ KeepsBelow c.nextVar [] run run'
  | [], c, _, _ => by
      rw [Model.listEdges]
      exact .of_pure _ fun _ run source _ => ⟨[], .none, .of_eq rfl, .of_eq rfl⟩
  | .obj item :: rest, c, plain, taken => by
      obtain ⟨plain_item, plain_rest⟩ := plain.cons
      rw [Model.listEdges]
      refine (entryEdge_effects named taken plain_item.fields fun key type n c' lt holds =>
        createAt_effects key type n item c' plain_item.fields lt holds).bind fun _ c₁ g₁ => ?_
      have later := listEdges_effects site i unions named rest c₁ plain_rest
        (Nat.lt_of_lt_of_le taken g₁.vars)
      refine later.mono ?_
      intro _ _ mid run' later run entry source names
      obtain ⟨es, adds, keeps, joins⟩ := entry source names
      have there : mid.Names site.var source := by
        rw [named] at names ⊢
        exact names.keep keeps taken List.not_mem_nil
      obtain ⟨es', more, adds', keeps'⟩ := later source there
      exact ⟨es ++ es', joins rest _ es' more, adds.append adds', keeps.trans keeps' g₁.vars⟩
  | .null :: rest, c, plain, taken => by
      rw [Model.listEdges]
      refine (listEdges_effects site i unions named rest c plain.cons.2 taken).mono ?_
      intro _ _ run run' later source names
      obtain ⟨es, joined, more⟩ := later source names
      exact ⟨es, .null joined, more⟩
  | .bool _ :: _, c, _, _ | .num _ :: _, c, _, _ | .str _ :: _, c, _, _ | .list _ :: _, c, _, _
  | .var _ :: _, c, _, _ => by
      simp only [Model.listEdges]
      exact .of_throw _

theorem createAt_effects (key type : String) (n : Nat) :
    ∀ (item : List (String × Input)) (c : Context), PlainFields item → n < c.nextVar →
    Model.holdsObject item key = true →
    Effects (m.createAt key type (varName n) item) c fun _ _ run run' =>
      ∃ data, Record.get? item key = some (.obj data) ∧
        CreatesAt m type data c.nextVar (varName n) run run'
  | [], c, _, _, holds => by cases holds
  | (name, .obj data) :: rest, c, plain, taken, holds => by
      obtain ⟨plain_data, plain_rest⟩ := plain.cons
      rw [Model.createAt]
      rw [Model.holdsObject_cons] at holds
      by_cases here : name = key
      · rw [if_pos (by simpa using here)]
        have known : ∀ v, some (varName n) = some v → ∃ i < c.nextVar, v = varName i :=
          fun v hv => ⟨n, taken, (Option.some.inj hv).symm⟩
        refine (insertDocument_effects plain_data.fields known fun i t c' lt =>
          objectEdges_effects i t data c' plain_data.fields lt).bind fun var c₁ g₁ => .of_pure _ ?_
        rintro _ run' run ⟨same, created⟩
        rw [same _ rfl] at created
        exact ⟨data, by rw [Record.get?_cons, if_pos here.symm], created⟩
      · rw [if_neg (by simpa using here)]
        rw [if_neg (fun same => here same.symm)] at holds
        refine (createAt_effects key type n rest c plain_rest taken holds).mono ?_
        rintro _ _ run run' ⟨data', given, created⟩
        exact ⟨data', by rw [Record.get?_cons, if_neg (fun same => here same.symm), given], created⟩
  | (name, .null) :: rest, c, plain, taken, holds | (name, .bool _) :: rest, c, plain, taken, holds
  | (name, .num _) :: rest, c, plain, taken, holds | (name, .str _) :: rest, c, plain, taken, holds
  | (name, .list _) :: rest, c, plain, taken, holds | (name, .var _) :: rest, c, plain, taken, holds => by
      rw [Model.holdsObject_cons] at holds
      split at holds
      · cases holds
      · rename_i other
        simp only [Model.createAt]
        refine (createAt_effects key type n rest c plain.cons.2 taken holds).mono ?_
        rintro _ _ run run' ⟨data, given, created⟩
        exact ⟨data, by rw [Record.get?_cons, if_neg other, given], created⟩

end

/-! ### The entries of a graph -/

/-- A document of a type, as its name for it says whatever it was given. -/
def Entry.IsDocument (e : Entry) : Prop :=
  Record.get? e.document Field.typeName = some (.str e.collection)

/-- An edge of a field, as its ends and its name for its type say whatever it was given. -/
def Entry.IsEdge (m : Model) (e : Entry) : Prop :=
  ∃ type field source target d, e = m.edgeEntry type field source target e.number d ∧
    Record.get? e.document Field.typeName = some (.str ("_" ++ e.collection)) ∧
    Record.get? e.document Field.source = some (.str source) ∧
    Record.get? e.document Field.target = some (.str target)

/-- The fields that are not for the input to choose. -/
structure Entry.Sealed (m : Model) (e : Entry) : Prop where
  key : Record.get? e.document Field.key = some (.str e.key)
  id : Record.get? e.document Field.id = some (.str e.id)
  created : Record.get? e.document Field.created = some (.int m.now)
  kind : e.IsDocument ∨ e.IsEdge m

theorem Entry.get?_document (e : Entry) {field : String} (other : field ≠ Field.key ∧ field ≠ Field.id) :
    Record.get? e.document field = e.fields.get? field := by
  unfold Entry.document Run.keyed
  rw [Record.get?_insert, if_neg other.2, Record.get?_insert, if_neg other.1]

theorem Model.sealed_stamped (m : Model) (type : String) (n : Nat) (d : Document) :
    Entry.Sealed m ⟨type, n, m.stamped type d⟩ where
  key := get?_key_keyed _ _ _
  id := get?_id_keyed _ _ _
  created := by
    rw [Entry.get?_document _ (by decide)]
    simp [Model.stamped, Record.get?_insert, Field.created, Field.typeName]
  kind := .inl <| by
    unfold Entry.IsDocument
    rw [Entry.get?_document _ (by decide)]
    simp [Model.stamped, Record.get?_insert]

theorem Model.sealed_edgeEntry (m : Model) (type field source target : String) (n : Nat) (d : Document) :
    Entry.Sealed m (m.edgeEntry type field source target n d) where
  key := get?_key_keyed _ _ _
  id := get?_id_keyed _ _ _
  created := by
    rw [Entry.get?_document _ (by decide)]
    simp [Model.edgeEntry, Model.stamped, Record.get?_insert, Field.created, Field.typeName, Field.source,
      Field.target]
  kind := .inr <| by
    refine ⟨type, field, source, target, d, rfl, ?_, ?_, ?_⟩ <;> rw [Entry.get?_document _ (by decide)]
    · simp [Model.edgeEntry, Model.stamped, Record.get?_insert, Field.typeName, Field.source, Field.target]
    · simp [Model.edgeEntry, Record.get?_insert, Field.source, Field.target]
    · simp [Model.edgeEntry, Record.get?_insert]

/-- Sealed entries under the keys from one number to another, each once. -/
structure Numbered (m : Model) (k : Nat) (es : List Entry) (k' : Nat) : Prop where
  le : k ≤ k'
  keys : es.map Entry.key = keysBetween k k'
  isSealed : ∀ e ∈ es, e.Sealed m

namespace Numbered

variable {k k' k'' : Nat} {es es' : List Entry}

theorem nil (m : Model) (k : Nat) : Numbered m k [] k where
  le := Nat.le_refl _
  keys := (keysBetween_self k).symm
  isSealed e he := by cases he

theorem one {e : Entry} (number : e.number = k + 1) (isSealed : e.Sealed m) : Numbered m k [e] (k + 1) where
  le := Nat.le_succ k
  keys := by simp [keysBetween, Entry.key, number]
  isSealed e' he := by
    rw [List.mem_singleton.mp he]
    exact isSealed

theorem append (h : Numbered m k es k') (h' : Numbered m k' es' k'') : Numbered m k (es ++ es') k'' where
  le := Nat.le_trans h.le h'.le
  keys := by rw [List.map_append, h.keys, h'.keys, keysBetween_append h.le h'.le]
  isSealed e he := by
    rcases List.mem_append.mp he with he | he
    · exact h.isSealed e he
    · exact h'.isSealed e he

end Numbered

mutual

theorem Creates.numbered {type : String} {data : InputObject} {k k' : Nat} {es : List Entry} :
    Creates m type data k es k' → Numbered m k es k'
  | .object _ _ edges => (Numbered.one rfl (m.sealed_stamped _ _ _)).append edges.numbered

theorem Leaves.numbered {source : String} {t : TypeDef} {data : InputObject} {k k' : Nat}
    {es : List Entry} : Leaves m source t data k es k' → Numbered m k es k'
  | .none => .nil m _
  | .stored _ more => more.numbered
  | .field _ joined more => joined.numbered.append more.numbered

theorem Joins.numbered {source type : String} {f : FieldDef} {items : List Input} {k k' : Nat}
    {es : List Entry} : Joins m source type f items k es k' → Numbered m k es k'
  | .none => .nil m _
  | .null more => more.numbered
  | .connect _ _ more => (Numbered.one rfl (m.sealed_edgeEntry _ _ _ _ _ _)).append more.numbered
  | .create _ _ _ created _ more =>
      created.numbered.append ((Numbered.one rfl (m.sealed_edgeEntry _ _ _ _ _ _)).append more.numbered)

end

/-! ### The main statement -/

theorem NameMap.Sorted.nodup {α : Type} {l : NameMap α} (h : NameMap.Sorted l) : List.Nodup l :=
  List.Nodup.of_map _ (NameSet.Sorted.nodup h)

/-- Entries under keys that have not been given out come to what was there, each once. -/
theorem Numbered.perm {k k' : Nat} {es : List Entry} (numbered : Numbered m k es k') {C : String}
    {before after : List (String × Document)} (distinct : before.Nodup) (distinct' : after.Nodup)
    (issued : ∀ d ∈ before, ∃ n, n ≤ k ∧ d.1 = toString n)
    (h : ∀ d, d ∈ after ↔ d ∈ before ∨ ∃ e ∈ es, e.collection = C ∧ d = (e.key, e.document)) :
    after.Perm (before ++ (es.filter fun e => e.collection = C).map fun e => (e.key, e.document)) := by
  have keys : (es.map Entry.key).Nodup := numbered.keys ▸ nodup_keysBetween _ _
  have added : ((es.filter fun e => e.collection = C).map fun e => (e.key, e.document)).Nodup := by
    refine List.Nodup.of_map Prod.fst ?_
    rw [List.map_map]
    exact keys.sublist (List.filter_sublist.map _)
  have apart : ∀ d ∈ before, ∀ e ∈ es, d ≠ (e.key, e.document) := by
    rintro d hd e he rfl
    have later : e.key ∈ keysBetween k k' := numbered.keys ▸ List.mem_map_of_mem he
    obtain ⟨n, le, key⟩ := issued _ hd
    obtain ⟨n', new, key'⟩ := List.mem_map.mp later
    have same := toString_inj (key'.trans key)
    have := List.mem_range'_1.mp new
    omega
  -- Neither list has anything twice, so it is enough that they have the same members.
  refine (List.perm_ext_iff_of_nodup distinct' (List.nodup_append.mpr
    ⟨distinct, added, fun d hd e' he' => ?_⟩)).mpr fun d => ?_
  · obtain ⟨e, he, rfl⟩ := List.mem_map.mp he'
    exact apart d hd e (List.mem_of_mem_filter he)
  · rw [h d, List.mem_append]
    refine or_congr_right ⟨?_, fun mem => ?_⟩
    · rintro ⟨e, he, here, rfl⟩
      exact List.mem_map.mpr ⟨e, List.mem_filter.mpr ⟨he, by simpa using here⟩, rfl⟩
    · obtain ⟨e, he, rfl⟩ := List.mem_map.mp mem
      obtain ⟨he, here⟩ := List.mem_filter.mp he
      exact ⟨e, he, by simpa using here, rfl⟩

theorem Adds.perm {run run' : Run} {es : List Entry} {k : Nat} (h : Adds es run run')
    (ordered : run.store.Ordered) (ordered' : run'.store.Ordered)
    (issued : run.store.Issued run.lastKey) (numbered : Numbered m run.lastKey es k) (C : String) :
    (run'.store.documents C).Perm (run.store.documents C ++
      (es.filter fun e => e.collection = C).map fun e => (e.key, e.document)) :=
  numbered.perm (ordered C).nodup (ordered' C).nodup (issued C) (h C)

/-- The one call of a request hands over its statements, its answer and its checks. -/
theorem exists_of_submission_start {number : Nat} {remembers : Bool} {call : Call} {t : Transaction}
    (root : call.isRoot = true)
    (submitted : submission? ((Request.start number remembers [call.name]).call m call).1 = some t) :
    ∃ var c, outcome (call.synthesis m) (Context.empty number remembers) = (.ok var, c) ∧
      t = (c.answer call.name var).transaction := by
  generalize hr : Request.start number remembers [call.name] = r at submitted
  have turn := call_turn m r call
  generalize (r.call m call).1 = reply, (r.call m call).2 = r' at turn submitted
  cases turn with
  | late => split at submitted <;> cases submitted
  | outstanding | refused | failed | below | waits | closed => cases submitted
  | submits running context _ name synthesis last isOpen =>
      subst hr
      cases context
      cases submitted
      exact ⟨_, _, synthesis, rfl⟩

/-- The answer and the checks at the end leave the store as it is, and the value of the variable is the
result. -/
theorem PerformsAll.answered {deferred : List Statement} {name var : String} {run run' : Run}
    (p : PerformsAll write params (answerStatements name var ++ finale deferred) run run')
    (quiet : ∀ b ∈ partsOf (finale deferred), b.IsQuiet) :
    ∃ v, run.vars.get? var = some v ∧ run'.result.get? name = some v ∧ run'.store = run.store ∧
      run'.lastKey = run.lastKey := by
  obtain ⟨mid, p₁, p₂⟩ := performsAll_append.mp p
  obtain ⟨rfl, _⟩ := p₂.of_quiet quiet
  cases p₁ with
  | cons remark rest =>
      cases remark
      cases performsAll_singleton.mp rest with
      | @setResult _ _ _ v value =>
          exact ⟨v, get?_of_value_doc value, (Record.get?_insert ..).trans (if_pos rfl), rfl, rfl⟩

theorem Course.same_store {number : Nat} {remembers : Bool} {ss : List Statement}
    {answers : List (String × String)} {D : Demands} {name var : String} {run run' : Run}
    (course : Course m D number remembers c ss answers)
    (p : PerformsAll write params (answerStatements name var ++ finale c.deferred) run run') :
    run'.store = run.store ∧ run'.lastKey = run.lastKey := by
  obtain ⟨_, _, _, same⟩ := p.answered course.quiet
  exact same

/-- What a committed request with one root field leaves: what its statements do, and as its result the value
of the variable that it names. -/
theorem Effects.of_committed {number : Nat} {remembers : Bool} {call : Call} {t : Transaction}
    {db : Database} {res : Record Json} {E : String → Record Json → Run → Run → Prop}
    (effects : Effects (call.synthesis m) (Context.empty number remembers) E) (root : call.isRoot = true)
    (submitted : submission? ((Request.start number remembers [call.name]).call m call).1 = some t)
    (issued : db.store.Issued db.lastKey) (committed : (db.execute t).1 = .ok res) :
    ∃ var run v, E var t.params (Run.start db) run ∧ run.vars.get? var = some v ∧
      res.get? call.name = some v ∧ (db.execute t).2 = ⟨run.store, run.lastKey⟩ := by
  obtain ⟨var, c, synthesis, rfl⟩ := exists_of_submission_start root submitted
  have beginning : Course m .any number remembers (Context.empty number remembers) [] [] := .start
  obtain ⟨_, course, _, _⟩ := beginning.synthesis_ok (call.mutation.meets_any _) synthesis
  obtain ⟨_, ss, statements, effect⟩ := effects _ _ synthesis
  obtain ⟨final, p, executed, rfl⟩ := exists_run_of_execute_ok committed
  have script : (c.answer call.name var).transaction.statements =
      ss ++ (answerStatements call.name var ++ finale c.deferred) := by
    rw [Context.statements_transaction]
    show (c.statements ++ _) ++ _ = _
    rw [statements, List.append_assoc]
    rfl
  rw [executed]
  rw [script] at p
  obtain ⟨run, p₁, p₂⟩ := performsAll_append.mp p
  obtain ⟨v, held, result, store, lastKey⟩ := p₂.answered course.quiet
  exact ⟨var, run, v, effect id issued p₁, held, result, by rw [store, lastKey]⟩

/-- The statements of a creation add the graph of its input. -/
theorem creation_effects {call : Call} {type : String} {data : InputObject}
    (mutation : call.mutation = .create type data) (plain : PlainFields data) :
    Effects (call.synthesis m) c fun _ _ run run' =>
      ∃ es, Creates { m with now := call.now } type data run.lastKey es run'.lastKey ∧
        Adds es run run' := by
  unfold Call.synthesis
  rw [mutation]
  refine (insertDocument_effects plain (fun v hv => by cases hv) fun i t c' lt =>
    objectEdges_effects i t data c' plain lt).mono ?_
  rintro _ _ run run' ⟨_, first, es, created, adds, _⟩
  exact ⟨first :: es, created, adds⟩

/-- A committed creation has stored the graph of its input. Old documents stay, each of the entries of the
graph comes to the documents of its collection, and nothing else does; what the input says of the fields
that are not for it to choose does not count. -/
theorem created_graph (m : Model) (number : Nat) (remembers : Bool) (call : Call) (type : String)
    (data : InputObject) (t : Transaction) (db : Database) (res : Record Json)
    (root : call.isRoot = true) (mutation : call.mutation = .create type data)
    (plain : PlainFields data)
    (submitted : submission? ((Request.start number remembers [call.name]).call m call).1 = some t)
    (reachable : db.Reachable) (committed : (db.execute t).1 = .ok res) :
    ∃ es, Creates { m with now := call.now } type data db.lastKey es (db.execute t).2.lastKey ∧
      (∀ C, ((db.execute t).2.store.documents C).Perm (db.store.documents C ++
        (es.filter fun e => e.collection = C).map fun e => (e.key, e.document))) ∧
      (∀ C, ((db.execute t).2.store.collection? C).map Collection.kind =
        (db.store.collection? C).map Collection.kind) ∧
      es.map Entry.key = keysBetween db.lastKey (db.execute t).2.lastKey ∧
      ∀ e ∈ es, e.Sealed { m with now := call.now } := by
  obtain ⟨var, c, synthesis, rfl⟩ := exists_of_submission_start root submitted
  have beginning : Course m .any number remembers (Context.empty number remembers) [] [] := .start
  obtain ⟨_, course, _, _⟩ := beginning.synthesis_ok (call.mutation.meets_any _) synthesis
  obtain ⟨_, ss, statements, effect⟩ := creation_effects mutation plain _ _ synthesis
  obtain ⟨final, p, executed, -⟩ := exists_run_of_execute_ok committed
  have script : (c.answer call.name var).transaction.statements =
      ss ++ (answerStatements call.name var ++ finale c.deferred) := by
    rw [Context.statements_transaction]
    show (c.statements ++ _) ++ _ = _
    rw [statements, List.append_assoc]
    rfl
  rw [executed]
  dsimp only
  have ordered := p.ordered reachable.ordered
  have kinds := p.frame.kinds
  rw [script] at p
  obtain ⟨run, p₁, p₂⟩ := performsAll_append.mp p
  obtain ⟨store, lastKey⟩ := course.same_store p₂
  rw [store] at ordered kinds ⊢
  rw [lastKey]
  obtain ⟨es, created, adds⟩ := effect id reachable.issued p₁
  exact ⟨es, created, adds.perm reachable.ordered ordered reachable.issued created.numbered, kinds,
    created.numbered.keys, created.numbered.isSealed⟩

/-- Keepers and the animals that they tend. -/
def zoo : Model where
  schema := .ofTypes [
    ⟨"Animal", .interface, [⟨"name", .named "String", []⟩], [], [], []⟩,
    ⟨"Cat", .object, [⟨"name", .named "String", []⟩], ["Animal"], [], []⟩,
    ⟨"Dog", .object, [⟨"name", .named "String", []⟩, ⟨"chases", .list (.named "Cat"), []⟩], ["Animal"], [],
      []⟩,
    ⟨"Keeper", .object, [⟨"name", .named "String", []⟩, ⟨"tends", .list (.named "Animal"), []⟩], [], [], []⟩]
  settings := .default
  now := 0

/-- The zoo with its first cat. -/
def cattery : Database :=
  match Database.empty.setup zoo.schema false with
  | .ok db => (db.execute
      { write := ["Cat"], read := [], statements := [.insert "_x0" "Cat" (.param "_0") [] none],
        params := [("_0", .obj [("name", .str "Tom")])] }).2
  | .error _ => Database.empty

theorem reachable_cattery : cattery.Reachable := by
  unfold cattery
  split
  · rename_i done
    exact .execute (.setup .empty done) _
  · exact .empty

/-- A keeper for the cat, with a forged end in the annotations, and for a new dog that chases a new cat. -/
def staffing : InputObject :=
  [("name", .str "Ann"),
   ("tends", .list [
     .obj [("connect", .str "Cat/1"), ("annotations", .obj [("daily", .bool true), ("_from", .str "Dog/9")])],
     .null,
     .obj [("createDog", .obj [("name", .str "Rex"),
       ("chases", .list [.obj [("create", .obj [("name", .str "Kit")])]])])]])]

/-- A root field that creates a keeper. -/
def hiring : Call where
  now := 7
  isRoot := true
  selection := ⟨"hired", []⟩
  mutation := .create "Keeper" staffing

theorem created_graph_zoo :
    ∃ t es, submission? ((Request.start 1 true ["hired"]).call zoo hiring).1 = some t ∧
      (cattery.execute t).1.toBool = true ∧ Creates { zoo with now := 7 } "Keeper" staffing 1 es 7 ∧
      es.map Entry.key = ["2", "3", "4", "5", "6", "7"] ∧
      ∀ C, ((cattery.execute t).2.store.documents C).Perm (cattery.store.documents C ++
        (es.filter fun e => e.collection = C).map fun e => (e.key, e.document)) := by
  have ran : (submission? ((Request.start 1 true ["hired"]).call zoo hiring).1).any
      (fun t => (cattery.execute t).1.toBool && (cattery.execute t).2.lastKey == 7) = true := by
    decide +kernel
  have first : cattery.lastKey = 1 := by decide +kernel
  obtain ⟨t, submitted, ok⟩ := (Option.any_eq_true _ _).mp ran
  rw [Bool.and_eq_true, beq_iff_eq] at ok
  obtain ⟨ok, last⟩ := ok
  obtain ⟨res, committed⟩ := exists_of_toBool ok
  obtain ⟨es, created, stored, _, keys, _⟩ := created_graph zoo 1 true hiring "Keeper" staffing t cattery
    res rfl rfl ⟨_, rfl⟩ submitted reachable_cattery committed
  rw [first, last] at created keys
  refine ⟨t, es, submitted, ok, created, keys.trans ?_, stored⟩
  decide +kernel

end DocGraph
