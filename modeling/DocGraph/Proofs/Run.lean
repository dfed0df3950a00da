import DocGraph.Store.Database
import DocGraph.Proofs.Outcome

/-! # What a statement does when it runs

`Performs write params s run run'` says once what a statement can do to a run when it succeeds, and
`performs_iff` says that it does this and nothing else; `performsAll_iff` says so of whole scripts. Statements
that only look at the run are written as values: `outcome_value`, `outcome_body` and `outcome_ofExcept` leave
the run as it is. -/

namespace DocGraph

variable {write : NameSet} {params : Record Json} {run run' : Run}

/-- An error that only a script with a name or a document missing can run into. -/
def Error.isScopeFault : Error → Bool
  | .transaction (.undefinedVariable _) => true
  | .transaction (.fieldOfNull _) => true
  | .transaction (.notDocument _) => true
  | _ => false

/-- An error over a collection that was not locked for writing. -/
def Error.isLockFault : Error → Bool
  | .storage (.notWritable _) => true
  | _ => false

/-- An error over a collection that was not locked for writing or is not there. -/
def Error.isCollectionFault : Error → Bool
  | .storage (.notWritable _) => true
  | .storage (.unknownCollection _) => true
  | _ => false

theorem Error.not_lockFault {e : Error} (h : e.isCollectionFault = false) : e.isLockFault = false := by
  unfold Error.isLockFault
  split
  · cases h
  · rfl

namespace Run

/-- The values of parameters and variables at a point of a run. -/
def scope (params : Record Json) (run : Run) : Scope := ⟨params, run.vars⟩

/-! ### Steps that only look -/

@[simp] theorem outcome_ofExcept {α : Type} (x : Except Error α) (run : Run) :
    outcome (Run.ofExcept x) run = (x, run) := by
  cases x <;> rfl

@[simp] theorem outcome_value (params : Record Json) (r : Ref) (run : Run) :
    outcome (value params r) run = (r.value (run.scope params), run) := by
  unfold value
  rw [outcome_bind_of_ok (outcome_get run), outcome_ofExcept]
  rfl

/-- The document of a reference with imported fields set, as a value. -/
def bodyOf (scope : Scope) (doc : Ref) (imports : List (String × Ref)) : Except Error Document := do
  let d ← doc.document scope
  let values ← imports.mapM fun e => (e.2.value scope).map fun v => (e.1, v)
  return Record.insertAll d values

@[simp] theorem outcome_body (params : Record Json) (doc : Ref) (imports : List (String × Ref))
    (run : Run) :
    outcome (body params doc imports) run = (bodyOf (run.scope params) doc imports, run) := by
  unfold body bodyOf
  rw [outcome_bind_of_ok (outcome_get run)]
  show outcome (Run.ofExcept (doc.document (run.scope params)) >>= fun d =>
    Run.ofExcept (imports.mapM fun e => (e.2.value (run.scope params)).map fun v => (e.1, v)) >>=
      fun values => pure (Record.insertAll d values)) run = _
  rw [outcome_bind, outcome_ofExcept]
  cases doc.document (run.scope params) with
  | error e => rfl
  | ok d =>
      show outcome _ run = _
      rw [outcome_bind, outcome_ofExcept]
      cases imports.mapM fun e => (e.2.value (run.scope params)).map fun v => (e.1, v) <;> rfl

/-- A document with its ends set, as a value. -/
def endsOf (scope : Scope) (d : Document) : Option (Ref × Ref) → Except Error Document
  | none => .ok d
  | some (source, target) => do
    let a ← source.value scope
    let b ← target.value scope
    return (Record.insert d Field.source a).insert Field.target b

@[simp] theorem outcome_withEnds (params : Record Json) (d : Document) (ends : Option (Ref × Ref))
    (run : Run) :
    outcome (withEnds params d ends) run = (endsOf (run.scope params) d ends, run) := by
  rcases ends with _ | ⟨source, target⟩
  · rfl
  · simp only [withEnds, endsOf]
    rw [outcome_bind, outcome_value]
    cases source.value (run.scope params) with
    | error e => rfl
    | ok a =>
        show outcome _ run = _
        rw [outcome_bind, outcome_value]
        cases target.value (run.scope params) <;> rfl

theorem outcome_value_of_ok {r : Ref} {v : Json} (h : r.value (run.scope params) = .ok v) :
    outcome (value params r) run = (.ok v, run) := by
  rw [outcome_value, h]

theorem outcome_body_of_ok {doc : Ref} {imports : List (String × Ref)} {d : Document}
    (h : bodyOf (run.scope params) doc imports = .ok d) :
    outcome (body params doc imports) run = (.ok d, run) := by
  rw [outcome_body, h]

theorem outcome_withEnds_of_ok {d d' : Document} {ends : Option (Ref × Ref)}
    (h : endsOf (run.scope params) d ends = .ok d') :
    outcome (withEnds params d ends) run = (.ok d', run) := by
  rw [outcome_withEnds, h]

/-- Messages end the run, whatever their text. -/
theorem outcome_fail (params : Record Json) (message : Message) (run : Run) :
    outcome (fail params message) run =
      (.error (match message.fill (run.scope params) with
        | .ok text => Error.transaction (.thrown text)
        | .error e => e), run) := by
  unfold fail
  rw [outcome_bind_of_ok (outcome_get run), outcome_bind, outcome_ofExcept]
  unfold scope
  cases message.fill ⟨params, run.vars⟩ <;> rfl

/-! ### Writes -/

/-- The key that the next new document gets. -/
def nextKey (run : Run) : String := toString (run.lastKey + 1)

theorem outcome_checkWritable (write : NameSet) (collection : String) (run : Run) :
    outcome (checkWritable write collection) run =
      (if write.contains collection then .ok ⟨⟩ else .error (.storage (.notWritable collection)),
        run) := by
  unfold checkWritable
  split <;> rfl

/-- A document has the ends that its collection asks for. -/
def Ended (kind : CollectionKind) (d : Document) : Prop :=
  kind = .edge → isEnd (d.get? Field.source) = true ∧ isEnd (d.get? Field.target) = true

theorem outcome_checkEnds (kind : CollectionKind) (d : Document) (run : Run) :
    Ended kind d ∧ outcome (checkEnds kind d) run = (.ok ⟨⟩, run) ∨
      ∃ field, outcome (checkEnds kind d) run = (.error (.storage (.invalidEndpoint field)), run) := by
  unfold checkEnds
  split
  · rcases source : isEnd (d.get? Field.source)
    · exact Or.inr ⟨_, rfl⟩
    · rcases target : isEnd (d.get? Field.target)
      · exact Or.inr ⟨_, rfl⟩
      · exact Or.inl ⟨fun _ => ⟨source, target⟩, rfl⟩
  · rename_i other
    exact Or.inl ⟨fun edge => absurd (beq_iff_eq.mpr edge) other, rfl⟩

/-- An error with which a write to a collection is refused. -/
structure Refusal (write : NameSet) (store : Store) (collection : String) (e : Error) : Prop where
  scope : e.isScopeFault = false
  lock : collection ∈ write → e.isLockFault = false
  unknown : ∀ C, e = .storage (.unknownCollection C) → C = collection ∧ store.collection? C = none

namespace Refusal

variable {store : Store} {collection : String}

theorem of_unlocked (h : ¬ write.contains collection = true) :
    Refusal write store collection (.storage (.notWritable collection)) where
  scope := rfl
  lock hw := absurd (List.contains_iff_mem.mpr hw) h
  unknown C same := by cases same

theorem of_unknown (h : store.collection? collection = none) :
    Refusal write store collection (.storage (.unknownCollection collection)) where
  scope := rfl
  lock _ := rfl
  unknown C same := by
    cases same
    exact ⟨rfl, h⟩

/-- An error over something else than names and collections. -/
theorem of_other {e : Error} (scope : e.isScopeFault = false) (other : e.isCollectionFault = false) :
    Refusal write store collection e where
  scope := scope
  lock _ := Error.not_lockFault other
  unknown C same := by
    subst same
    cases other

end Refusal

/-- An insertion puts the document under the next key, or is refused by the store. -/
theorem outcome_insert (write : NameSet) (collection : String) (d : Document) (run : Run) :
    (∃ c, collection ∈ write ∧ run.store.collection? collection = some c ∧ Ended c.kind d ∧
      outcome (insert write collection d) run =
        (.ok (keyed collection run.nextKey d),
          { run with
            lastKey := run.lastKey + 1
            store := run.store.set collection
              (c.put run.nextKey (keyed collection run.nextKey d)) })) ∨
    ∃ e, Refusal write run.store collection e ∧
      outcome (insert write collection d) run = (.error e, run) := by
  unfold insert
  rw [outcome_bind, outcome_checkWritable]
  by_cases hw : write.contains collection = true
  · simp only [hw, if_true]
    rw [outcome_bind_of_ok (outcome_get run), outcome_bind, outcome_ofExcept]
    unfold Store.collection
    rcases hc : run.store.collection? collection with _ | c
    · exact Or.inr ⟨_, .of_unknown hc, rfl⟩
    · simp only
      rw [outcome_bind]
      rcases outcome_checkEnds c.kind d run with ⟨ended, h⟩ | ⟨field, h⟩
      · rw [h]
        exact Or.inl ⟨c, List.contains_iff_mem.mp hw, rfl, ended, rfl⟩
      · rw [h]
        exact Or.inr ⟨_, .of_other rfl rfl, rfl⟩
  · rw [if_neg hw]
    exact Or.inr ⟨_, .of_unlocked hw, rfl⟩

theorem refusal_of_keyOf {store : Store} {collection : String} {v : Json} {e : Error}
    (h : keyOf v = .error e) : Refusal write store collection e := by
  cases v with
  | str s =>
      unfold keyOf DocumentId.parse at h
      dsimp only at h
      split at h
      · cases h
      · cases h
        exact .of_other rfl rfl
  | null | bool | num | arr | obj =>
      cases h
      exact .of_other rfl rfl

/-- An update merges into the document of the key, or is refused. -/
theorem outcome_update (write : NameSet) (collection : String) (id : Json) (patch : Document)
    (run : Run) :
    (∃ c key old, collection ∈ write ∧ run.store.collection? collection = some c ∧
      keyOf id = .ok key ∧ c.get? key = some old ∧
      outcome (update write collection id patch) run =
        (.ok (merge old patch),
          { run with store := run.store.set collection (c.put key (merge old patch)) })) ∨
    ∃ e, Refusal write run.store collection e ∧
      outcome (update write collection id patch) run = (.error e, run) := by
  unfold update
  rw [outcome_bind, outcome_checkWritable]
  by_cases hw : write.contains collection = true
  · simp only [hw, if_true]
    rw [outcome_bind, outcome_ofExcept]
    rcases hk : keyOf id with e | key
    · exact Or.inr ⟨e, refusal_of_keyOf hk, rfl⟩
    · simp only
      rw [outcome_bind_of_ok (outcome_get run), outcome_bind, outcome_ofExcept]
      unfold Store.collection
      rcases hc : run.store.collection? collection with _ | c
      · exact Or.inr ⟨_, .of_unknown hc, rfl⟩
      · simp only
        rcases ho : c.get? key with _ | old
        · exact Or.inr ⟨_, .of_other rfl rfl, rfl⟩
        · exact Or.inl ⟨c, key, old, List.contains_iff_mem.mp hw, rfl, rfl, ho, rfl⟩
  · rw [if_neg hw]
    exact Or.inr ⟨_, .of_unlocked hw, rfl⟩

/-- A removal gives the document of the key and takes it out, gives null if there is none, or is
refused. -/
theorem outcome_remove (write : NameSet) (collection : String) (id : Json) (run : Run) :
    (∃ c key old, collection ∈ write ∧ run.store.collection? collection = some c ∧
      keyOf id = .ok key ∧ c.get? key = some old ∧
      outcome (remove write collection id) run =
        (.ok (.obj old), { run with store := run.store.set collection (c.erase key) })) ∨
    (∃ c, collection ∈ write ∧ run.store.collection? collection = some c ∧
      (∀ key, keyOf id = .ok key → c.get? key = none) ∧
      outcome (remove write collection id) run = (.ok .null, run)) ∨
    ∃ e, Refusal write run.store collection e ∧
      outcome (remove write collection id) run = (.error e, run) := by
  unfold remove
  rw [outcome_bind, outcome_checkWritable]
  by_cases hw : write.contains collection = true
  · simp only [hw, if_true]
    rw [outcome_bind_of_ok (outcome_get run), outcome_bind, outcome_ofExcept]
    unfold Store.collection
    rcases hc : run.store.collection? collection with _ | c
    · exact Or.inr (Or.inr ⟨_, .of_unknown hc, rfl⟩)
    · simp only
      rcases hk : keyOf id with e | key
      · refine Or.inr (Or.inl ⟨c, List.contains_iff_mem.mp hw, rfl, fun key hk => ?_, rfl⟩)
        cases hk
      · simp only
        rcases ho : c.get? key with _ | old
        · refine Or.inr (Or.inl ⟨c, List.contains_iff_mem.mp hw, rfl, fun key' hk => ?_, rfl⟩)
          cases hk
          exact ho
        · exact Or.inl ⟨c, key, old, List.contains_iff_mem.mp hw, rfl, rfl, ho, rfl⟩
  · rw [if_neg hw]
    exact Or.inr (Or.inr ⟨_, .of_unlocked hw, rfl⟩)

theorem outcome_removeEdges (write : NameSet) (collection : String) (v : Json) (which : EdgeMatch)
    (run : Run) :
    (∃ c, collection ∈ write ∧ run.store.collection? collection = some c ∧
      outcome (removeEdges write collection v which) run =
        (.ok ⟨⟩,
          { run with store := run.store.set collection (c.eraseWhere (touches which v)) })) ∨
    ∃ e, Refusal write run.store collection e ∧
      outcome (removeEdges write collection v which) run = (.error e, run) := by
  unfold removeEdges
  rw [outcome_bind, outcome_checkWritable]
  by_cases hw : write.contains collection = true
  · simp only [hw, if_true]
    rw [outcome_bind_of_ok (outcome_get run), outcome_bind, outcome_ofExcept]
    unfold Store.collection
    rcases hc : run.store.collection? collection with _ | c
    · exact Or.inr ⟨_, .of_unknown hc, rfl⟩
    · exact Or.inl ⟨c, List.contains_iff_mem.mp hw, rfl, rfl⟩
  · rw [if_neg hw]
    exact Or.inr ⟨_, .of_unlocked hw, rfl⟩

end Run

/-! ### Statements -/

open Run in
mutual

/-- What a statement can do to a run when it succeeds. -/
inductive Performs (write : NameSet) (params : Record Json) : Statement → Run → Run → Prop
  | comment {run : Run} (text : String) : Performs write params (.comment text) run run
  | insert {run : Run} {var collection : String} {doc : Ref} {imports : List (String × Ref)}
      {ends : Option (Ref × Ref)} {c : Collection} {body d : Document}
      (read : bodyOf (run.scope params) doc imports = .ok body)
      (withEnds : endsOf (run.scope params) body ends = .ok d) (writable : collection ∈ write)
      (there : run.store.collection? collection = some c) (ended : Ended c.kind d) :
      Performs write params (.insert var collection doc imports ends) run
        { run with
          lastKey := run.lastKey + 1
          store := run.store.set collection (c.put run.nextKey (keyed collection run.nextKey d))
          vars := run.vars.insert var (.obj (keyed collection run.nextKey d)) }
  | update {run : Run} {var collection key : String} {id doc : Ref} {imports : List (String × Ref)}
      {c : Collection} {patch old : Document} {v : Json}
      (read : bodyOf (run.scope params) doc imports = .ok patch)
      (value : id.value (run.scope params) = .ok v) (writable : collection ∈ write)
      (there : run.store.collection? collection = some c) (keyed : keyOf v = .ok key)
      (found : c.get? key = some old) :
      Performs write params (.update var collection id doc imports) run
        { run with
          store := run.store.set collection (c.put key (merge old patch))
          vars := run.vars.insert var (.obj (merge old patch)) }
  | remove {run : Run} {var collection key : String} {id : Ref} {c : Collection} {old : Document}
      {v : Json} (value : id.value (run.scope params) = .ok v) (writable : collection ∈ write)
      (there : run.store.collection? collection = some c) (keyed : keyOf v = .ok key)
      (found : c.get? key = some old) :
      Performs write params (.remove var collection id) run
        { run with
          store := run.store.set collection (c.erase key)
          vars := run.vars.insert var (.obj old) }
  | miss {run : Run} {var collection : String} {id : Ref} {c : Collection} {v : Json}
      (value : id.value (run.scope params) = .ok v) (writable : collection ∈ write)
      (there : run.store.collection? collection = some c)
      (gone : ∀ key, keyOf v = .ok key → c.get? key = none) :
      Performs write params (.remove var collection id) run
        { run with vars := run.vars.insert var .null }
  | removeEdges {run : Run} {collection : String} {endpoint : Ref} {which : EdgeMatch} {v : Json}
      {c : Collection} (value : endpoint.value (run.scope params) = .ok v)
      (writable : collection ∈ write) (there : run.store.collection? collection = some c) :
      Performs write params (.removeEdges collection endpoint which) run
        { run with store := run.store.set collection (c.eraseWhere (touches which v)) }
  | bind {run : Run} {name : String} {r : Ref} {v : Json}
      (value : r.value (run.scope params) = .ok v) :
      Performs write params (.bind name r) run { run with vars := run.vars.insert name v }
  | setResult {run : Run} {name : String} {r : Ref} {v : Json}
      (value : r.value (run.scope params) = .ok v) :
      Performs write params (.setResult name r) run { run with result := run.result.insert name v }
  | pass {run : Run} {condition : Ref} {body : List Statement} {v : Json}
      (value : condition.value (run.scope params) = .ok v) (no : v.isTrue = false) :
      Performs write params (.guarded condition body) run run
  | enter {run run' : Run} {condition : Ref} {body : List Statement} {v : Json}
      (value : condition.value (run.scope params) = .ok v) (yes : v.isTrue = true)
      (inner : PerformsAll write params body run run') :
      Performs write params (.guarded condition body) run run'
  | assert {run : Run} {check : Check} {message : Message}
      (clean : check.violated run.store (run.scope params) = .ok false) :
      Performs write params (.assert check message) run run

/-- What statements can do one after another. -/
inductive PerformsAll (write : NameSet) (params : Record Json) : List Statement → Run → Run → Prop
  | nil {run : Run} : PerformsAll write params [] run run
  | cons {s : Statement} {rest : List Statement} {run run₁ run' : Run}
      (first : Performs write params s run run₁) (others : PerformsAll write params rest run₁ run') :
      PerformsAll write params (s :: rest) run run'

end

namespace Run

mutual

theorem performs_of_ok : ∀ (s : Statement) {run run' : Run},
    outcome (perform write params s) run = (.ok ⟨⟩, run') → Performs write params s run run'
  | .comment text, run, run', h => by
      rw [perform] at h
      cases h
      exact .comment text
  | .insert var collection doc imports ends, run, run', h => by
      rw [perform] at h
      obtain ⟨body, hb, h⟩ := exists_of_bind_ok (outcome_body params doc imports run) h
      obtain ⟨d, hd, h⟩ := exists_of_bind_ok (outcome_withEnds params body ends run) h
      obtain ⟨d', run₁, hi, h⟩ := outcome_bind_ok.mp h
      rcases outcome_insert write collection d run with ⟨c, hw, hc, he, ho⟩ | ⟨e, _, ho⟩
      · rw [ho] at hi
        cases hi
        cases h
        exact .insert hb hd hw hc he
      · rw [ho] at hi
        cases hi
  | .update var collection id doc imports, run, run', h => by
      rw [perform] at h
      obtain ⟨patch, hb, h⟩ := exists_of_bind_ok (outcome_body params doc imports run) h
      obtain ⟨v, hv, h⟩ := exists_of_bind_ok (outcome_value params id run) h
      obtain ⟨d, run₁, hu, h⟩ := outcome_bind_ok.mp h
      rcases outcome_update write collection v patch run with
        ⟨c, key, old, hw, hc, hk, hf, ho⟩ | ⟨e, _, ho⟩
      · rw [ho] at hu
        cases hu
        cases h
        exact .update hb hv hw hc hk hf
      · rw [ho] at hu
        cases hu
  | .remove var collection id, run, run', h => by
      rw [perform] at h
      obtain ⟨v, hv, h⟩ := exists_of_bind_ok (outcome_value params id run) h
      obtain ⟨old, run₁, hr, h⟩ := outcome_bind_ok.mp h
      rcases outcome_remove write collection v run with
        ⟨c, key, d, hw, hc, hk, hf, ho⟩ | ⟨c, hw, hc, gone, ho⟩ | ⟨e, _, ho⟩
      · rw [ho] at hr
        cases hr
        cases h
        exact .remove hv hw hc hk hf
      · rw [ho] at hr
        cases hr
        cases h
        exact .miss hv hw hc gone
      · rw [ho] at hr
        cases hr
  | .removeEdges collection endpoint which, run, run', h => by
      rw [perform] at h
      obtain ⟨v, hv, h⟩ := exists_of_bind_ok (outcome_value params endpoint run) h
      rcases outcome_removeEdges write collection v which run with ⟨c, hw, hc, ho⟩ | ⟨e, _, ho⟩
      · rw [ho] at h
        cases h
        exact .removeEdges hv hw hc
      · rw [ho] at h
        cases h
  | .bind name r, run, run', h => by
      rw [perform] at h
      obtain ⟨v, hv, h⟩ := exists_of_bind_ok (outcome_value params r run) h
      cases h
      exact .bind hv
  | .setResult name r, run, run', h => by
      rw [perform] at h
      obtain ⟨v, hv, h⟩ := exists_of_bind_ok (outcome_value params r run) h
      cases h
      exact .setResult hv
  | .guarded condition body, run, run', h => by
      rw [perform] at h
      obtain ⟨v, hv, h⟩ := exists_of_bind_ok (outcome_value params condition run) h
      by_cases hb : v.isTrue = true
      · rw [if_pos hb] at h
        exact .enter hv hb (performsAll_of_ok body h)
      · rw [if_neg hb] at h
        cases h
        exact .pass hv (by simpa using hb)
  | .assert check message, run, run', h => by
      rw [perform] at h
      obtain ⟨_, hg, h⟩ := exists_of_bind_ok (outcome_get run) h
      cases hg
      obtain ⟨b, hb, h⟩ := exists_of_bind_ok (outcome_ofExcept _ run) h
      cases b with
      | true =>
          rw [if_pos rfl, outcome_fail] at h
          cases h
      | false =>
          cases h
          exact .assert hb
  | .fail message, run, run', h => by
      rw [perform, outcome_fail] at h
      cases h

theorem performsAll_of_ok : ∀ (ss : List Statement) {run run' : Run},
    outcome (performAll write params ss) run = (.ok ⟨⟩, run') → PerformsAll write params ss run run'
  | [], run, run', h => by
      rw [performAll] at h
      cases h
      exact .nil
  | s :: rest, run, run', h => by
      rw [performAll] at h
      obtain ⟨_, run₁, hs, h⟩ := outcome_bind_ok.mp h
      exact .cons (performs_of_ok s hs) (performsAll_of_ok rest h)

end

/-- What is locked for writing passes the check. -/
theorem outcome_checkWritable_bind {α : Type} {collection : String} (writable : collection ∈ write)
    (f : PUnit → Step α) : outcome (checkWritable write collection >>= f) run = outcome (f ⟨⟩) run := by
  refine outcome_bind_of_ok ?_ _
  rw [outcome_checkWritable, if_pos (List.contains_iff_mem.mpr writable)]

theorem outcome_collection_bind {α : Type} {collection : String} {c : Collection}
    (there : run.store.collection? collection = some c) (f : Collection → Step α) :
    outcome (Run.ofExcept (run.store.collection collection) >>= f) run = outcome (f c) run := by
  refine outcome_bind_of_ok ?_ _
  rw [outcome_ofExcept, Store.collection, there]

theorem outcome_checkEnds_of_ended {kind : CollectionKind} {d : Document} (ended : Ended kind d) :
    outcome (checkEnds kind d) run = (.ok ⟨⟩, run) := by
  unfold checkEnds
  split
  · rename_i edge
    obtain ⟨source, target⟩ := ended (beq_iff_eq.mp edge)
    rw [source, target]
    rfl
  · rfl

section

variable {collection key : String} {c : Collection} {d old patch : Document} {id : Json}

theorem outcome_insert_of_ended (writable : collection ∈ write)
    (there : run.store.collection? collection = some c) (ended : Ended c.kind d) :
    outcome (insert write collection d) run =
      (.ok (keyed collection run.nextKey d),
        { run with
          lastKey := run.lastKey + 1
          store := run.store.set collection (c.put run.nextKey (keyed collection run.nextKey d)) }) := by
  rw [insert, outcome_checkWritable_bind writable, outcome_bind_of_ok (outcome_get run),
    outcome_collection_bind there, outcome_bind_of_ok (outcome_checkEnds_of_ended ended)]
  rfl

theorem outcome_update_of_found (writable : collection ∈ write)
    (there : run.store.collection? collection = some c) (keyed : keyOf id = .ok key)
    (found : c.get? key = some old) :
    outcome (update write collection id patch) run =
      (.ok (merge old patch),
        { run with store := run.store.set collection (c.put key (merge old patch)) }) := by
  rw [update, outcome_checkWritable_bind writable, keyed,
    outcome_bind_of_ok (outcome_ofExcept (.ok key) run), outcome_bind_of_ok (outcome_get run),
    outcome_collection_bind there, found]
  rfl

theorem outcome_remove_of_found (writable : collection ∈ write)
    (there : run.store.collection? collection = some c) (keyed : keyOf id = .ok key)
    (found : c.get? key = some old) :
    outcome (remove write collection id) run =
      (.ok (.obj old), { run with store := run.store.set collection (c.erase key) }) := by
  rw [remove, outcome_checkWritable_bind writable, outcome_bind_of_ok (outcome_get run),
    outcome_collection_bind there, keyed]
  dsimp only
  rw [found]
  rfl

theorem outcome_remove_of_gone (writable : collection ∈ write)
    (there : run.store.collection? collection = some c)
    (gone : ∀ key, keyOf id = .ok key → c.get? key = none) :
    outcome (remove write collection id) run = (.ok .null, run) := by
  rw [remove, outcome_checkWritable_bind writable, outcome_bind_of_ok (outcome_get run),
    outcome_collection_bind there]
  rcases keyed : keyOf id with e | key
  · rfl
  · dsimp only
    rw [gone key keyed]
    rfl

end

mutual

theorem outcome_of_performs {s : Statement} {run run' : Run} :
    Performs write params s run run' → outcome (perform write params s) run = (.ok ⟨⟩, run')
  | .comment text => by
      rw [perform]
      rfl
  | .insert read withEnds writable there ended => by
      rw [perform, outcome_bind_of_ok (outcome_body_of_ok read),
        outcome_bind_of_ok (outcome_withEnds_of_ok withEnds),
        outcome_bind_of_ok (outcome_insert_of_ended writable there ended)]
      rfl
  | .update read value writable there keyed found => by
      rw [perform, outcome_bind_of_ok (outcome_body_of_ok read),
        outcome_bind_of_ok (outcome_value_of_ok value),
        outcome_bind_of_ok (outcome_update_of_found writable there keyed found)]
      rfl
  | .remove value writable there keyed found => by
      rw [perform, outcome_bind_of_ok (outcome_value_of_ok value),
        outcome_bind_of_ok (outcome_remove_of_found writable there keyed found)]
      rfl
  | .miss value writable there gone => by
      rw [perform, outcome_bind_of_ok (outcome_value_of_ok value),
        outcome_bind_of_ok (outcome_remove_of_gone writable there gone)]
      rfl
  | .removeEdges value writable there => by
      rw [perform, outcome_bind_of_ok (outcome_value_of_ok value), removeEdges,
        outcome_checkWritable_bind writable, outcome_bind_of_ok (outcome_get _),
        outcome_collection_bind there]
      rfl
  | .bind value => by
      rw [perform, outcome_bind_of_ok (outcome_value_of_ok value)]
      rfl
  | .setResult value => by
      rw [perform, outcome_bind_of_ok (outcome_value_of_ok value)]
      rfl
  | .pass value no => by
      rw [perform, outcome_bind_of_ok (outcome_value_of_ok value), if_neg (by simp [no])]
      rfl
  | .enter value yes inner => by
      rw [perform, outcome_bind_of_ok (outcome_value_of_ok value), if_pos yes]
      exact outcome_of_performsAll inner
  | @Performs.assert _ _ run check message clean => by
      have looked : outcome (Run.ofExcept (check.violated run.store (run.scope params))) run =
          (.ok false, run) := by
        rw [outcome_ofExcept, clean]
      rw [perform, outcome_bind_of_ok (outcome_get run)]
      exact outcome_bind_of_ok looked _

theorem outcome_of_performsAll {ss : List Statement} {run run' : Run} :
    PerformsAll write params ss run run' → outcome (performAll write params ss) run = (.ok ⟨⟩, run')
  | .nil => by
      rw [performAll]
      rfl
  | .cons first others => by
      rw [performAll, outcome_bind_of_ok (outcome_of_performs first)]
      exact outcome_of_performsAll others

end

theorem performs_iff {s : Statement} :
    Performs write params s run run' ↔ outcome (perform write params s) run = (.ok ⟨⟩, run') :=
  ⟨outcome_of_performs, performs_of_ok s⟩

theorem performsAll_iff {ss : List Statement} :
    PerformsAll write params ss run run' ↔ outcome (performAll write params ss) run = (.ok ⟨⟩, run') :=
  ⟨outcome_of_performsAll, performsAll_of_ok ss⟩

/-- A script run in two parts. -/
theorem outcome_performAll_append (ss tt : List Statement) (run : Run) :
    outcome (performAll write params (ss ++ tt)) run =
      match outcome (performAll write params ss) run with
      | (.ok _, run') => outcome (performAll write params tt) run'
      | (.error e, run') => (.error e, run') := by
  induction ss generalizing run with
  | nil => rfl
  | cons s ss ih =>
      rw [List.cons_append, performAll, performAll, outcome_bind, outcome_bind]
      rcases outcome (perform write params s) run with ⟨e | _, run₁⟩
      · rfl
      · exact ih run₁

end Run

/-! ### Transactions -/

/-- The beginning of a run. -/
def Run.start (db : Database) : Run := ⟨db.store, db.lastKey, [], []⟩

/-- What becomes of a database when a run is over. -/
def Database.settle (db : Database) :
    Except Error Unit × Run → Except Error (Record Json) × Database
  | (.ok _, run) => (.ok run.result, ⟨run.store, run.lastKey⟩)
  | (.error e, run) => (.error e, ⟨db.store, run.lastKey⟩)

theorem execute_eq (db : Database) (t : Transaction) :
    db.execute t =
      db.settle (outcome (Run.performAll t.write t.params t.statements) (Run.start db)) := by
  have started : (Run.performAll t.write t.params t.statements).run ⟨db.store, db.lastKey, [], []⟩ =
      outcome (Run.performAll t.write t.params t.statements) (Run.start db) := rfl
  unfold Database.execute
  rw [started]
  rcases outcome (Run.performAll t.write t.params t.statements) (Run.start db) with ⟨e | _, run⟩
  · rfl
  · rfl

theorem Database.settle_of_error {db : Database} {o : Except Error Unit × Run} {e : Error}
    (h : o.1 = .error e) : (db.settle o).1 = .error e := by
  obtain ⟨e' | _, run⟩ := o
  · cases h
    rfl
  · cases h

end DocGraph
