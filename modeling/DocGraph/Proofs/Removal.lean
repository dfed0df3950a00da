import DocGraph.Proofs.Exports
import DocGraph.Proofs.Keys
import DocGraph.Proofs.Required

/-! # Removals

A removal takes the document of an id out of a collection, and whatever comes after that in its script
depends on the document: the edges at it are cleared out of some collections, and the checks of directives
wait behind a guard. `Transaction.Removes` is this script. If the document is not there, the transaction is
committed with null and changes nothing (`Transaction.Removes.execute_missing`); if it is, just the document
and the edges at it in these collections go (`Transaction.Removes.of_committed`). -/

namespace DocGraph

variable {α β : Type} {m : Model} {c c' : Context} {write : NameSet} {params : Record Json} {run run' : Run}

open Synthesis

/-! ### Checks that wait -/

/-- Does nothing but ask for locks to read. -/
def OnlyReads (x : Synthesis α) : Prop :=
  ∀ c, Ensures x c fun _ c' => ∃ read, c' = { c with read := read }

namespace OnlyReads

theorem pure (a : α) : OnlyReads (Pure.pure a : Synthesis α) :=
  fun c => .of_pure a ⟨c.read, rfl⟩

theorem bind {x : Synthesis α} {f : α → Synthesis β} (hx : OnlyReads x) (hf : ∀ a, OnlyReads (f a)) :
    OnlyReads (x >>= f) := by
  refine fun c => (hx c).bind fun a c₁ h₁ => (hf a c₁).mono fun b c₂ h₂ => ?_
  obtain ⟨read, rfl⟩ := h₁
  exact h₂

theorem ofExcept (e : Except Error α) : OnlyReads (Synthesis.ofExcept e) := by
  cases e with
  | error e => exact fun c => .of_throw e
  | ok a => exact pure a

theorem lockReads (collections : List String) : OnlyReads (collections.forM lockRead) := by
  intro c a c' done
  rw [outcome_lockReads] at done
  cases done
  exact c.lockReads_eq collections

theorem fieldAssertions (type : String) (id : Ref) (f : FieldDef) (rules : List Directive) :
    OnlyReads (m.fieldAssertions type id f rules) := by
  induction rules with
  | nil => exact pure []
  | cons d rest ih =>
      rw [Model.fieldAssertions]
      refine (ofExcept _).bind fun found => ?_
      rcases found with _ | ⟨check, message⟩
      · exact ih
      · refine OnlyReads.bind ?_ fun a => ih.bind fun others => pure _
        exact (lockReads check.collections).bind fun _ => pure _

theorem typeAssertions (type : String) (id : Ref) (fields : List FieldDef) :
    OnlyReads (m.typeAssertions type id fields) := by
  induction fields with
  | nil => exact pure []
  | cons f rest ih =>
      rw [Model.typeAssertions]
      refine (ofExcept _).bind fun rules => (fieldAssertions type id f rules).bind fun own => ?_
      exact ih.bind fun others => pure _

end OnlyReads

/-- Checks are added to those that wait for the end, and nothing else changes but locks. -/
theorem deferChecks_ensures (type : String) (id : Ref) (guard? : Option Ref) :
    Ensures (m.deferChecks type id guard?) c fun _ c' => ∃ read assertions, c' = { c with
      read := read
      deferred := c.deferred ++ deferral assertions guard? } := by
  unfold Model.deferChecks
  split
  · refine .of_pure _ ⟨c.read, [], ?_⟩
    cases guard? <;> simp [deferral]
  · refine .ofExcept_bind fun _ _ => .ofExcept_bind fun t _ => ?_
    refine (OnlyReads.typeAssertions type id t.fields c).bind fun assertions c₁ h₁ => ?_
    obtain ⟨read, rfl⟩ := h₁
    intro a c' done
    cases (Model.outcome_deferral _ assertions guard?).symm.trans done
    exact ⟨read, assertions, rfl⟩

/-! ### Scripts of removals -/

/-- What does nothing if a document was not there: a remark, or statements under the guard of the
document. -/
def Statement.DependsOn (var : String) : Statement → Prop
  | .comment _ => True
  | .guarded condition _ => condition = .doc var
  | _ => False

theorem dependsOn_of_mem_deferral {assertions : List Statement} {var : String} {s : Statement}
    (h : s ∈ deferral assertions (some (.doc var))) : s.DependsOn var := by
  unfold deferral at h
  dsimp only at h
  split at h
  · cases h
  · rw [List.mem_singleton.mp h]
    rfl

/-- Clears the edges at a document out of some collections, if it was there. -/
def clearing (var : String) (collections : List String) : Statement :=
  .guarded (.doc var) (collections.map fun C => .removeEdges C (Ref.doc var).id .any)

/-- The script of a removal with the answer under a name: the document of an id is taken out of a
collection, then edges at it are cleared out of some others, where that is asked for, and what waits for the
end depends on the document too. -/
structure Transaction.Removes (t : Transaction) (name C i : String) (cleared? : Option (List String))
    (deferred : List Statement) : Prop where
  script : ∃ text, t.statements = .comment text :: .remove (varName 0) C (.param (paramName 0)) ::
    ((cleared?.map (clearing (varName 0))).toList ++ (answerStatements name (varName 0) ++ finale deferred))
  id : t.params.get? (paramName 0) = some (.str i)
  writable : C ∈ t.write
  depends : ∀ s ∈ deferred, s.DependsOn (varName 0)

theorem ensureOpen_ensures : Ensures ensureOpen c fun _ c' => c' = c := by
  refine .get_bind ?_
  split
  · exact .of_throw _
  · exact .of_pure _ rfl

theorem push_ensures (s : Statement) : Ensures (push s) c fun _ c' => c' = c.add [s] := by
  intro a c' done
  cases done
  rfl

theorem lockWrites_ensures (collections : List String) :
    Ensures (collections.forM lockWrite) c fun _ c' =>
      ∃ write read, c' = { c with write := write, read := read } ∧ ∀ C ∈ c.write, C ∈ write := by
  induction collections generalizing c with
  | nil => exact .of_pure _ ⟨c.write, c.read, rfl, fun _ h => h⟩
  | cons C rest ih =>
      refine Ensures.bind (Q := fun _ c' => c' = c.lockWrite C) ?_ fun _ c₁ h₁ => ih.mono ?_
      · intro a c' done
        cases done
        rfl
      · subst h₁
        rintro _ _ ⟨write, read, rfl, more⟩
        exact ⟨write, read, rfl, fun D hD => more D (NameSet.mem_insert.mpr (Or.inr hD))⟩

/-- The context of a removal in a new request, after the document has been taken out. -/
def removing (number : Nat) (remembers : Bool) (text C i : String) : Context :=
  ((((Context.empty number remembers).add [.comment text]).addParam (.str i)).addVar.lockWrite C).add
    [.remove (varName 0) C (.param (paramName 0))]

/-- What comes after the beginning of a removal makes the script of one. -/
theorem Transaction.Removes.of_context {number : Nat} {remembers : Bool} {text C i : String}
    {cleared? : Option (List String)} (name : String)
    (statements : c.statements = (removing number remembers text C i).statements ++
      (cleared?.map (clearing (varName 0))).toList)
    (params : c.params = (removing number remembers text C i).params) (writable : C ∈ c.write)
    (depends : ∀ s ∈ c.deferred, s.DependsOn (varName 0)) :
    (c.answer name (varName 0)).transaction.Removes name C i cleared? c.deferred where
  script := by
    refine ⟨text, ?_⟩
    rw [Context.statements_transaction]
    show (c.statements ++ _) ++ _ = _
    rw [statements]
    simp [removing, Context.empty, Context.add, Context.addParam, Context.addVar, Context.lockWrite]
    rfl
  id := by
    show c.params.get? _ = _
    rw [params]
    exact Context.get?_addParam _ _
  writable := writable
  depends := depends

/-- The beginning of a removal, and what follows. -/
theorem removing_ensures {number : Nat} {remembers : Bool} {text C i : String}
    {f : String → Ref → Synthesis α} {Q : α → Context → Prop}
    (h : Ensures (f (varName 0) (.param (paramName 0))) (removing number remembers text C i) Q) :
    Ensures (do
      comment text
      let id ← resolveId (.str i)
      let var ← Model.varOr none
      lockWrite C
      push (.remove var C id)
      f var id) (Context.empty number remembers) Q := by
  refine (push_ensures _).bind fun _ c₁ h₁ => ?_
  refine Ensures.bind (fun r c₂ done => Effects.of_freshParam_ok done) fun r c₂ h₂ => ?_
  obtain ⟨rfl, rfl, _⟩ := h₂
  subst h₁
  intro a c' done
  exact h a c' done

/-- With a document of a type go the edges at it in the collections of the type. -/
theorem delete_removes {number : Nat} {remembers : Bool} {type i : String} (name : String) :
    Ensures (m.delete type (.str i) none) (Context.empty number remembers) fun var c =>
      ∃ u touching, m.objectType type = .ok u ∧ m.touchingCollections u = .ok touching ∧
        (c.answer name var).transaction.Removes name type i (some touching) c.deferred := by
  unfold Model.delete
  refine ensureOpen_ensures.bind fun _ c₁ h₁ => .ofExcept_bind fun u found => ?_
  subst h₁
  refine removing_ensures (.ofExcept_bind fun touching collections => ?_)
  refine (lockWrites_ensures touching).bind fun _ c₂ h₂ => ?_
  obtain ⟨write, read, rfl, locked⟩ := h₂
  refine (push_ensures _).bind fun _ c₃ h₃ => (deferChecks_ensures _ _ _).bind fun _ c₄ h₄ => ?_
  obtain ⟨read', assertions, rfl⟩ := h₄
  refine Ensures.bind (fun _ c₅ forgotten => forgotten) fun _ c₅ h₅ => .of_pure _ ?_
  obtain ⟨memo, same⟩ := Context.forget_eq _ _
  cases h₅.symm.trans (congrArg (Prod.mk _) same)
  subst h₃
  refine ⟨u, touching, found, collections, .of_context name rfl rfl ?_ ?_⟩
  · exact locked type (NameSet.mem_insert.mpr (Or.inl rfl))
  · exact fun s hs => dependsOn_of_mem_deferral hs

theorem deleteEdge_removes {number : Nat} {remembers : Bool} {type field i : String} (name : String) :
    Ensures (m.deleteEdge type field (.str i) none) (Context.empty number remembers) fun var c =>
      (c.answer name var).transaction.Removes name (edgeCollection type field) i none c.deferred := by
  unfold Model.deleteEdge
  refine ensureOpen_ensures.bind fun _ c₁ h₁ => ?_
  subst h₁
  refine removing_ensures ((deferChecks_ensures _ _ _).bind fun _ c₂ h₂ => .of_pure _ ?_)
  obtain ⟨read, assertions, rfl⟩ := h₂
  refine .of_context name (List.append_nil _).symm rfl ?_ fun s hs => ?_
  · exact NameSet.mem_insert.mpr (Or.inl rfl)
  · exact dependsOn_of_mem_deferral hs

/-! ### Documents that are not there -/

/-- The removal of a document that is not there sets its variable to null. -/
theorem outcome_remove_missing (var : String) {C : String} {coll : Collection} {id : Ref} {v : Json}
    (value : id.value (run.scope params) = .ok v) (writable : C ∈ write)
    (there : run.store.collection? C = some coll)
    (gone : ∀ key, Run.keyOf v = .ok key → coll.get? key = none) :
    outcome (Run.perform write params (.remove var C id)) run =
      (.ok ⟨⟩, { run with vars := run.vars.insert var .null }) := by
  have missed : outcome (Run.remove write C v) run = (.ok .null, run) := by
    unfold Run.remove
    rw [outcome_bind, Run.outcome_checkWritable, if_pos (List.contains_iff_mem.mpr writable)]
    dsimp only
    rw [outcome_bind_of_ok (outcome_get run), outcome_bind, Run.outcome_ofExcept, Store.collection, there]
    dsimp only
    rcases keyed : Run.keyOf v with e | key
    · rfl
    · simp only [gone key keyed]
      rfl
  rw [Run.perform, outcome_bind_of_ok (Run.outcome_value_of_ok value), outcome_bind_of_ok missed]
  rfl

/-- What depends on a document that was not there does nothing. -/
theorem outcome_dependsOn {var : String} {ss : List Statement} (null : run.vars.get? var = some .null)
    (depends : ∀ s ∈ ss, s.DependsOn var) :
    outcome (Run.performAll write params ss) run = (.ok ⟨⟩, run) := by
  induction ss with
  | nil => rfl
  | cons s ss ih =>
      have rest := ih fun s hs => depends s (List.mem_cons_of_mem _ hs)
      rw [Run.performAll, outcome_bind]
      have first : outcome (Run.perform write params s) run = (.ok ⟨⟩, run) := by
        have here := depends s List.mem_cons_self
        cases s with
        | comment text => rfl
        | guarded condition body =>
            cases here
            rw [Run.perform, outcome_bind_of_ok (Run.outcome_value_of_ok (value_doc null))]
            rfl
        | insert | update | remove | removeEdges | bind | setResult | assert | fail => cases here
      rw [first]
      exact rest

/-- The value of a variable becomes the result under a name. -/
theorem outcome_answer {name var : String} {v : Json} (held : run.vars.get? var = some v) :
    outcome (Run.performAll write params (answerStatements name var)) run =
      (.ok ⟨⟩, { run with result := run.result.insert name v }) := by
  rw [answerStatements, Run.performAll, outcome_bind, Run.perform, outcome_pure]
  dsimp only
  rw [Run.performAll, outcome_bind, Run.perform,
    outcome_bind_of_ok (Run.outcome_value_of_ok (value_doc held)), outcome_modify]
  rfl

/-- The removal of a document that is not there is committed with null, and nothing changes. -/
theorem Transaction.Removes.execute_missing {t : Transaction} {name C i : String}
    {cleared? : Option (List String)} {deferred : List Statement} {db : Database} {coll : Collection}
    (h : t.Removes name C i cleared? deferred) (there : db.store.collection? C = some coll)
    (gone : ∀ key, Run.keyOf (.str i) = .ok key → coll.get? key = none) :
    db.execute t = (.ok [(name, .null)], db) := by
  obtain ⟨text, script⟩ := h.script
  have value : (Ref.param (paramName 0)).value ((Run.start db).scope t.params) = .ok (.str i) := by
    simp [Ref.value, Run.scope, h.id]
  have removed := outcome_remove_missing (varName 0) value h.writable there gone
  have null : Record.get? (Record.insert (Run.start db).vars (varName 0) .null) (varName 0) =
      some Json.null := by
    rw [Record.get?_insert, if_pos rfl]
  have cleared : ∀ s ∈ (cleared?.map (clearing (varName 0))).toList, s.DependsOn (varName 0) := by
    intro s hs
    obtain ⟨collections, _, rfl⟩ := Option.map_eq_some_iff.mp (Option.mem_toList.mp hs)
    rfl
  have last : ∀ s ∈ finale deferred, s.DependsOn (varName 0) := by
    intro s hs
    rcases eq_or_mem_of_mem_finale hs with rfl | hs
    · trivial
    · exact h.depends s hs
  rw [execute_eq, script, Run.performAll, outcome_bind, Run.perform, outcome_pure]
  dsimp only
  rw [Run.performAll, outcome_bind_of_ok removed, Run.outcome_performAll_append,
    outcome_dependsOn null cleared]
  dsimp only
  rw [Run.outcome_performAll_append, outcome_answer null]
  dsimp only
  rw [outcome_dependsOn null last]
  rfl

/-! ### Documents that are there -/

/-- Only the edges at an id are gone from some collections. -/
structure Clears (collections : List String) (i : String) (run run' : Run) : Prop where
  vars : run'.vars = run.vars
  lastKey : run'.lastKey = run.lastKey
  documents : ∀ D, run'.store.documents D = (run.store.documents D).filter fun e =>
    !(collections.contains D && Run.touches .any (.str i) e.2)

theorem Clears.nil (i : String) (run : Run) : Clears [] i run run :=
  ⟨rfl, rfl, by simp⟩

theorem PerformsAll.clears {var : String} {collections : List String} {i : String}
    (p : PerformsAll write params (collections.map fun C => .removeEdges C (Ref.doc var).id .any) run run')
    (value : (Ref.doc var).id.value (run.scope params) = .ok (.str i)) : Clears collections i run run' := by
  induction collections generalizing run with
  | nil =>
      cases p
      exact .nil i _
  | cons C rest ih =>
      cases p with
      | cons first others =>
          cases first with
          | @removeEdges _ _ _ _ v coll value' _ there =>
              cases value.symm.trans value'
              obtain ⟨vars, lastKey, documents⟩ := ih others value
              refine ⟨vars, lastKey, fun D => ?_⟩
              rw [documents, Store.documents_set]
              by_cases here : D = C
              · subst here
                rw [if_pos rfl, Store.documents_eq there, Collection.eraseWhere, List.filter_filter]
                refine List.filter_congr fun e _ => ?_
                cases Run.touches .any (.str i) e.2 <;> simp
              · rw [if_neg here]
                refine List.filter_congr fun e _ => ?_
                simp [here]

/-- If the document was there, the edges at it are cleared. -/
theorem PerformsAll.clears_of_held {var i : String} {cleared? : Option (List String)} {d : Document}
    (p : PerformsAll write params (cleared?.map (clearing var)).toList run run')
    (held : run.vars.get? var = some (.obj d)) (id : Record.get? d Field.id = some (.str i)) :
    Clears (cleared?.getD []) i run run' := by
  cases cleared? with
  | none =>
      cases p
      exact .nil i run
  | some collections =>
      cases performsAll_singleton.mp p with
      | pass value no =>
          cases (value_doc held).symm.trans value
          cases no
      | enter _ _ inner => exact inner.clears (Stage.value_id_doc held id)

/-- If it was not there, nothing happens. -/
theorem PerformsAll.eq_of_null {var : String} {cleared? : Option (List String)}
    (p : PerformsAll write params (cleared?.map (clearing var)).toList run run')
    (null : run.vars.get? var = some .null) : run' = run := by
  cases cleared? with
  | none =>
      cases p
      rfl
  | some collections =>
      cases performsAll_singleton.mp p with
      | pass => rfl
      | enter value yes =>
          cases (value_doc null).symm.trans value
          cases yes

/-- What stays when the document of a key goes, with the edges at it in some collections. -/
def stays (C key : String) (cleared : List String) (D : String) (e : String × Document) : Bool :=
  !(D == C && e.1 == key) &&
    !(cleared.contains D && Run.touches .any (.str (DocumentId.ofKey C key).text) e.2)

/-- A removal that is committed found the document, and took just that out with the edges at it, or did not
find it and changed nothing. -/
theorem Transaction.Removes.of_committed {t : Transaction} {name C i : String}
    {cleared? : Option (List String)} {deferred : List Statement} {db : Database} {res : Record Json}
    (h : t.Removes name C i cleared? deferred) (quiet : ∀ b ∈ partsOf (finale deferred), b.IsQuiet)
    (keyed : db.store.Keyed) (committed : (db.execute t).1 = .ok res) :
    ∃ coll, db.store.collection? C = some coll ∧
      ((∀ key, Run.keyOf (.str i) = .ok key → coll.get? key = none) ∧ res.get? name = some .null ∨
        ∃ key d, Run.keyOf (.str i) = .ok key ∧ coll.get? key = some d ∧ res.get? name = some (.obj d) ∧
          (db.execute t).2.lastKey = db.lastKey ∧ ∀ D, (db.execute t).2.store.documents D =
            (db.store.documents D).filter (stays C key (cleared?.getD []) D)) := by
  obtain ⟨text, script⟩ := h.script
  obtain ⟨final, p, executed, rfl⟩ := exists_run_of_execute_ok committed
  have value : (Ref.param (paramName 0)).value ((Run.start db).scope t.params) = .ok (.str i) := by
    simp [Ref.value, Run.scope, h.id]
  rw [script] at p
  cases p with
  | cons remark p =>
      cases remark
      cases p with
      | cons removal p =>
          obtain ⟨run, p₁, p₂⟩ := performsAll_append.mp p
          obtain ⟨v, held, result, store, lastKey⟩ := p₂.answered quiet
          rw [result, executed, store, lastKey]
          cases removal with
          | @miss _ _ _ _ coll _ value' _ there gone =>
              cases value.symm.trans value'
              have null := Record.get?_insert (Run.start db).vars (varName 0) Json.null (varName 0)
              rw [if_pos rfl] at null
              cases p₁.eq_of_null null
              cases null.symm.trans held
              exact ⟨coll, there, .inl ⟨gone, rfl⟩⟩
          | @remove _ _ _ key _ coll d _ value' _ there keyed' found =>
              cases value.symm.trans value'
              have held' := Record.get?_insert (Run.start db).vars (varName 0) (Json.obj d) (varName 0)
              rw [if_pos rfl] at held'
              have there : db.store.collection? C = some coll := there
              have entry : (key, d) ∈ db.store.documents C := by
                rw [Store.documents_eq there]
                exact NameMap.mem_of_get? found
              have clears := p₁.clears_of_held held' (keyed C (key, d) entry)
              rw [clears.vars] at held
              cases held'.symm.trans held
              refine ⟨coll, there, .inr ⟨key, d, keyed', found, rfl, clears.lastKey, fun D => ?_⟩⟩
              rw [clears.documents, Store.documents_set]
              by_cases here : D = C
              · subst here
                rw [if_pos rfl, Store.documents_eq there, Collection.erase, NameMap.erase,
                  List.filter_filter]
                refine List.filter_congr fun e _ => ?_
                simp [stays, bne, Bool.and_comm]
              · rw [if_neg here]
                refine List.filter_congr fun e _ => ?_
                simp [stays, here]

/-! ### Edges at a deleted document -/

/-- An edge has an id at one of its ends. -/
def Document.IsAt (e : Document) (i : String) : Prop :=
  e.read Field.source = .str i ∨ e.read Field.target = .str i

theorem touches_any_iff {e : Document} {i : String} : Run.touches .any (.str i) e = true ↔ e.IsAt i := by
  unfold Run.touches Document.IsAt Document.read
  dsimp only
  rw [Bool.or_eq_true]
  cases Record.get? e Field.source with
  | none =>
      cases Record.get? e Field.target with
      | none => simp
      | some w => simp [Json.same_str]
  | some v =>
      cases Record.get? e Field.target with
      | none => simp [Json.same_str]
      | some w => simp [Json.same_str]

theorem Schema.exists_eq_of_mem_edgeCollections {s : Schema} {edges : List String} {C : String}
    (h : s.edgeCollections = .ok edges) (mem : C ∈ edges) : ∃ type field, C = edgeCollection type field := by
  obtain ⟨lists, each, made⟩ := exists_of_andThen_ok h
  cases made
  obtain ⟨own, listed, mem⟩ := List.mem_flatten.mp mem
  obtain ⟨t, _, made⟩ := exists_of_mem_mapM each listed
  obtain ⟨fields, _, made⟩ := exists_of_andThen_ok made
  cases made
  obtain ⟨f, _, rfl⟩ := List.mem_map.mp mem
  exact ⟨t.name, f.name, rfl⟩

/-- The id of a deletion is a text, or else a name, which has to stand for something. -/
theorem delete_ensures (type : String) (id : Input) :
    Ensures (m.delete type id none) c fun _ c' =>
      (∃ i, id = .str i) ∨ ∃ x, Resolved c.exports x (fun _ => True) c' := by
  unfold Model.delete
  refine Idle.ensureOpen.exportless.before fun _ c₁ k₁ => .ofExcept_bind fun t _ => ?_
  refine (Idle.comment _).exportless.before fun _ c₂ k₂ => ?_
  cases id with
  | str i => exact fun _ _ _ => .inl ⟨i, rfl⟩
  | null | bool | num | list | obj => exact .of_throw _
  | var x =>
      refine (resolveId_ensures x).bind fun target c₃ h₃ => ?_
      refine Exportless.ensures ?_ fun _ c' keeps => .inr ⟨x, ?_⟩
      · refine (Exportless.varOr none).bind fun var => (Idle.lockWrite _).exportless.bind fun _ => ?_
        refine (Exportless.push _).bind fun _ => (Idle.ofExcept _).exportless.bind fun touching => ?_
        refine (Idle.lockWrites touching).exportless.bind fun _ => (Exportless.push _).bind fun _ => ?_
        refine (Idle.deferChecks _ _ _).exportless.bind fun _ => ?_
        exact (Idle.forget target).exportless.bind fun _ => .pure _
      · exact (h₃.2.earlier (k₁.trans k₂)).mono (fun _ _ => trivial) keeps.statements

/-- A script with a name that stands for nothing fails. -/
theorem Resolved.execute_eq_error {exports : Record Ref} {x : String} {P : Ref → Prop}
    (h : Resolved exports x P c) (unknown : exports.get? x = none) (name var : String) (db : Database) :
    ∃ e, (db.execute (c.answer name var).transaction).1 = .error e := by
  have failing : .fail (.ofText s!"Variable ${x} has not been exported") ∈
      (c.answer name var).transaction.statements := by
    rw [Context.statements_transaction]
    exact List.mem_append_left _ (List.mem_append_left _ (h.missing unknown))
  obtain ⟨ss, tt, script⟩ := List.append_of_mem failing
  obtain ⟨e, failed, _⟩ := execute_of_fail script db
  exact ⟨e, failed⟩

/-- A deletion that is committed alone has the script of a removal. -/
theorem exists_removes_of_delete {number : Nat} {remembers : Bool} {call : Call} {type : String} {id : Input}
    {t : Transaction} {db : Database} {res : Record Json} (root : call.isRoot = true)
    (mutation : call.mutation = .delete type id)
    (submitted : submission? ((Request.start number remembers [call.name]).call m call).1 = some t)
    (committed : (db.execute t).1 = .ok res) :
    ∃ i u touching deferred, m.objectType type = .ok u ∧ m.touchingCollections u = .ok touching ∧
      t.Removes call.name type i (some touching) deferred ∧ ∀ b ∈ partsOf (finale deferred), b.IsQuiet := by
  obtain ⟨var, c, synthesis, rfl⟩ := exists_of_submission_start root submitted
  have beginning : Course m .any number remembers (Context.empty number remembers) [] [] := .start
  obtain ⟨_, course, _, _⟩ := beginning.synthesis_ok (call.mutation.meets_any _) synthesis
  unfold Call.synthesis at synthesis
  rw [mutation] at synthesis
  rcases delete_ensures type id _ _ synthesis with ⟨i, rfl⟩ | ⟨x, resolved⟩
  · obtain ⟨u, touching, found, collections, removes⟩ := delete_removes call.name _ _ synthesis
    exact ⟨i, u, touching, c.deferred, found, collections, removes, course.quiet⟩
  · obtain ⟨e, failed⟩ := resolved.execute_eq_error rfl call.name var db
    cases failed.symm.trans committed

theorem not_isAt_of_stays {C key D : String} {cleared : List String} {e : String × Document}
    (h : stays C key cleared D e = true) (mem : D ∈ cleared) :
    ¬ Document.IsAt e.2 (DocumentId.ofKey C key).text := by
  rw [← touches_any_iff]
  unfold stays at h
  simp only [Bool.and_eq_true, Bool.not_eq_true'] at h
  rw [List.contains_iff_mem.mpr mem, Bool.true_and] at h
  simp [h.2]

theorem filter_stays {C key D : String} {cleared : List String} (l : List (String × Document))
    (other : D ≠ C) (kept : D ∉ cleared) : l.filter (stays C key cleared D) = l := by
  refine List.filter_eq_self.mpr fun e _ => ?_
  simp [stays, other, kept]

/-- A deletion that is committed alone and removed a document clears the edges at it out of the collections
that touch the type, and of the other edges it removes none. So afterwards the edges at the document are gone
from all collections of edges of the schema just in case those that do not touch the type held none. -/
theorem deleted_edges_cleared (m : Model) (number : Nat) (remembers : Bool) (call : Call) (type : String)
    (id : Input) (t : Transaction) (db : Database) (res : Record Json) (d : Document) (edges : List String)
    (root : call.isRoot = true) (mutation : call.mutation = .delete type id)
    (submitted : submission? ((Request.start number remembers [call.name]).call m call).1 = some t)
    (reachable : db.Reachable) (stored : type ∈ m.schema.documentCollections)
    (collections : m.schema.edgeCollections = .ok edges) (committed : (db.execute t).1 = .ok res)
    (removed : res.get? call.name = some (.obj d)) :
    ∃ u touching i, m.objectType type = .ok u ∧ m.touchingCollections u = .ok touching ∧
      Document.id d = .str i ∧
      (∀ C ∈ touching, ∀ e ∈ (db.execute t).2.store.documents C, ¬ Document.IsAt e.2 i) ∧
      (∀ C ∈ edges, C ∉ touching → (db.execute t).2.store.documents C = db.store.documents C) ∧
      ((∀ C ∈ edges, ∀ e ∈ (db.execute t).2.store.documents C, ¬ Document.IsAt e.2 i) ↔
        ∀ C ∈ edges, C ∉ touching → ∀ e ∈ db.store.documents C, ¬ Document.IsAt e.2 i) := by
  obtain ⟨i, u, touching, deferred, found, touch, removes, quiet⟩ :=
    exists_removes_of_delete root mutation submitted committed
  obtain ⟨coll, there, ⟨_, null⟩ | ⟨key, d', keyed, got, result, _, documents⟩⟩ :=
    removes.of_committed quiet reachable.keyed committed
  · cases null.symm.trans removed
  · cases result.symm.trans removed
    have entry : (key, d) ∈ db.store.documents type := by
      rw [Store.documents_eq there]
      exact NameMap.mem_of_get? got
    have gone : ∀ C ∈ touching, ∀ e ∈ (db.execute t).2.store.documents C,
        ¬ Document.IsAt e.2 (DocumentId.ofKey type key).text := by
      intro C hC e he
      rw [documents] at he
      exact not_isAt_of_stays (List.mem_filter.mp he).2 hC
    have kept : ∀ C ∈ edges, C ∉ touching → (db.execute t).2.store.documents C = db.store.documents C := by
      intro C hC other
      obtain ⟨source, field, rfl⟩ := Schema.exists_eq_of_mem_edgeCollections collections hC
      rw [documents]
      exact filter_stays _ (ne_edgeCollection stored source field).symm other
    refine ⟨u, touching, _, found, touch, reachable.keyed.id_eq entry, gone, kept, fun all C hC other => ?_,
      fun before C hC => ?_⟩
    · rw [← kept C hC other]
      exact all C hC
    · by_cases touched : C ∈ touching
      · exact gone C touched
      · rw [kept C hC touched]
        exact before C hC touched

/-- Persons who know each other, with a field for those who know them, and teams of persons. -/
def club : Model where
  schema := .ofTypes [
    ⟨"Person", .object, [⟨"name", .named "String", []⟩, ⟨"knows", .list (.named "Person"), []⟩,
      ⟨"_knowsFromPerson", .list (.named "Person"), []⟩], [], [], []⟩,
    ⟨"Team", .object, [⟨"members", .list (.named "Person"), []⟩], [], [], []⟩]
  settings := .default
  now := 0

/-- Two persons of whom one knows the other, who is in a team. -/
def clubhouse : Database :=
  match Database.empty.setup club.schema false with
  | .ok db => (db.execute
      { write := ["KnowsEdgeFromPerson", "MembersEdgeFromTeam", "Person", "Team"], read := [],
        statements := [
          .insert "_x0" "Person" (.param "_0") [] none, .insert "_x1" "Person" (.param "_0") [] none,
          .insert "_x2" "Team" (.param "_0") [] none,
          .insert "_x3" "KnowsEdgeFromPerson" (.param "_0") []
            (some ((Ref.doc "_x0").id, (Ref.doc "_x1").id)),
          .insert "_x4" "MembersEdgeFromTeam" (.param "_0") []
            (some ((Ref.doc "_x2").id, (Ref.doc "_x1").id))],
        params := [("_0", .obj [])] }).2
  | .error _ => Database.empty

theorem reachable_clubhouse : clubhouse.Reachable := by
  unfold clubhouse
  split
  · rename_i done
    exact .execute (.setup .empty done) _
  · exact .empty

/-- A root field that deletes a person. -/
def leaving (i : String) : Call where
  now := 7
  isRoot := true
  selection := ⟨"left", []⟩
  mutation := .delete "Person" (.str i)

/-- The id of the document that is a result. -/
def Outcome.id? (name : String) (o : Outcome) : Option String :=
  match o.toOption.bind fun res => res.get? name with
  | some (.obj d) => (Document.id d).str?
  | _ => none

theorem Json.eq_str_of_str? {v : Json} {s : String} (h : v.str? = some s) : v = .str s := by
  cases v with
  | str _ => rw [Option.some.inj h]
  | null | bool | num | arr | obj => cases h

theorem exists_of_id? {name i : String} {o : Outcome} (h : o.id? name = some i) :
    ∃ res d, o = .ok res ∧ res.get? name = some (.obj d) ∧ Document.id d = .str i := by
  unfold Outcome.id? at h
  split at h
  · rename_i d found
    obtain ⟨res, committed, result⟩ := Option.bind_eq_some_iff.mp found
    refine ⟨res, d, ?_, result, ?_⟩
    · cases o with
      | error e => cases committed
      | ok res' => rw [Option.some.inj committed]
    · exact Json.eq_str_of_str? h
  · cases h

theorem deleted_edges_cleared_club :
    ∃ t res d, submission? ((Request.start 1 true ["left"]).call club (leaving "Person/1")).1 = some t ∧
      (clubhouse.execute t).1 = .ok res ∧ res.get? "left" = some (.obj d) ∧
      Document.id d = .str "Person/1" ∧
      (∃ e ∈ clubhouse.store.documents "KnowsEdgeFromPerson", Document.IsAt e.2 "Person/1") ∧
      ∀ C ∈ ["KnowsEdgeFromPerson", "MembersEdgeFromTeam"],
        ∀ e ∈ (clubhouse.execute t).2.store.documents C, ¬ Document.IsAt e.2 "Person/1" := by
  have ran : (submission? ((Request.start 1 true ["left"]).call club (leaving "Person/1")).1).any
      (fun t => Outcome.id? "left" (clubhouse.execute t).1 == some "Person/1") = true := by
    decide +kernel
  have known : (clubhouse.store.documents "KnowsEdgeFromPerson").any
      (fun e => Run.touches .any (.str "Person/1") e.2) = true := by
    decide +kernel
  have unmentioned : (clubhouse.store.documents "MembersEdgeFromTeam").all
      (fun e => !Run.touches .any (.str "Person/1") e.2) = true := by
    decide +kernel
  obtain ⟨t, submitted, ok⟩ := (Option.any_eq_true _ _).mp ran
  obtain ⟨res, d, committed, removed, id⟩ := exists_of_id? (beq_iff_eq.mp ok)
  obtain ⟨u, touching, i, found, touch, id', _, _, clear⟩ := deleted_edges_cleared club 1 true
    (leaving "Person/1") "Person" _ t clubhouse res d ["KnowsEdgeFromPerson", "MembersEdgeFromTeam"] rfl rfl
    submitted reachable_clubhouse (by decide +kernel) rfl committed removed
  cases id.symm.trans id'
  cases found
  cases touch
  refine ⟨t, res, d, submitted, committed, removed, id, ?_, clear.mpr fun C hC other e he at_end => ?_⟩
  · obtain ⟨e, he, touched⟩ := List.any_eq_true.mp known
    exact ⟨e, he, touches_any_iff.mp touched⟩
  · simp only [List.mem_cons, List.not_mem_nil, or_false] at hC
    rcases hC with rfl | rfl
    · exact absurd (by decide) other
    · have apart := List.all_eq_true.mp unmentioned e he
      rw [touches_any_iff.mpr at_end] at apart
      cases apart

/-- A person has no field for the teams that they are in: their deletion leaves an edge that ends at
nothing. -/
theorem deleted_edge_remains :
    clubhouse.Reachable ∧ ∃ t res d,
      submission? ((Request.start 1 true ["left"]).call club (leaving "Person/2")).1 = some t ∧
      (clubhouse.execute t).1 = .ok res ∧ res.get? "left" = some (.obj d) ∧
      Document.id d = .str "Person/2" ∧ "Person" ∈ club.schema.documentCollections ∧
      ∃ edges, club.schema.edgeCollections = .ok edges ∧ ∃ C ∈ edges,
        ∃ e ∈ (clubhouse.execute t).2.store.documents C, Document.IsAt e.2 "Person/2" := by
  have ran : (submission? ((Request.start 1 true ["left"]).call club (leaving "Person/2")).1).any
      (fun t => Outcome.id? "left" (clubhouse.execute t).1 == some "Person/2" &&
        ((clubhouse.execute t).2.store.documents "MembersEdgeFromTeam").any
          fun e => Run.touches .any (.str "Person/2") e.2) = true := by
    decide +kernel
  obtain ⟨t, submitted, ok⟩ := (Option.any_eq_true _ _).mp ran
  rw [Bool.and_eq_true] at ok
  obtain ⟨res, d, committed, removed, id⟩ := exists_of_id? (beq_iff_eq.mp ok.1)
  obtain ⟨e, he, touched⟩ := List.any_eq_true.mp ok.2
  exact ⟨reachable_clubhouse, t, res, d, submitted, committed, removed, id, by decide +kernel, _, rfl,
    "MembersEdgeFromTeam", by decide, e, he, touches_any_iff.mp touched⟩

end DocGraph
