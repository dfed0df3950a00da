import DocGraph.Proofs.Uses

/-! # Exported values

A root field may export fields of its document under names, and operations that come later may use these
names. What a name stands for is looked up when a mutation is put into statements; its value is that of a
variable when the statements run. The main statement is `exports_carried`: a later use gets the value of
the field in the result of the exporting root field, and a use of a name that no earlier root field has
exported makes every run fail. -/

namespace DocGraph

variable {m : Model} {c c' : Context} {x : String} {write : NameSet} {params : Record Json} {db : Database}
  {ds : List Duty} {run run' : Run} {r : Ref} {v : Json}

open Synthesis

/-! ### Runs -/

theorem eq_of_nodup_names {α : Type} {l : List (String × α)} (h : (l.map Prod.fst).Nodup)
    {e e' : String × α} (he : e ∈ l) (he' : e' ∈ l) (same : e'.1 = e.1) : e'.2 = e.2 := by
  rw [List.inj_on_of_nodup_map h he' he same]

/-- An imported field has the value of its reference. -/
theorem get?_bodyOf {scope : Scope} {doc : Ref} {imported : List (String × Ref)} {body : Document}
    {g : String} (read : Run.bodyOf scope doc imported = .ok body) (given : (g, r) ∈ imported)
    (distinct : (imported.map Prod.fst).Nodup) (value : r.value scope = .ok v) :
    Record.get? body g = some v := by
  unfold Run.bodyOf at read
  obtain ⟨d, _, read⟩ := exists_of_andThen_ok read
  obtain ⟨values, mapped, read⟩ := exists_of_andThen_ok read
  cases read
  -- The names are different, so nothing that is set later takes the place of the value.
  have mine : (g, v) ∈ values := mem_of_mapM_ok mapped given (by rw [value]; rfl)
  refine Record.get?_insertAll_of_mem mine fun e he name => ?_
  obtain ⟨a, ha, mapped⟩ := exists_of_mem_mapM mapped he
  obtain ⟨w, hw, rfl⟩ := exists_of_map_ok mapped
  have same : a.2 = r := eq_of_nodup_names distinct given ha name
  rw [same, value] at hw
  exact (Except.ok.inj hw).symm

theorem nodup_bodyOf {run : Run} {p : String} {imported : List (String × Ref)} {d body : Document}
    (param : params.get? p = some (.obj d)) (plain : (d.map Prod.fst).Nodup)
    (read : Run.bodyOf (run.scope params) (.param p) imported = .ok body) :
    (body.map Prod.fst).Nodup := by
  unfold Run.bodyOf at read
  obtain ⟨d', document, read⟩ := exists_of_andThen_ok read
  obtain ⟨values, _, read⟩ := exists_of_andThen_ok read
  cases read
  simp only [Ref.document, Ref.value, Run.scope, param, bind, Except.bind] at document
  cases document
  exact Record.nodup_insertAll plain

/-- A field that a patch sets once has its value after the merge. -/
theorem get?_merge_of_nodup {old patch : Document} {g : String} (plain : (patch.map Prod.fst).Nodup)
    (set : Record.get? patch g = some v) (other : g ≠ Field.id ∧ g ≠ Field.key) :
    Record.get? (Run.merge old patch) g = some v := by
  have mem : (g, v) ∈ patch := NameMap.mem_of_get? set
  refine Record.get?_insertAll_of_mem (e := (g, v)) (List.mem_filter.mpr ⟨mem, ?_⟩) fun e he name => ?_
  · simpa using other
  · exact eq_of_nodup_names plain mem (List.mem_of_mem_filter he) name

/-- When the transaction runs on a database, one of its statements puts a new document into a collection. -/
def Transaction.Inserts (t : Transaction) (db : Database) (C : String) (d : Document) : Prop :=
  ∃ ss s tt run run', t.statements = ss ++ s :: tt ∧ PerformsAll t.write t.params ss (Run.start db) run ∧
    Performs t.write t.params s run run' ∧ run'.lastKey = run.lastKey + 1 ∧
    (run.nextKey, d) ∈ run'.store.documents C

/-- An edge that is inserted has the values of its ends, whatever its fields say. -/
theorem Performs.edge_of_insert {var C : String} {doc source target : Ref}
    {imported : List (String × Ref)}
    (p : Performs write params (.insert var C doc imported (some (source, target))) run run') :
    ∃ d a b, source.value (run.scope params) = .ok a ∧ target.value (run.scope params) = .ok b ∧
      run'.lastKey = run.lastKey + 1 ∧ (run.nextKey, d) ∈ run'.store.documents C ∧
      run'.vars.get? var = some (.obj d) ∧
      Record.get? d Field.source = some a ∧ Record.get? d Field.target = some b := by
  cases p with
  | @insert _ _ _ _ _ _ coll body d read withEnds writable there ended =>
      obtain ⟨a, from_source, withEnds⟩ := exists_of_andThen_ok withEnds
      obtain ⟨b, to_target, withEnds⟩ := exists_of_andThen_ok withEnds
      cases withEnds
      let edge := (Record.insert body Field.source a).insert Field.target b
      refine ⟨Run.keyed C run.nextKey edge, a, b, from_source, to_target, rfl, ?_, ?_, ?_, ?_⟩
      · rw [Store.documents_set, if_pos rfl]
        exact NameMap.mem_insert_self
      · exact (Record.get?_insert ..).trans (if_pos rfl)
      · simp [edge, Run.keyed, Record.get?_insert, Field.source, Field.target, Field.key, Field.id]
      · simp [edge, Run.keyed, Record.get?_insert, Field.target, Field.key, Field.id]

namespace Stage

/-- A name that is bound to a field of a document has the value of the field at the end, too. -/
theorem get?_of_bind {var field : String} (st : Stage write params db c ds run)
    (h : .bind x (.field (.doc var) field) ∈ c.statements) :
    ∃ d : Document, run.vars.get? var = some (.obj d) ∧ run.vars.get? x = some (d.read field) := by
  obtain ⟨before, after, Γ, moment⟩ := st.exists_moment h
  have kept := moment.get?_vars_eq (x := (x, .value)) rfl
  have same := moment.value_eq List.mem_cons_self
  have document : (var, .document) ∈ Γ := by
    cases moment.reads with
    | bind reads =>
        cases reads with
        | field document => exact document
  obtain ⟨_, held, d, rfl⟩ := st.agrees _ (moment.known _ document)
  refine ⟨d, held, ?_⟩
  cases moment.performs with
  | bind value =>
      rw [Record.get?_insert, if_pos rfl] at kept
      cases (same.trans value).symm.trans (value_field_doc held)
      exact kept

theorem get?_of_sets {var g : String} (st : Stage write params db c ds run) (h : c.Sets var g r)
    (value : r.value (run.scope params) = .ok v) (other : g ≠ Field.id ∧ g ≠ Field.key) :
    ∃ d, run.vars.get? var = some (.obj d) ∧ Record.get? d g = some v := by
  cases h with
  | insert stated given distinct =>
      obtain ⟨before, after, Γ, moment⟩ := st.exists_moment stated
      have kept := moment.get?_vars_eq (x := (var, .document)) rfl
      have same := moment.value_eq (List.mem_cons_of_mem _ (List.mem_append_left _
        (List.mem_map_of_mem given)))
      cases moment.performs with
      | insert read withEnds =>
          cases withEnds
          rw [Record.get?_insert, if_pos rfl] at kept
          refine ⟨_, kept, ?_⟩
          have set := get?_bodyOf read given distinct (same.symm.trans value)
          unfold Run.keyed
          rw [Record.get?_insert, if_neg other.1, Record.get?_insert, if_neg other.2, set]
  | update stated param plain given distinct =>
      obtain ⟨before, after, Γ, moment⟩ := st.exists_moment stated
      have kept := moment.get?_vars_eq (x := (var, .document)) rfl
      have same := moment.value_eq (List.mem_cons_of_mem _ (List.mem_cons_of_mem _
        (List.mem_map_of_mem given)))
      cases moment.performs with
      | update read =>
          rw [Record.get?_insert, if_pos rfl] at kept
          have set := get?_bodyOf read given distinct (same.symm.trans value)
          exact ⟨_, kept, get?_merge_of_nodup (nodup_bodyOf (st.within param) plain read) set other⟩

/-- An edge is inserted with the value at its end. -/
theorem inserts_of_ends {var C field : String}
    (st : Stage c.transaction.write c.transaction.params db c ds run) (h : c.Ends var C field r)
    (value : r.value (run.scope c.transaction.params) = .ok v) :
    ∃ d, c.transaction.Inserts db C d ∧ Record.get? d field = some v ∧
      run.vars.get? var = some (.obj d) := by
  obtain ⟨doc, imported, source, target, stated, side⟩ := h
  obtain ⟨before, after, Γ, moment⟩ := st.exists_moment stated
  obtain ⟨ss, tt, split, p⟩ := moment.earlier
  have atSource := moment.value_eq (r := source) (by simp [Statement.refs, endRefs])
  have atTarget := moment.value_eq (r := target) (by simp [Statement.refs, endRefs])
  have kept := moment.get?_vars_eq (x := (var, .document)) rfl
  obtain ⟨d, a, b, from_source, to_target, key, stored, held, source_eq, target_eq⟩ :=
    moment.performs.edge_of_insert
  refine ⟨d, ⟨ss, _, tt ++ finale c.deferred, before, after, ?_, p, moment.performs, key, stored⟩, ?_,
    kept.trans held⟩
  · rw [c.statements_transaction, split, List.append_assoc]
    rfl
  · rcases side with ⟨rfl, rfl⟩ | ⟨rfl, rfl⟩
    · cases value.symm.trans (atSource.trans from_source)
      exact source_eq
    · cases value.symm.trans (atTarget.trans to_target)
      exact target_eq

end Stage

/-- A script that is made to fail at some point fails there, if not before. -/
theorem execute_of_fail {t : Transaction} {text : String} {ss tt : List Statement}
    (script : t.statements = ss ++ .fail (.ofText text) :: tt) (db : Database) :
    ∃ e, (db.execute t).1 = .error e ∧ (e = .transaction (.thrown text) ∨
      (outcome (Run.performAll t.write t.params ss) (Run.start db)).1 = .error e) := by
  rw [execute_eq, script, Run.outcome_performAll_append]
  rcases outcome (Run.performAll t.write t.params ss) (Run.start db) with ⟨e | _, run⟩
  · exact ⟨e, rfl, .inr rfl⟩
  · refine ⟨_, Database.settle_of_error (e := .transaction (.thrown text)) ?_, .inl rfl⟩
    dsimp only
    rw [Run.performAll, outcome_bind, Run.perform, Run.outcome_fail]
    rfl

/-! ### Requests -/

/-- The field `p` of the document of a root field is exported as `x`. -/
def Call.Exports (call : Call) (p x : String) : Prop :=
  call.isRoot = true ∧ call.mutation.exporting = true ∧
    ∃ below, .field p (some x) below ∈ call.selection.items

/-- The calls that a request takes up, of those that are made. -/
def Request.heard (m : Model) (r : Request) : List Call → List Call
  | [] => []
  | call :: rest =>
    if (r.call m call).1.toBool then call :: (r.call m call).2.heard m rest
    else (r.call m call).2.heard m rest

/-- The context of a request that has taken up some calls, and the variables of its root fields. -/
inductive Heard (m : Model) (number : Nat) (remembers : Bool) :
    List Call → Context → List (String × String) → Prop
  | start : Heard m number remembers [] (Context.empty number remembers) []
  | field {calls : List Call} {c c' : Context} {answers : List (String × String)} {call : Call}
      {var : String} (before : Heard m number remembers calls c answers) (root : call.isRoot = false)
      (synthesis : outcome (call.synthesis m) c = (.ok var, c')) :
      Heard m number remembers (calls ++ [call]) c' answers
  | root {calls : List Call} {c c' : Context} {answers : List (String × String)} {call : Call}
      {var : String} (before : Heard m number remembers calls c answers) (root : call.isRoot = true)
      (new : call.name ∉ answers.map Prod.fst)
      (synthesis : outcome (call.synthesis m) c = (.ok var, c')) :
      Heard m number remembers (calls ++ [call]) (c'.answer call.name var)
        (answers ++ [(call.name, var)])

namespace Heard

variable {number : Nat} {remembers : Bool} {calls : List Call} {answers : List (String × String)}

theorem nodup (h : Heard m number remembers calls c answers) : (answers.map Prod.fst).Nodup := by
  induction h with
  | start => exact List.nodup_nil
  | field _ _ _ ih => exact ih
  | root _ _ new _ ih =>
      rw [List.map_append]
      refine List.nodup_append.mpr ⟨ih, by simp, ?_⟩
      rintro a ha b hb rfl
      rw [List.mem_singleton.mp hb] at ha
      exact new ha

theorem course (h : Heard m number remembers calls c answers) :
    ∃ ss, Course m .any number remembers c ss answers := by
  induction h with
  | start => exact ⟨[], .start⟩
  | field _ _ synthesis ih =>
      obtain ⟨ss, course⟩ := ih
      obtain ⟨tt, course', _, _⟩ := course.synthesis_ok (Mutation.meets_any _ _) synthesis
      exact ⟨_, course'⟩
  | root _ _ _ synthesis ih =>
      obtain ⟨ss, course⟩ := ih
      obtain ⟨tt, course', ⟨held, document, bound⟩, _⟩ :=
        course.synthesis_ok (Mutation.meets_any _ _) synthesis
      exact ⟨_, .answer _ _ course' document bound⟩

end Heard

/-- A call among others is the last of them, or it comes before the last one. -/
theorem last_or_earlier {earlier later calls : List Call} {b call : Call}
    (h : earlier ++ b :: later = calls ++ [call]) :
    earlier = calls ∧ b = call ∨ ∃ between, calls = earlier ++ b :: between := by
  rcases List.eq_nil_or_concat later with rfl | ⟨between, last, rfl⟩
  · obtain ⟨same, end_eq⟩ := List.append_inj' h rfl
    exact .inl ⟨same, List.head_eq_of_cons_eq end_eq⟩
  · rw [List.concat_eq_append, ← List.cons_append, ← List.append_assoc] at h
    exact .inr ⟨between, (List.append_inj' h rfl).1.symm⟩

/-- A call handles the names in it. -/
theorem Call.handles {call : Call} {var : String} (h : outcome (call.synthesis m) c = (.ok var, c')) :
    call.mutation.Handles { m with now := call.now } (if call.isRoot then some call.selection else none)
      c var c' :=
  synthesize_handles call.mutation _ none var c' h

/-- The names that a call exports, and no others, are new. -/
theorem Call.exports_of_synthesis {call : Call} {var : String}
    (h : outcome (call.synthesis m) c = (.ok var, c')) :
    (∀ {p x}, call.Exports p x → c'.exports.get? x = some (.exported x) ∧
      .bind x (.field (.doc var) (exportedField p)) ∈ c'.statements) ∧
    ∀ {x r}, c'.exports.get? x = some r → c.exports.get? x = some r ∨ ∃ p, call.Exports p x := by
  have exporting := (Call.handles h).exporting
  constructor
  · rintro p x ⟨root, exports, below, item⟩
    rw [root, exports] at exporting
    exact exporting.bound item
  · intro x r found
    rcases exporting.only found with old | ⟨p, below, item⟩
    · exact .inl old
    · by_cases exports : call.mutation.exporting = true
      · rw [if_pos exports] at item
        by_cases root : call.isRoot = true
        · rw [if_pos root] at item
          exact .inr ⟨p, root, exports, below, item⟩
        · rw [if_neg root] at item
          cases item
      · rw [if_neg exports] at item
        cases item

namespace Heard

variable {number : Nat} {remembers : Bool} {calls : List Call} {answers : List (String × String)}

/-- A name that a call has exported is bound to the field of the document of the call. -/
theorem bound {a : Call} {p : String} (h : Heard m number remembers calls c answers) (ha : a ∈ calls)
    (exports : a.Exports p x) :
    c.exports.get? x = some (.exported x) ∧ ∃ var, (a.name, var) ∈ answers ∧
      .bind x (.field (.doc var) (exportedField p)) ∈ c.statements := by
  induction h with
  | start => cases ha
  | field _ root synthesis ih =>
      have exporting := (Call.handles synthesis).exporting
      rcases List.mem_append.mp ha with old | new
      · obtain ⟨found, var, answer, set⟩ := ih old
        exact ⟨exporting.kept found, var, answer, exporting.statements set⟩
      · rw [List.mem_singleton.mp new, Call.Exports, root] at exports
        cases exports.1
  | @root _ _ c' _ _ var _ root new synthesis ih =>
      have exporting := (Call.handles synthesis).exporting
      rcases List.mem_append.mp ha with old | mine
      · obtain ⟨found, var, answer, set⟩ := ih old
        exact ⟨exporting.kept found, var, List.mem_append_left _ answer,
          List.mem_append_left _ (exporting.statements set)⟩
      · rw [List.mem_singleton.mp mine] at exports ⊢
        obtain ⟨found, set⟩ := (Call.exports_of_synthesis synthesis).1 exports
        exact ⟨found, var, List.mem_append_right _ List.mem_cons_self, List.mem_append_left _ set⟩

/-- Only names that a call has exported are known. -/
theorem exists_of_exported {r : Ref} (h : Heard m number remembers calls c answers)
    (found : c.exports.get? x = some r) : ∃ a ∈ calls, ∃ p, a.Exports p x := by
  induction h with
  | start => cases found
  | field _ _ synthesis ih | root _ _ _ synthesis ih =>
      rcases (Call.exports_of_synthesis synthesis).2 found with old | ⟨p, exports⟩
      · obtain ⟨a, ha, exports⟩ := ih old
        exact ⟨a, List.mem_append_left _ ha, exports⟩
      · exact ⟨_, List.mem_append_right _ List.mem_cons_self, p, exports⟩

/-- The point at which a call has been taken up. -/
theorem split {earlier later : List Call} {b : Call}
    (h : Heard m number remembers (earlier ++ b :: later) c answers) :
    ∃ c₁ answers₁ var c₂, Heard m number remembers earlier c₁ answers₁ ∧
      (∀ a ∈ answers₁, a ∈ answers) ∧ outcome (b.synthesis m) c₁ = (.ok var, c₂) ∧
      (b.isRoot = true → (b.name, var) ∈ answers) ∧
      (∀ {s}, s ∈ c₂.statements → s ∈ c.statements) ∧
      ∀ {p v}, c₂.params.get? p = some v → c.params.get? p = some v := by
  generalize hcalls : earlier ++ b :: later = calls at h
  -- The calls are told from the last one back: it is the call looked for, or this is among the others.
  induction h generalizing later with
  | start => simp at hcalls
  | @field calls c₁ c₂ answers call var before root synthesis ih =>
      rcases last_or_earlier hcalls with ⟨rfl, rfl⟩ | ⟨between, rfl⟩
      · refine ⟨c₁, answers, var, c₂, before, fun a ha => ha, synthesis, fun isRoot => ?_, id, id⟩
        rw [root] at isRoot
        cases isRoot
      · have exporting := (Call.handles synthesis).exporting
        obtain ⟨c₃, answers₃, var₃, c₄, heard, sub, done, answer, statements, params⟩ := ih rfl
        exact ⟨c₃, answers₃, var₃, c₄, heard, sub, done, answer,
          fun hs => exporting.statements (statements hs), fun hp => exporting.params (params hp)⟩
  | @root calls c₁ c₂ answers call var before root new synthesis ih =>
      rcases last_or_earlier hcalls with ⟨rfl, rfl⟩ | ⟨between, rfl⟩
      · exact ⟨c₁, answers, var, c₂, before, fun a ha => List.mem_append_left _ ha, synthesis,
          fun _ => List.mem_append_right _ List.mem_cons_self, fun hs => List.mem_append_left _ hs, id⟩
      · have exporting := (Call.handles synthesis).exporting
        obtain ⟨c₃, answers₃, var₃, c₄, heard, sub, done, answer, statements, params⟩ := ih rfl
        exact ⟨c₃, answers₃, var₃, c₄, heard, fun a ha => List.mem_append_left _ (sub a ha), done,
          fun isRoot => List.mem_append_left _ (answer isRoot),
          fun hs => List.mem_append_left _ (exporting.statements (statements hs)),
          fun hp => exporting.params (params hp)⟩

end Heard

/-- A request, while it is running, has taken up some calls and waits for other root fields. -/
def Request.Hears (m : Model) (number : Nat) (remembers : Bool) (r : Request) (calls : List Call) : Prop :=
  ∀ c, r.outcome = none → r.context = some c →
    ∃ answers, Heard m number remembers calls c answers ∧ ∀ name ∈ answers.map Prod.fst, name ∉ r.pending

section Requests

variable {number : Nat} {remembers : Bool} {calls : List Call} {r r' : Request} {call : Call}

/-- A call that is taken up is heard after the others, and what is handed over has heard it. -/
theorem Turn.hears {reply : Except Error Contribution} (turn : Turn m r call reply r')
    (h : r.Hears m number remembers calls) :
    r'.Hears m number remembers (calls ++ if reply.toBool then [call] else []) ∧
    ∀ t, submission? reply = some t →
      ∃ c answers, Heard m number remembers (calls ++ [call]) c answers ∧ t = c.transaction := by
  cases turn with
  | late ended =>
      refine ⟨fun c running => absurd running ended, fun t ht => ?_⟩
      split at ht <;> cases ht
  | outstanding _ gone =>
      refine ⟨fun c _ context => ?_, fun t ht => by cases ht⟩
      rw [gone] at context
      cases context
  | refused =>
      refine ⟨?_, fun t ht => by cases ht⟩
      simpa [Except.toBool] using h
  | failed | closed =>
      exact ⟨fun c running => (by cases running), fun t ht => by cases ht⟩
  | below running context root synthesis =>
      obtain ⟨answers, heard, waited⟩ := h _ running context
      refine ⟨fun c _ hc => ?_, fun t ht => by cases ht⟩
      cases hc
      exact ⟨answers, heard.field root synthesis, waited⟩
  | waits running context root name synthesis more =>
      obtain ⟨answers, heard, waited⟩ := h _ running context
      have new : call.name ∉ answers.map Prod.fst := fun old => waited _ old name
      refine ⟨fun c _ hc => ?_, fun t ht => by cases ht⟩
      cases hc
      refine ⟨_, heard.root root new synthesis, fun other answered pending => ?_⟩
      rw [List.mem_filter] at pending
      rw [List.map_append] at answered
      rcases List.mem_append.mp answered with old | mine
      · exact waited other old pending.1
      · rw [List.mem_singleton.mp mine] at pending
        simp at pending
  | submits running context root name synthesis last isOpen =>
      obtain ⟨answers, heard, waited⟩ := h _ running context
      have new : call.name ∉ answers.map Prod.fst := fun old => waited _ old name
      refine ⟨fun c _ hc => (by cases hc), fun t ht => ?_⟩
      cases ht
      exact ⟨_, _, heard.root root new synthesis, rfl⟩

theorem Request.Hears.after (h : r.Hears m number remembers calls) (more : List Call) :
    (r.after m more).Hears m number remembers (calls ++ r.heard m more) := by
  induction more generalizing r calls with
  | nil => simpa [Request.heard, Request.after] using h
  | cons call rest ih =>
      have next := ((call_turn m r call).hears h).1
      have later := ih next
      rw [List.append_assoc] at later
      rw [Request.heard]
      split
      · rename_i taken
        rw [if_pos taken] at later
        exact later
      · rename_i refused
        rw [if_neg refused] at later
        exact later

theorem Request.heard_append (m : Model) (r : Request) (calls : List Call) (call : Call) :
    r.heard m (calls ++ [call]) = r.heard m calls ++
      if ((r.after m calls).call m call).1.toBool then [call] else [] := by
  induction calls generalizing r with
  | nil => rfl
  | cons first rest ih =>
      rw [List.cons_append, Request.heard, Request.heard, ih]
      split
      · rfl
      · rfl

/-- What a request hands over has heard all calls that were taken up. -/
theorem exists_heard {names : List String} {t : Transaction}
    (submitted : submission? (((Request.start number remembers names).after m calls).call m call).1 =
      some t) :
    ∃ c answers, Heard m number remembers
      ((Request.start number remembers names).heard m (calls ++ [call])) c answers ∧
      t = c.transaction := by
  have start : (Request.start number remembers names).Hears m number remembers [] := by
    intro c _ context
    cases context
    exact ⟨[], .start, fun name h => by cases h⟩
  obtain ⟨c, answers, heard, same⟩ := ((call_turn m _ call).hears (start.after calls)).2 t submitted
  refine ⟨c, answers, ?_, same⟩
  have taken : (((Request.start number remembers names).after m calls).call m call).1.toBool = true := by
    rcases reply : (((Request.start number remembers names).after m calls).call m call).1 with e | _
    · rw [reply] at submitted
      cases submitted
    · rfl
  rw [Request.heard_append, if_pos taken]
  exact heard

end Requests

/-! ### The main statement -/

theorem Context.Sets.mono {var g : String} (h : c.Sets var g r)
    (statements : ∀ {s}, s ∈ c.statements → s ∈ c'.statements)
    (params : ∀ {p v}, c.params.get? p = some v → c'.params.get? p = some v) : c'.Sets var g r := by
  cases h with
  | insert stated given distinct => exact .insert (statements stated) given distinct
  | update stated param plain given distinct =>
      exact .update (statements stated) (params param) plain given distinct

theorem Context.Ends.mono {var C field : String} (h : c.Ends var C field r)
    (statements : ∀ {s}, s ∈ c.statements → s ∈ c'.statements) : c'.Ends var C field r := by
  obtain ⟨doc, imported, source, target, stated, side⟩ := h
  exact ⟨doc, imported, source, target, statements stated, side⟩

/-- A committed transaction has come to a stage at which the results are the values of the variables of
the root fields. -/
theorem Heard.exists_stage {number : Nat} {remembers : Bool} {calls : List Call}
    {answers : List (String × String)} {res : Record Json}
    (h : Heard m number remembers calls c answers) (committed : (db.execute c.transaction).1 = .ok res) :
    ∃ run, Stage c.transaction.write c.transaction.params db c [] run ∧
      ∀ a ∈ answers, ∃ v, run.vars.get? a.2 = some v ∧ res.get? a.1 = some v := by
  obtain ⟨ss, course⟩ := h.course
  obtain ⟨run, ran, _, results⟩ := course.results h.nodup committed
  have p := Run.performsAll_of_ok _ ran
  rw [c.statements_transaction] at p
  obtain ⟨mid, p₁, p₂⟩ := performsAll_append.mp p
  obtain ⟨rfl, _⟩ := p₂.of_quiet course.quiet
  exact ⟨run, ⟨course.scoping, id, p₁⟩, results⟩

/-- The result of a root field, if what has been committed has a document in its variable. -/
theorem eq_of_result {answers : List (String × String)} {res : Record Json} {name var : String}
    (results : ∀ a ∈ answers, ∃ v, run.vars.get? a.2 = some v ∧ res.get? a.1 = some v)
    (answer : (name, var) ∈ answers) (held : run.vars.get? var = some v) : res.get? name = some v := by
  obtain ⟨w, there, result⟩ := results _ answer
  cases there.symm.trans held
  exact result

/-- A use of a name gets the value of the field that an earlier root field has exported under it, as this
field is in the result. A use of a name that no earlier root field has exported makes the script fail, and
it fails over that, if not over something before. -/
theorem exports_carried (m : Model) (number : Nat) (remembers : Bool) (names : List String)
    (calls : List Call) (last : Call) (t : Transaction)
    (submitted : submission? (((Request.start number remembers names).after m calls).call m last).1 =
      some t)
    (earlier later : List Call) (b : Call) (x : String)
    (heard : (Request.start number remembers names).heard m (calls ++ [last]) = earlier ++ b :: later) :
    (∀ a ∈ earlier, ∀ p, a.Exports p x → ∀ db res, (db.execute t).1 = .ok res →
      ∃ d : Document, res.get? a.name = some (.obj d) ∧
        (∀ g, (g, .var x) ∈ b.mutation.given → (b.mutation.given.map Prod.fst).Nodup →
          b.isRoot = true → g ≠ Field.id ∧ g ≠ Field.key →
          ∃ d', res.get? b.name = some (.obj d') ∧
            Record.get? d' g = some (d.read (exportedField p))) ∧
        ∀ C field, b.mutation.EdgeEnd { m with now := b.now } C field x →
          ∃ e, t.Inserts db C e ∧ Record.get? e field = some (d.read (exportedField p)) ∧
            (b.isRoot = true → b.mutation.makesEdge = true → res.get? b.name = some (.obj e))) ∧
    ((∀ a ∈ earlier, ∀ p, ¬ a.Exports p x) →
      ((∃ g, (g, .var x) ∈ b.mutation.given) ∨
        ∃ C field, b.mutation.EdgeEnd { m with now := b.now } C field x) →
      ∃ ss tt, t.statements = ss ++ .fail (.ofText s!"Variable ${x} has not been exported") :: tt ∧
        ∀ db : Database, ∃ e, (db.execute t).1 = .error e ∧
          (e = .transaction (.thrown s!"Variable ${x} has not been exported") ∨
            (outcome (Run.performAll t.write t.params ss) (Run.start db)).1 = .error e)) := by
  obtain ⟨c, answers, hears, rfl⟩ := exists_heard submitted
  rw [heard] at hears
  obtain ⟨c₁, answers₁, var, c₂, before, sub, synthesis, answer, statements, params⟩ := hears.split
  have handles := Call.handles synthesis
  constructor
  -- Variables are set once, so the value of the name at its use is its value when all has run.
  · intro a ha p exports db res committed
    obtain ⟨known, source, sourced, bound⟩ := before.bound ha exports
    obtain ⟨run, stage, results⟩ := hears.exists_stage committed
    obtain ⟨d, held, value⟩ := stage.get?_of_bind (statements (handles.exporting.statements bound))
    have value : (Ref.exported x).value (run.scope c.transaction.params) =
        .ok (d.read (exportedField p)) := by
      simp [Ref.value, Run.scope, Scope.var, value]
    refine ⟨d, eq_of_result results (sub _ sourced) held, fun g given distinct root other => ?_,
      fun C field edge => ?_⟩
    · have sets := ((handles.stored given).used known distinct).mono statements params
      obtain ⟨d', held', set⟩ := stage.get?_of_sets sets value other
      exact ⟨d', eq_of_result results (answer root) held', set⟩
    · obtain ⟨var', ends, own⟩ := (handles.ended edge).used known
      obtain ⟨e, inserts, set, held'⟩ := stage.inserts_of_ends (ends.mono statements) value
      refine ⟨e, inserts, set, fun root makes => ?_⟩
      rw [own makes] at held'
      exact eq_of_result results (answer root) held'
  · intro unexported uses
    have unknown : c₁.exports.get? x = none := by
      rcases found : c₁.exports.get? x with _ | r
      · rfl
      · obtain ⟨a, ha, p, exports⟩ := before.exists_of_exported found
        exact absurd exports (unexported a ha p)
    have failing : .fail (.ofText s!"Variable ${x} has not been exported") ∈ c.transaction.statements := by
      rw [c.statements_transaction]
      refine List.mem_append_left _ (statements ?_)
      rcases uses with ⟨g, given⟩ | ⟨C, field, edge⟩
      · exact (handles.stored given).missing unknown
      · exact (handles.ended edge).missing unknown
    obtain ⟨ss, tt, script⟩ := List.append_of_mem failing
    exact ⟨ss, tt, script, execute_of_fail script⟩

/-- A root field that creates a person and exports the name and the id. -/
def greeting : Call where
  now := 0
  isRoot := true
  selection := ⟨"ann", [.field "name" (some "called") [], .field "id" (some "friend") []]⟩
  mutation := .create "Person" [("name", .str "Ann")]

/-- A root field that creates a person of the exported name who knows the person of the exported id. -/
def namesake : Call where
  now := 1
  isRoot := true
  selection := ⟨"ben", []⟩
  mutation := .create "Person"
    [("name", .var "called"), ("knows", .list [.obj [("connect", .var "friend")]])]

theorem namesake_edgeEnd :
    namesake.mutation.EdgeEnd { acquaintances with now := 1 } (edgeCollection "Person" "knows")
      Field.target "friend" := by
  have found : Model.objectType { acquaintances with now := 1 } "Person" = .ok ⟨"Person", .object,
      [⟨"name", .named "String", []⟩, ⟨"knows", .list (.named "Person"), [⟨"noloops", []⟩]⟩], [], [],
      []⟩ := rfl
  have edge : Model.edgeField? { acquaintances with now := 1 } ⟨"Person", .object,
      [⟨"name", .named "String", []⟩, ⟨"knows", .list (.named "Person"), [⟨"noloops", []⟩]⟩], [], [],
      []⟩ "knows" (.list [.obj [("connect", .var "friend")]]) =
      some ⟨"knows", .list (.named "Person"), [⟨"noloops", []⟩]⟩ := rfl
  have given : Record.get? [("connect", Input.var "friend")] "connect" = some (.var "friend") := by
    rw [Record.get?_cons, if_pos rfl]
  exact .create found (Connects.here (f := ⟨"knows", .list (.named "Person"), [⟨"noloops", []⟩]⟩)
    (List.mem_cons_of_mem _ List.mem_cons_self) edge List.mem_cons_self given)

theorem exports_carried_namesake :
    (∃ t res d d' e, submission? (((Request.start 1 true ["ann", "ben"]).after acquaintances
        [greeting]).call acquaintances namesake).1 = some t ∧ (vacant.execute t).1 = .ok res ∧
      res.get? "ann" = some (.obj d) ∧ res.get? "ben" = some (.obj d') ∧
      Record.get? d' "name" = some (Document.read d "name") ∧
      t.Inserts vacant (edgeCollection "Person" "knows") e ∧
      Record.get? e Field.target = some (Document.read d Field.id)) ∧
    ∃ t, submission? ((Request.start 1 true ["ben"]).call acquaintances namesake).1 = some t ∧
      ∀ db : Database, ∃ e, (db.execute t).1 = .error e := by
  constructor
  · have ran : (submission? (((Request.start 1 true ["ann", "ben"]).after acquaintances
        [greeting]).call acquaintances namesake).1).any (fun t => (vacant.execute t).1.toBool) = true := by
      decide +kernel
    have first : ((Request.start 1 true ["ann", "ben"]).call acquaintances greeting).1.toBool = true := by
      decide +kernel
    have second : (((Request.start 1 true ["ann", "ben"]).call acquaintances greeting).2.call
        acquaintances namesake).1.toBool = true := by
      decide +kernel
    have heard : (Request.start 1 true ["ann", "ben"]).heard acquaintances ([greeting] ++ [namesake]) =
        [greeting] ++ namesake :: [] := by
      rw [List.singleton_append, Request.heard, if_pos first, Request.heard, if_pos second]
      rfl
    obtain ⟨t, submitted, ok⟩ := (Option.any_eq_true _ _).mp ran
    obtain ⟨res, committed⟩ := exists_of_toBool ok
    have called : greeting.Exports "name" "called" := ⟨rfl, rfl, [], List.mem_cons_self⟩
    have friend : greeting.Exports "id" "friend" :=
      ⟨rfl, rfl, [], List.mem_cons_of_mem _ List.mem_cons_self⟩
    obtain ⟨d, ann, stored, _⟩ := (exports_carried acquaintances 1 true ["ann", "ben"] [greeting] namesake
      t submitted [greeting] [] namesake "called" heard).1 greeting List.mem_cons_self "name" called vacant
      res committed
    obtain ⟨d', ben, named⟩ := stored "name" List.mem_cons_self (by decide) rfl (by decide)
    obtain ⟨d₂, ann₂, _, ended⟩ := (exports_carried acquaintances 1 true ["ann", "ben"] [greeting] namesake
      t submitted [greeting] [] namesake "friend" heard).1 greeting List.mem_cons_self "id" friend vacant
      res committed
    cases ann.symm.trans ann₂
    obtain ⟨e, inserts, target, _⟩ := ended _ _ namesake_edgeEnd
    exact ⟨t, res, d, d', e, submitted, committed, ann, ben, named, inserts, target⟩
  · have first : (submission? ((Request.start 1 true ["ben"]).call acquaintances namesake).1).isSome =
        true := by
      decide +kernel
    have taken : ((Request.start 1 true ["ben"]).call acquaintances namesake).1.toBool = true := by
      decide +kernel
    have heard : (Request.start 1 true ["ben"]).heard acquaintances ([] ++ [namesake]) =
        [] ++ namesake :: [] := by
      rw [List.nil_append, Request.heard, if_pos taken]
      rfl
    obtain ⟨t, submitted⟩ := Option.isSome_iff_exists.mp first
    obtain ⟨_, _, _, fails⟩ := (exports_carried acquaintances 1 true ["ben"] [] namesake t submitted [] []
      namesake "called" heard).2 (fun a ha => by cases ha) (.inl ⟨"name", List.mem_cons_self⟩)
    refine ⟨t, submitted, fun db => ?_⟩
    obtain ⟨e, failed, _⟩ := fails db
    exact ⟨e, failed⟩

end DocGraph
