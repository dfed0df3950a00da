import DocGraph.Proofs.Stage

/-! # Directives are checked at the end

Every write leaves a duty to check the directives of a type for a document, and the duty is settled by
assertions that wait for the end of the script. `Attended` says, at any stage, that the directives of a
type are going to be checked for an id with a certain value; no later stage undoes this. When the script
has run to its end, all that was attended to has been found in order on the final store: `Finishes`. -/

namespace DocGraph

variable {m : Model} {D : Demands} {schema : Schema} {c c' : Context} {ds ds' : List Duty}
  {s : Statement} {ss : List Statement} {write : NameSet} {params : Record Json} {db : Database}
  {run run' : Run} {type : String} {v : Json}

/-! ### Directives of fields -/

/-- A field has a use of a directive. -/
def FieldDef.Carries (f : FieldDef) (d : Directive) : Prop :=
  ∃ use ∈ f.directives, Directive.ofUse use = .ok (some d)

theorem FieldDef.Carries.mem_constraints {f : FieldDef} {d : Directive} {rules : List Directive}
    (h : f.Carries d) (legible : f.constraints = .ok rules) : d ∈ rules := by
  obtain ⟨use, hu, means⟩ := h
  unfold FieldDef.constraints at legible
  rcases hf : f.directives.mapM Directive.ofUse with e | found
  · rw [hf] at legible
    cases legible
  · rw [hf] at legible
    cases legible
    exact List.mem_filterMap.mpr ⟨some d, mem_of_mapM_ok hf hu means, rfl⟩

/-! ### What is going to be checked -/

/-- The directives of a type are among what waits for the end, for the document of `id`. -/
def Context.Defers (schema : Schema) (c : Context) (type : String) (id : Ref) (guard? : Option Ref) :
    Prop :=
  ∃ t assertions, schema.typeDef type = .ok t ∧
    (∀ a, a ∈ assertions ↔ IsDirectiveAssertion schema t type id a) ∧
    (∀ f ∈ t.fields, ∃ rules, f.constraints = .ok rules) ∧
    ∀ s ∈ deferral assertions guard?, s ∈ c.deferred

/-- The directives of a type are going to be checked for an id with a value: this is still owed or
waits for the end already, and if there is a guard, it lets the checks pass. -/
structure Attends (schema : Schema) (c : Context) (ds : List Duty) (scope : Scope) (type : String)
    (v : Json) (id : Ref) (guard? : Option Ref) : Prop where
  due : .directives type id guard? ∈ ds ∨ c.Defers schema type id guard?
  value : id.value scope = .ok v
  fixed : c.Fixes id
  guarded : ∀ condition, guard? = some condition →
    c.Fixes condition ∧ ∃ w, condition.value scope = .ok w ∧ w.isTrue = true

/-- The directives of a type are going to be checked for an id that has a certain value. -/
def Attended (schema : Schema) (c : Context) (ds : List Duty) (scope : Scope) (type : String)
    (v : Json) : Prop :=
  ∃ id guard?, Attends schema c ds scope type v id guard?

/-- A duty without a guard. -/
theorem Attended.of_duty {id : Ref} {scope : Scope} (sc : Scoping c ds)
    (duty : .directives type id none ∈ ds) (value : id.value scope = .ok v) :
    Attended schema c ds scope type v :=
  ⟨id, none, Or.inl duty, value, .of_reads (sc.duties _ duty), fun _ h => by cases h⟩

/-- A duty under the guard of a variable that holds a document. -/
theorem Attended.of_guarded_duty {id : Ref} {var : String} {d : Document} (sc : Scoping c ds)
    (duty : .directives type id (some (.doc var)) ∈ ds) (held : run.vars.get? var = some (.obj d))
    (value : id.value (run.scope params) = .ok v) :
    Attended schema c ds (run.scope params) type v := by
  obtain ⟨name, same, removed, reads⟩ := sc.duties _ duty
  cases same
  refine ⟨id, some (.doc var), Or.inl duty, value, fun x hx => ?_, fun condition h => ?_⟩
  · obtain ⟨⟨_, held⟩, bound, rfl⟩ := List.mem_map.mp (reads.var_set hx)
    rcases List.mem_cons.mp bound with same | bound
    · cases same
      exact ⟨_, removed⟩
    · exact ⟨held, bound⟩
  · cases h
    refine ⟨fun x hx => ?_, .obj d, value_doc held, rfl⟩
    cases hx
    exact ⟨_, removed⟩

theorem Emits.mem_deferred (e : Emits m D c ds ss c' ds') (h : s ∈ c.deferred) : s ∈ c'.deferred := by
  cases e with
  | lockRead C =>
      unfold Context.lockRead
      split
      · exact h
      · exact h
  | @forget _ id =>
      obtain ⟨memo, same⟩ := c.forget_eq id
      rw [same]
      exact h
  | defer => exact List.mem_append_left _ h
  | remark | abort | param | name | lockWrite | insert | insertEdge | update | updateEdge | remove
  | removeEdge | dropEdges | assertExists | assertFree | «export» | assertKey | noKey | clearEdges
  | waive => exact h

theorem Context.Defers.step {id : Ref} {guard? : Option Ref} (h : c.Defers schema type id guard?)
    (e : Emits m D c ds ss c' ds') : c'.Defers schema type id guard? := by
  obtain ⟨t, assertions, type_def, directives, legible, waiting⟩ := h
  exact ⟨t, assertions, type_def, directives, legible, fun s hs => e.mem_deferred (waiting s hs)⟩

/-- Where directives are checked, a duty stays until it is settled. -/
theorem Emits.duty_step {id : Ref} {guard? : Option Ref} (e : Emits m D c ds ss c' ds')
    (checking : m.settings.skipDirectives = false) (h : .directives type id guard? ∈ ds) :
    .directives type id guard? ∈ ds' ∨ c'.Defers m.schema type id guard? := by
  cases e with
  | remark | abort | param | lockWrite | lockRead | dropEdges | assertExists | assertFree
  | «export» => exact Or.inl h
  | name | assertKey | noKey | clearEdges | forget => exact Or.inl (by simpa using h)
  | insert =>
      exact Or.inl (List.mem_cons_of_mem _ (List.mem_cons_of_mem _ (by simpa using h)))
  | insertEdge => exact Or.inl (List.mem_cons_of_mem _ (by simpa using h))
  | update | updateEdge | remove | removeEdge => simp at h
  | @defer _ type' id' guard' t assertions type_def directives locked legible =>
      rcases List.mem_cons.mp h with same | h
      · cases same
        exact Or.inr ⟨t, assertions, type_def, directives, legible,
          fun s hs => List.mem_append_right _ hs⟩
      · exact Or.inl h
  | waive skipped =>
      rw [checking] at skipped
      cases skipped

/-- What is attended to stays so at the next stage. -/
theorem Attended.step (h : Attended m.schema c ds (run.scope params) type v) (sc : Scoping c ds)
    (e : Emits m D c ds ss c' ds') (checking : m.settings.skipDirectives = false)
    (p : PerformsAll write params ss run run') :
    Attended m.schema c' ds' (run'.scope params) type v := by
  obtain ⟨id, guard?, due, value, fixed, guarded⟩ := h
  have anew := e.setsAnew sc
  refine ⟨id, guard?, ?_, (fixed.value_eq anew p).trans value, fixed.mono e.extends,
    fun condition hc => ?_⟩
  · rcases due with duty | defers
    · exact e.duty_step checking duty
    · exact Or.inr (defers.step e)
  · obtain ⟨fixes, w, hw, yes⟩ := guarded condition hc
    exact ⟨fixes.mono e.extends, w, (fixes.value_eq anew p).trans hw, yes⟩

/-- An answer changes nothing that is attended to. -/
theorem Attended.answer {name var : String} (h : Attended schema c [] (run.scope params) type v)
    (vars : run'.vars = run.vars) :
    Attended schema (c.answer name var) [] (run'.scope params) type v := by
  obtain ⟨id, guard?, due, value, fixed, guarded⟩ := h
  have ext := c.extends_add (answerStatements name var)
  have same : run'.scope params = run.scope params := congrArg (Scope.mk params) vars
  rw [same]
  refine ⟨id, guard?, due, value, fixed.mono ext, fun condition hc => ?_⟩
  obtain ⟨fixes, holds⟩ := guarded condition hc
  exact ⟨fixes.mono ext, holds⟩

/-! ### What has been checked -/

/-- The directives on the fields of a type have been found in order, for an id with a value. -/
def Store.Upholds (schema : Schema) (store : Store) (type : String) (v : Json) : Prop :=
  ∃ t scope id, schema.typeDef type = .ok t ∧ id.value scope = .ok v ∧
    ∀ f ∈ t.fields, ∀ d, f.Carries d → ∀ check message,
      d.check? schema type f id = .ok (some (check, message)) →
        check.violated store scope = .ok false

/-- A statement that only looks at the store. -/
def Statement.IsQuiet : Statement → Prop
  | .comment _ => True
  | .assert _ _ => True
  | _ => False

/-- Statements that only look leave the run as it is. -/
theorem PerformsAll.of_quiet (quiet : ∀ b ∈ partsOf ss, b.IsQuiet)
    (p : PerformsAll write params ss run run') :
    run' = run ∧ ∀ s ∈ ss, Performs write params s run run := by
  have still : ∀ {tt : List Statement} {r : Run}, (∀ b ∈ partsOf tt, b.IsQuiet) →
      PerformsAll write params tt run r → r = run := by
    intro tt r quiet p
    refine p.invariant (I := fun r => r = run) tt (fun b hb x y q hx => ?_) rfl
    have := quiet b hb
    cases q with
    | comment | assert => exact hx
    | insert | update | remove | miss | removeEdges | bind | setResult => exact this.elim
    | pass | enter => exact absurd rfl (not_guarded_of_mem_partsOf tt hb _ _)
  refine ⟨still quiet p, fun s hs => ?_⟩
  obtain ⟨before, after, rfl⟩ := List.append_of_mem hs
  rw [partsOf_append, partsOf] at quiet
  obtain ⟨mid, p₁, p₂⟩ := performsAll_append.mp p
  obtain rfl := still (fun b hb => quiet b (List.mem_append_left _ hb)) p₁
  cases p₂ with
  | cons first others =>
      have same := still (fun b hb => quiet b (List.mem_append_right _ (List.mem_append_left _
        (by simpa [partsOf] using hb)))) (performsAll_singleton.mpr first)
      exact same ▸ first

theorem quiet_deferral {t : TypeDef} {id : Ref} {guard? : Option Ref} {assertions : List Statement}
    (directives : ∀ a, a ∈ assertions ↔ IsDirectiveAssertion schema t type id a) :
    ∀ b ∈ partsOf (deferral assertions guard?), b.IsQuiet := by
  intro b hb
  rw [partsOf_deferral guard? fun a ha => ((directives a).mp ha).parts_eq] at hb
  obtain ⟨_, _, _, _, _, _, _, _, _, rfl⟩ := (directives b).mp hb
  trivial

/-- Only assertions wait for the end. -/
theorem Emits.quiet (e : Emits m D c ds ss c' ds') (h : ∀ b ∈ partsOf c.deferred, b.IsQuiet) :
    ∀ b ∈ partsOf c'.deferred, b.IsQuiet := by
  cases e with
  | lockRead C =>
      unfold Context.lockRead
      split
      · exact h
      · exact h
  | @forget _ id =>
      obtain ⟨memo, same⟩ := c.forget_eq id
      rw [same]
      exact h
  | defer type_def directives locked legible =>
      intro b hb
      have hb : b ∈ partsOf (c.deferred ++ _) := hb
      rw [partsOf_append] at hb
      rcases List.mem_append.mp hb with hb | hb
      · exact h b hb
      · exact quiet_deferral directives b hb
  | remark | abort | param | name | lockWrite | insert | insertEdge | update | updateEdge | remove
  | removeEdge | dropEdges | assertExists | assertFree | «export» | assertKey | noKey | clearEdges
  | waive => exact h

theorem Course.quiet {number : Nat} {remembers : Bool} {answers : List (String × String)}
    (course : Course m D number remembers c ss answers) :
    ∀ b ∈ partsOf (finale c.deferred), b.IsQuiet := by
  have deferred : ∀ b ∈ partsOf c.deferred, b.IsQuiet :=
    course.invariant (I := fun c _ => ∀ b ∈ partsOf c.deferred, b.IsQuiet)
      (fun b hb => by cases hb) (fun e h => e.quiet h) fun _ _ h => h
  intro b hb
  obtain ⟨s, hs, hb⟩ := mem_partsOf.mp hb
  rcases eq_or_mem_of_mem_finale hs with rfl | hs
  · rw [List.mem_singleton.mp hb]
    trivial
  · exact deferred b (mem_partsOf.mpr ⟨s, hs, hb⟩)

/-- The assertions that wait, under a guard that lets them pass or under none, have all been made. -/
theorem performs_of_mem_deferral {guard? : Option Ref} {a : Statement}
    (quiet : ∀ b ∈ partsOf (deferral ss guard?), b.IsQuiet)
    (guarded : ∀ condition, guard? = some condition →
      ∃ w, condition.value (run.scope params) = .ok w ∧ w.isTrue = true)
    (performed : ∀ s ∈ deferral ss guard?, Performs write params s run run) (ha : a ∈ ss) :
    Performs write params a run run := by
  cases guard? with
  | none => exact performed a ha
  | some condition =>
      have some_of : ss.isEmpty = false := by
        cases ss with
        | nil => cases ha
        | cons => rfl
      simp only [deferral, some_of] at quiet performed
      obtain ⟨w, hw, yes⟩ := guarded condition rfl
      cases performed _ List.mem_cons_self with
      | pass value no =>
          cases hw.symm.trans value
          rw [yes] at no
          cases no
      | enter _ _ inner =>
          refine (inner.of_quiet fun b hb => quiet b ?_).2 a ha
          exact List.mem_append_left _ hb

theorem Attended.upholds (h : Attended schema c [] (run.scope params) type v)
    (performed : ∀ s ∈ c.deferred, Performs write params s run run) :
    run.store.Upholds schema type v := by
  obtain ⟨id, guard?, due, value, _, guarded⟩ := h
  obtain ⟨t, assertions, type_def, directives, legible, waiting⟩ :=
    due.resolve_left fun owed => by cases owed
  refine ⟨t, run.scope params, id, type_def, value, fun f hf d carried check message hc => ?_⟩
  obtain ⟨rules, read⟩ := legible f hf
  have asserted : .assert check (.ofText message) ∈ assertions := (directives _).mpr
    ⟨f, hf, rules, read, d, carried.mem_constraints read, check, message, hc, rfl⟩
  have made := performs_of_mem_deferral (quiet_deferral directives)
    (fun condition hc => (guarded condition hc).2) (fun s hs => performed s (waiting s hs)) asserted
  cases made with
  | assert clean => exact clean

/-- The statements of a context have run to their end, and all that was attended to has been found in
order then. -/
structure Finishes (schema : Schema) (c : Context) (db : Database) (run : Run) : Prop where
  ran : PerformsAll c.write c.params c.statements (Run.start db) run
  upholds : ∀ {type v}, Attended schema c [] (run.scope c.params) type v →
    run.store.Upholds schema type v

/-- A transaction leaves the store alone, or its context has finished. -/
theorem Course.same_or_finishes {number : Nat} {remembers : Bool} {answers : List (String × String)}
    (course : Course m D number remembers c ss answers) (db : Database) :
    ((db.execute c.transaction).2.store = db.store ∧
        db.lastKey ≤ (db.execute c.transaction).2.lastKey) ∨
      ∃ run, Finishes m.schema c db run ∧
        (db.execute c.transaction).2 = ⟨run.store, run.lastKey⟩ := by
  have grows := lastKey_le_execute db c.transaction
  rw [execute_eq] at grows ⊢
  rcases ho : outcome (Run.performAll c.transaction.write c.transaction.params
    c.transaction.statements) (Run.start db) with ⟨e | _, final⟩
  · rw [ho] at grows
    exact Or.inl ⟨rfl, grows⟩
  · have p := Run.performsAll_of_ok _ ho
    rw [c.statements_transaction] at p
    obtain ⟨run, p₁, p₂⟩ := performsAll_append.mp p
    obtain ⟨rfl, performed⟩ := p₂.of_quiet course.quiet
    have made : ∀ s ∈ c.deferred, Performs c.write c.params s final final := by
      intro s hs
      refine performed s ?_
      unfold finale
      split
      · rename_i empty
        rw [List.isEmpty_iff.mp empty] at hs
        cases hs
      · exact List.mem_cons_of_mem _ hs
    exact Or.inr ⟨final, ⟨p₁, fun h => h.upholds made⟩, rfl⟩

end DocGraph
