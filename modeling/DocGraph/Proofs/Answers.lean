import DocGraph.Proofs.WellScoped

/-! # Results of root fields

A script sets the result of each root field outside of all guards, to a document variable that is set
before and never again. So when the script has run, the results are these variables: see
`Course.results`. -/

namespace DocGraph

variable {m : Model} {D : Demands} {c c' : Context} {ds ds' : List Duty} {s : Statement}
  {ss : List Statement} {write : NameSet} {params : Record Json} {run run' : Run}
  {answers more : List (String × String)} {Γ : List (String × Holding)}

/-! ### Statements that set results -/

/-- The response name and the document variable of a statement that sets a result. -/
def Statement.response? : Statement → Option (String × String)
  | .setResult name (.doc var) => some (name, var)
  | _ => none

/-- The results that statements set outside of guards, in order. -/
def responses (ss : List Statement) : List (String × String) :=
  ss.filterMap Statement.response?

def Statement.setsResult : Statement → Bool
  | .setResult _ _ => true
  | _ => false

/-- Whether a statement sets a result, under its guard or not. -/
def Statement.responds (s : Statement) : Bool :=
  s.parts.any Statement.setsResult

theorem responds_guarded {condition : Ref} (h : ∀ s ∈ ss, s.responds = false) :
    (Statement.guarded condition ss).responds = false := by
  refine List.any_eq_false.mpr fun b hb => ?_
  obtain ⟨s, hs, hb⟩ := mem_partsOf.mp hb
  exact List.any_eq_false.mp (h s hs) b hb

theorem response?_eq_none (h : s.responds = false) : s.response? = none := by
  cases s with
  | setResult => cases h
  | comment | insert | update | remove | removeEdges | bind | guarded | assert | fail => rfl

theorem Performs.result_eq (p : Performs write params s run run') (quiet : s.responds = false) :
    run'.result = run.result := by
  refine p.invariant (I := fun r => r.result = run.result) s (fun b hb r r' q hr => ?_) rfl
  have plain := s.not_guarded_of_mem_parts hb
  have other := List.any_eq_false.mp quiet b hb
  cases q with
  | setResult => exact absurd rfl other
  | comment | insert | update | remove | miss | removeEdges | bind | assert => exact hr
  | pass | enter => exact absurd rfl (plain _ _)

/-! ### Results of a run -/

/-- The results of a run are the variables of the answers. -/
structure Answered (answers : List (String × String)) (Γ : List (String × Holding)) (run : Run) :
    Prop where
  bound : ∀ a ∈ answers, a.2 ∈ Γ.map Prod.fst
  names : run.result.names = answers.map Prod.fst
  values : ∀ a ∈ answers, ∃ v, run.vars.get? a.2 = some v ∧ run.result.get? a.1 = some v

theorem Answered.start (db : Database) : Answered [] [] (Run.start db) where
  bound _ h := nomatch h
  names := rfl
  values _ h := nomatch h

/-- A statement that sets no result keeps them, since it sets no variable again. -/
theorem Answered.keep (h : Answered answers Γ run) (p : Performs write params s run run')
    (placed : Scoped params Γ s) (fresh : ∀ b, s.binding? = some b → b.1 ∉ Γ.map Prod.fst)
    (quiet : s.responds = false) : Answered answers (Γ ++ s.binding?.toList) run' := by
  have hr := p.result_eq quiet
  have hv := p.vars_eq placed
  refine ⟨fun a ha => ?_, by rw [hr]; exact h.names, fun a ha => ?_⟩
  · rw [List.map_append]
    exact List.mem_append_left _ (h.bound a ha)
  · obtain ⟨v, var, res⟩ := h.values a ha
    refine ⟨v, ?_, by rw [hr]; exact res⟩
    rcases hb : s.binding? with _ | b
    · rw [hb] at hv
      rw [hv]
      exact var
    · rw [hb] at hv
      obtain ⟨w, _, hv⟩ := hv
      have hne : a.2 ≠ b.1 := fun e => fresh b hb (e ▸ h.bound a ha)
      rw [hv, Record.get?_insert, if_neg hne]
      exact var

/-- A statement that sets a new result adds it. -/
theorem Answered.respond {name var : String} (h : Answered answers Γ run)
    (p : Performs write params (.setResult name (.doc var)) run run')
    (placed : Scoped params Γ (.setResult name (.doc var))) (new : name ∉ answers.map Prod.fst) :
    Answered (answers ++ [(name, var)]) Γ run' := by
  obtain ⟨held, set⟩ : ∃ held, (var, held) ∈ Γ := by
    cases placed with
    | setResult reads =>
        cases reads with
        | doc set => exact ⟨_, set⟩
  cases p with
  | @setResult _ _ _ v value =>
      have hv : run.vars.get? var = some v := by
        rcases hw : run.vars.get? var with _ | w
        · simp [Ref.value, Scope.var, Run.scope, hw] at value
        · rw [value_doc hw] at value
          cases value
          rfl
      refine ⟨fun a ha => ?_, ?_, fun a ha => ?_⟩
      · rcases List.mem_append.mp ha with ha | ha
        · exact h.bound a ha
        · rw [List.mem_singleton.mp ha]
          exact List.mem_map_of_mem set
      · rw [Record.names_insert, if_neg (by rw [h.names]; exact new), h.names, List.map_append]
        rfl
      · rcases List.mem_append.mp ha with ha | ha
        · obtain ⟨w, hvar, hres⟩ := h.values a ha
          have hne : a.1 ≠ name := fun e => new (e ▸ List.mem_map_of_mem ha)
          exact ⟨w, hvar, by rw [Record.get?_insert, if_neg hne]; exact hres⟩
        · rw [List.mem_singleton.mp ha]
          exact ⟨v, hv, by rw [Record.get?_insert, if_pos rfl]⟩

/-- Running a script adds the results it sets, if each is set once. -/
theorem Answered.performAll (h : Answered answers Γ run)
    (p : PerformsAll write params ss run run') (placed : ScopedAll params Γ ss)
    (quiet : ∀ s ∈ ss, s.response? = none → s.responds = false)
    (nodup : ((answers ++ responses ss).map Prod.fst).Nodup) :
    Answered (answers ++ responses ss) (Γ ++ bindings ss) run' := by
  induction ss generalizing answers Γ run with
  | nil =>
      cases p
      simpa [responses] using h
  | cons s ss ih =>
      obtain ⟨hs, fresh, hss⟩ := placed
      have hb : Γ ++ bindings (s :: ss) = Γ ++ s.binding?.toList ++ bindings ss := by
        cases hs : s.binding? <;> simp [bindings, hs]
      have ha : answers ++ responses (s :: ss) = answers ++ s.response?.toList ++ responses ss := by
        cases hs : s.response? <;> simp [responses, hs]
      rw [ha] at nodup
      rw [ha, hb]
      cases p with
      | @cons _ _ _ run₁ _ first others =>
          refine ih ?_ others hss (fun t ht => quiet t (List.mem_cons_of_mem s ht)) nodup
          rcases hr : s.response? with _ | a
          · rw [Option.toList_none, List.append_nil]
            exact h.keep first hs fresh (quiet s List.mem_cons_self hr)
          · have new : a.1 ∉ answers.map Prod.fst := by
              rw [hr, Option.toList_some, List.map_append, List.map_append] at nodup
              have hn := (List.nodup_append.mp (List.nodup_append.mp nodup).1).2.2
              exact fun hm => hn _ hm _ List.mem_cons_self rfl
            unfold Statement.response? at hr
            split at hr
            · cases hr
              rw [Option.toList_some]
              simpa [Statement.binding?] using h.respond first hs new
            · cases hr

/-! ### Results of a transaction -/

/-- The statements of a context set the results of the answers and no others. -/
structure Context.Responds (c : Context) (answers : List (String × String)) : Prop where
  statements : responses c.statements = answers
  quiet : ∀ s ∈ c.statements, s.response? = none → s.responds = false
  deferred : ∀ s ∈ c.deferred, s.responds = false

namespace Context.Responds

theorem empty (number : Nat) (remembers : Bool) : (Context.empty number remembers).Responds [] where
  statements := rfl
  quiet _ h := nomatch h
  deferred _ h := nomatch h

/-- Statements that set results of their own, or none. -/
theorem say (h : c.Responds answers) (quiet : ∀ s ∈ ss, s.response? = none → s.responds = false)
    (hs : responses ss = more) : (c.add ss).Responds (answers ++ more) where
  statements := by
    show responses (c.statements ++ ss) = _
    rw [responses, List.filterMap_append, ← hs, ← h.statements]
    rfl
  quiet s hm := by
    rcases List.mem_append.mp hm with hm | hm
    · exact h.quiet s hm
    · exact quiet s hm
  deferred := h.deferred

theorem say_silent (h : c.Responds answers) (silent : ∀ s ∈ ss, s.responds = false) :
    (c.add ss).Responds answers := by
  have hr : responses ss = [] :=
    List.filterMap_eq_nil_iff.mpr fun s hs => response?_eq_none (silent s hs)
  have := h.say (fun s hs _ => silent s hs) hr
  rwa [List.append_nil] at this

theorem say_one (h : c.Responds answers) (silent : s.responds = false) :
    (c.add [s]).Responds answers :=
  h.say_silent fun _ ht => List.mem_singleton.mp ht ▸ silent

end Context.Responds

/-- No statement of a mutation sets a result. -/
theorem Emits.responds (e : Emits m D c ds ss c' ds') (h : c.Responds answers) :
    c'.Responds answers := by
  cases e with
  | remark | abort | insert | insertEdge | update | updateEdge | remove | removeEdge | dropEdges
  | assertFree | assertKey => exact h.say_one rfl
  | param | name | lockWrite | noKey | waive => exact ⟨h.statements, h.quiet, h.deferred⟩
  | lockRead C =>
      unfold Context.lockRead
      split
      · exact h
      · exact ⟨h.statements, h.quiet, h.deferred⟩
  | @assertExists _ id type label collections given possible locked =>
      have hm : (c.memoize (Synthesis.idKey c id, type)).Responds answers :=
        ⟨h.statements, h.quiet, h.deferred⟩
      refine hm.say_silent fun s hs => ?_
      simp only [existsCheck, List.mem_cons, List.not_mem_nil, or_false] at hs
      rcases hs with rfl | rfl
      · rfl
      · rfl
  | @«export» _ var field name legal free bound =>
      have hx : (c.addExport name).Responds answers := ⟨h.statements, h.quiet, h.deferred⟩
      exact hx.say_one rfl
  | clearEdges =>
      refine h.say_one (responds_guarded fun s hs => ?_)
      obtain ⟨C, _, rfl⟩ := List.mem_map.mp hs
      rfl
  | @defer _ type id condition t assertions type_def directives locked =>
      have ha : ∀ a ∈ assertions, a.responds = false := by
        intro a ha
        obtain ⟨f, _, rules, _, d, _, check, message, _, rfl⟩ := (directives a).mp ha
        rfl
      refine ⟨h.statements, h.quiet, fun s hs => ?_⟩
      rcases List.mem_append.mp hs with hs | hs
      · exact h.deferred s hs
      · cases condition with
        | none => exact ha s hs
        | some condition =>
            simp only [deferral] at hs
            split at hs
            · cases hs
            · rw [List.mem_singleton.mp hs]
              exact responds_guarded ha
  | @forget _ id =>
      obtain ⟨memo, hc⟩ := c.forget_eq id
      rw [hc]
      exact ⟨h.statements, h.quiet, h.deferred⟩

variable {number : Nat} {remembers : Bool}

theorem Course.responds (course : Course m D number remembers c ss answers) : c.Responds answers := by
  induction course with
  | start => exact .empty number remembers
  | @mutate _ _ _ _ answers now before trace ih =>
      exact trace.invariant (I := fun c _ => c.Responds answers) (fun e h => e.responds h) ih
  | answer name var before document bound ih =>
      refine ih.say (fun s hs none => ?_) rfl
      simp only [answerStatements, List.mem_cons, List.not_mem_nil, or_false] at hs
      rcases hs with rfl | rfl
      · rfl
      · cases none

/-- A transaction that goes through answers each root field with the document variable of its own. -/
theorem Course.results (course : Course m D number remembers c ss answers)
    (nodup : (answers.map Prod.fst).Nodup) {db : Database} {res : Record Json}
    (h : (db.execute c.transaction).1 = .ok res) :
    ∃ run, outcome (Run.performAll c.transaction.write c.transaction.params c.transaction.statements)
        (Run.start db) = (.ok ⟨⟩, run) ∧
      res.names = answers.map Prod.fst ∧
      ∀ a ∈ answers, ∃ v, run.vars.get? a.2 = some v ∧ res.get? a.1 = some v := by
  have hr := course.responds
  have hw : responses c.transaction.statements = answers ∧
      ∀ s ∈ c.transaction.statements, s.response? = none → s.responds = false := by
    have silent : ∀ s ∈ finale c.deferred, s.responds = false := by
      intro s hs
      rcases eq_or_mem_of_mem_finale hs with rfl | hs
      · rfl
      · exact hr.deferred s hs
    have all := hr.say_silent silent
    rw [c.statements_transaction]
    exact ⟨all.statements, all.quiet⟩
  rw [execute_eq] at h
  rcases ho : outcome (Run.performAll c.transaction.write c.transaction.params
    c.transaction.statements) (Run.start db) with ⟨e | _, run⟩
  · rw [ho] at h
    cases h
  · rw [ho] at h
    cases h
    have done := (Answered.start db).performAll (Run.performsAll_of_ok _ ho)
      course.scoping.transaction.1 hw.2 (by rw [hw.1]; exact nodup)
    rw [hw.1] at done
    exact ⟨run, rfl, done.names, done.values⟩

end DocGraph
