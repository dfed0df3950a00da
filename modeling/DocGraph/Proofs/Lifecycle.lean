import DocGraph.Proofs.Answers

/-! # The life of a request

A request takes calls of fields in any order, also while an engine is running what it has handed over.
`Evolves` is all that can happen to it, event by event, with an engine that may answer anything. A
request is always in one of four phases: it collects the statements of its root fields, it has handed
them over, it has failed, or it has the engine's answer (`Phase`). `Happens.phase` says how events lead
from phase to phase, and `evolves_lifecycle` is what this comes to for every history. -/

namespace DocGraph

/-! ### Events -/

/-- What happens to a request. -/
inductive Event where
  /-- A field calls the request as it is then, and gets a reply. -/
  | called (before : Request) (call : Call) (reply : Except Error Contribution)
  /-- The engine has run a transaction. -/
  | executed (transaction : Transaction) (result : Outcome)

namespace Event

/-- The transaction that a reply hands to the engine. -/
def submission? : Event → Option Transaction
  | called _ _ reply => DocGraph.submission? reply
  | executed _ _ => none

/-- What the engine has made of a transaction. -/
def execution? : Event → Option (Transaction × Outcome)
  | called _ _ _ => none
  | executed t o => some (t, o)

/-- Whether the root field of a name has added its statements. -/
def contributes (name : String) : Event → Bool
  | called before call (.ok _) => before.outcome.isNone && call.isRoot && call.name == name
  | _ => false

end Event

/-- The transactions handed to the engine. -/
def submissions (h : List Event) : List Transaction :=
  h.filterMap Event.submission?

/-- The transactions that the engine has run. -/
def executions (h : List Event) : List (Transaction × Outcome) :=
  h.filterMap Event.execution?

/-- The statements of a call are added to a context: there is no outcome, the context has not been
handed over, and a root field is waited for. -/
structure Request.Reaches (r : Request) (call : Call) (c : Context) : Prop where
  running : r.outcome = none
  context : r.context = some c
  expected : call.isRoot = true → call.name ∈ r.pending

/-- A mutation cannot be put into statements. -/
inductive Event.Fails (m : Model) : Event → Error → Prop
  | mk {before : Request} {call : Call} {reply : Except Error Contribution} {c c' : Context} {e : Error}
      (reaches : before.Reaches call c) (synthesis : outcome (call.synthesis m) c = (.error e, c')) :
      Fails m (.called before call reply) e

/-- The mutation of a root field is put into statements; the variable holds its document. -/
inductive Event.Binds (m : Model) : Event → String → String → Prop
  | mk {before : Request} {call : Call} {reply : Except Error Contribution} {c c' : Context}
      {var : String} (root : call.isRoot = true) (reaches : before.Reaches call c)
      (synthesis : outcome (call.synthesis m) c = (.ok var, c')) :
      Binds m (.called before call reply) call.name var

/-! ### Histories -/

/-- A request with the transactions that an engine is running for it. -/
structure Scene where
  request : Request
  running : List Transaction

/-- One event. A call is possible at any time, and the engine may finish with anything it is running. -/
inductive Happens (m : Model) : Scene → Event → Scene → Prop
  | call (sc : Scene) (call : Call) :
      Happens m sc (.called sc.request call (sc.request.call m call).1)
        ⟨(sc.request.call m call).2, sc.running ++ (submission? (sc.request.call m call).1).toList⟩
  | execute (r : Request) (before after : List Transaction) (t : Transaction) (o : Outcome) :
      Happens m ⟨r, before ++ t :: after⟩ (.executed t o) ⟨r.finish o, before ++ after⟩

/-- A history of events. -/
inductive Evolves (m : Model) : Scene → List Event → Scene → Prop
  | refl {sc : Scene} : Evolves m sc [] sc
  | step {sc sc₁ sc₂ : Scene} {ev : Event} {h : List Event} (first : Happens m sc ev sc₁)
      (others : Evolves m sc₁ h sc₂) : Evolves m sc (ev :: h) sc₂

variable {m : Model} {names : List String} {h : List Event} {ev : Event} {sc sc' : Scene}
  {c c' : Context} {answers : List (String × String)}

theorem Evolves.split {h₁ h₂ : List Event} (e : Evolves m sc (h₁ ++ h₂) sc') :
    ∃ mid, Evolves m sc h₁ mid ∧ Evolves m mid h₂ sc' := by
  induction h₁ generalizing sc with
  | nil => exact ⟨sc, .refl, e⟩
  | cons ev h₁ ih =>
      cases e with
      | step first others =>
          obtain ⟨mid, e₁, e₂⟩ := ih others
          exact ⟨mid, .step first e₁, e₂⟩

/-- An outcome stays. -/
theorem Happens.outcome_eq {o : Outcome} (e : Happens m sc ev sc') (ho : sc.request.outcome = some o) :
    sc'.request.outcome = some o := by
  cases e with
  | call sc call =>
      have turn := call_turn m sc.request call
      show (sc.request.call m call).2.outcome = some o
      generalize (sc.request.call m call).1 = reply at turn
      generalize (sc.request.call m call).2 = r' at turn ⊢
      cases turn with
      | late => exact ho
      | outstanding running | refused running | failed running | below running | waits running
      | submits running | closed running => exact nomatch running.symm.trans ho
  | execute r before after t o' =>
      have hr : r.outcome = some o := ho
      show (r.finish o').outcome = some o
      unfold Request.finish
      rw [hr]
      exact hr

theorem Evolves.outcome_eq {o : Outcome} (e : Evolves m sc h sc') (ho : sc.request.outcome = some o) :
    sc'.request.outcome = some o := by
  induction e with
  | refl => exact ho
  | step first _ ih => exact ih (first.outcome_eq ho)

/-! ### Phases -/

/-- What a history says of failures, of the transactions handed over and of those that were run. -/
structure Log (m : Model) (h : List Event) (fault? : Option Error) (ts : List Transaction)
    (runs : List (Transaction × Outcome)) : Prop where
  faults : ∀ ev ∈ h, ∀ e, ev.Fails m e → fault? = some e
  submitted : submissions h = ts
  executed : executions h = runs

/-- What the root fields have contributed: the context is on course with an answer for each, to a
variable of its own mutation. -/
structure Collects (m : Model) (names : List String) (h : List Event) (c : Context)
    (answers : List (String × String)) : Prop where
  course : ∃ number remembers ss, Course m .any number remembers c ss answers
  named : ∀ a ∈ answers, a.1 ∈ names
  nodup : (answers.map Prod.fst).Nodup
  counts : ∀ name, h.countP (Event.contributes name) = (answers.map Prod.fst).count name
  own : ∀ a ∈ answers, ∃ ev ∈ h, ev.Binds m a.1 a.2

/-- The phases of a request. -/
inductive Phase (m : Model) (names : List String) (h : List Event) : Scene → Prop
  | collecting {number : Nat} {c : Context} {pending : List String} {answers : List (String × String)}
      (collects : Collects m names h c answers)
      (expected : ∀ n, n ∈ pending ↔ n ∈ names ∧ n ∉ answers.map Prod.fst) (log : Log m h none [] []) :
      Phase m names h ⟨⟨number, some c, pending, none⟩, []⟩
  | submitted {number : Nat} {c : Context} {answers : List (String × String)}
      (collects : Collects m names h c answers) (all : ∀ n ∈ names, n ∈ answers.map Prod.fst)
      (log : Log m h none [c.transaction] []) :
      Phase m names h ⟨⟨number, none, [], none⟩, [c.transaction]⟩
  | failed {number : Nat} {e : Error} (log : Log m h (some e) [] []) :
      Phase m names h ⟨⟨number, none, [], some (.error e)⟩, []⟩
  | executed {number : Nat} {c : Context} {answers : List (String × String)} {o : Outcome}
      (collects : Collects m names h c answers) (all : ∀ n ∈ names, n ∈ answers.map Prod.fst)
      (log : Log m h none [c.transaction] [(c.transaction, o)]) :
      Phase m names h ⟨⟨number, none, [], some o⟩, []⟩

theorem Phase.start (m : Model) (number : Nat) (remembers : Bool) (names : List String) :
    Phase m names [] ⟨Request.start number remembers names, []⟩ := by
  have collects : Collects m names [] (Context.empty number remembers) [] :=
    ⟨⟨number, remembers, [], .start⟩, fun a ha => (nomatch ha), List.nodup_nil, fun name => rfl,
      fun a ha => nomatch ha⟩
  refine .collecting collects (fun n => ⟨fun hn => ⟨hn, List.not_mem_nil⟩, And.left⟩) ?_
  exact ⟨fun ev hev => (nomatch hev), rfl, rfl⟩

theorem Log.add {fault? fault?' : Option Error} {ts : List Transaction}
    {runs : List (Transaction × Outcome)} (log : Log m h fault? ts runs)
    (kept : ∀ e, fault? = some e → fault?' = some e) (fault : ∀ e, ev.Fails m e → fault?' = some e) :
    Log m (h ++ [ev]) fault?' (ts ++ ev.submission?.toList) (runs ++ ev.execution?.toList) where
  faults ev' hev e he := by
    rcases List.mem_append.mp hev with hev | hev
    · exact kept e (log.faults ev' hev e he)
    · rw [List.mem_singleton.mp hev] at he
      exact fault e he
  submitted := by
    rw [submissions, List.filterMap_append, ← log.submitted]
    cases hs : ev.submission? <;> simp [submissions, hs]
  executed := by
    rw [executions, List.filterMap_append, ← log.executed]
    cases hs : ev.execution? <;> simp [executions, hs]

namespace Collects

/-- An event that contributes nothing. -/
theorem keep (k : Collects m names h c answers) (none : ∀ name, ev.contributes name = false) :
    Collects m names (h ++ [ev]) c answers where
  course := k.course
  named := k.named
  nodup := k.nodup
  counts name := by
    rw [List.countP_append, k.counts, List.countP_singleton, none name]
    rfl
  own a ha := by
    obtain ⟨ev', hev, binds⟩ := k.own a ha
    exact ⟨ev', List.mem_append_left _ hev, binds⟩

/-- A field below the root adds its statements. -/
theorem below {call : Call} {var : String} (k : Collects m names h c answers)
    (synthesis : outcome (call.synthesis m) c = (.ok var, c')) : Collects m names h c' answers := by
  obtain ⟨number, remembers, ss, course⟩ := k.course
  obtain ⟨tt, course', -, -⟩ := course.synthesis_ok (Mutation.meets_any _ _) synthesis
  exact ⟨⟨number, remembers, _, course'⟩, k.named, k.nodup, k.counts, k.own⟩

/-- A root field that is waited for adds its statements and its answer. -/
theorem answer {call : Call} {var : String} (k : Collects m names h c answers)
    (named : call.name ∈ names) (new : call.name ∉ answers.map Prod.fst)
    (synthesis : outcome (call.synthesis m) c = (.ok var, c'))
    (contributes : ∀ name, ev.contributes name = (call.name == name))
    (binds : ev.Binds m call.name var) :
    Collects m names (h ++ [ev]) (c'.answer call.name var) (answers ++ [(call.name, var)]) := by
  obtain ⟨number, remembers, ss, course⟩ := k.course
  obtain ⟨tt, course', ⟨held, document, bound⟩, -⟩ :=
    course.synthesis_ok (Mutation.meets_any _ _) synthesis
  refine ⟨⟨number, remembers, _, course'.answer call.name var document bound⟩, ?_, ?_, ?_, ?_⟩
  · intro a ha
    rcases List.mem_append.mp ha with ha | ha
    · exact k.named a ha
    · rw [List.mem_singleton.mp ha]
      exact named
  · rw [List.map_append, List.nodup_append]
    refine ⟨k.nodup, by simp, fun x hx y hy e => ?_⟩
    rw [e, List.mem_singleton.mp hy] at hx
    exact new hx
  · intro name
    rw [List.countP_append, k.counts, List.countP_singleton, contributes, List.map_append,
      List.count_append, List.map_singleton, List.count_singleton]
  · intro a ha
    rcases List.mem_append.mp ha with ha | ha
    · obtain ⟨ev', hev, b⟩ := k.own a ha
      exact ⟨ev', List.mem_append_left _ hev, b⟩
    · rw [List.mem_singleton.mp ha]
      exact ⟨ev, List.mem_append_right _ (List.mem_singleton.mpr rfl), binds⟩

end Collects

/-- An event that neither contributes nor fails nor involves the engine. -/
structure Event.Idle (m : Model) (ev : Event) : Prop where
  silent : ∀ name, ev.contributes name = false
  sound : ∀ e, ¬ ev.Fails m e
  submission : ev.submission? = none
  execution : ev.execution? = none

theorem Phase.idle (p : Phase m names h sc) (idle : ev.Idle m) : Phase m names (h ++ [ev]) sc := by
  have log : ∀ {fault? : Option Error} {ts : List Transaction} {runs : List (Transaction × Outcome)},
      Log m h fault? ts runs → Log m (h ++ [ev]) fault? ts runs := by
    intro fault? ts runs l
    have := @Log.add m h ev fault? fault? ts runs l (fun _ he => he) fun e he => absurd he (idle.sound e)
    rwa [idle.submission, idle.execution, Option.toList_none, Option.toList_none, List.append_nil,
      List.append_nil] at this
  cases p with
  | collecting collects expected l => exact .collecting (collects.keep idle.silent) expected (log l)
  | submitted collects all l => exact .submitted (collects.keep idle.silent) all (log l)
  | failed l => exact .failed (log l)
  | executed collects all l => exact .executed (collects.keep idle.silent) all (log l)

/-! ### Events lead from phase to phase -/

/-- A call that finds an outcome, a context that is gone, or nobody waiting for it, is idle. -/
theorem Event.Idle.of_unreached {before : Request} {call : Call}
    {reply : Except Error Contribution} (unreached : ∀ c, ¬ before.Reaches call c)
    (silent : before.outcome ≠ none ∨ ∃ e, reply = .error e)
    (submission : DocGraph.submission? reply = none) : (Event.called before call reply).Idle m where
  silent name := by
    rcases silent with ended | ⟨e, rfl⟩
    · cases reply with
      | error => rfl
      | ok => simp [contributes, ended]
    · rfl
  sound e := by
    rintro ⟨reaches, _⟩
    exact unreached _ reaches
  submission := submission
  execution := rfl

/-- What a call that fails says of the context it was made on. -/
theorem Event.Fails.synthesis_eq {before : Request} {call : Call} {e : Error}
    {reply : Except Error Contribution} (fails : (Event.called before call reply).Fails m e)
    (context : before.context = some c) : (outcome (call.synthesis m) c).1 = .error e := by
  obtain ⟨reaches, synthesis⟩ := fails
  cases context.symm.trans reaches.context
  rw [synthesis]

/-- The history goes on with a call that succeeds. -/
theorem Log.add_ok {before : Request} {call : Call} {reply : Except Error Contribution}
    {ts : List Transaction} {runs : List (Transaction × Outcome)} {var : String}
    (log : Log m h none ts runs) (context : before.context = some c)
    (synthesis : outcome (call.synthesis m) c = (.ok var, c')) :
    Log m (h ++ [.called before call reply]) none (ts ++ (submission? reply).toList) runs := by
  have := log.add (fun e he => he) fun e (fails : (Event.called before call reply).Fails m e) => by
    have hs := fails.synthesis_eq context
    rw [synthesis] at hs
    cases hs
  rwa [Event.execution?, Option.toList_none, List.append_nil] at this

/-- After a root field has contributed, the others are waited for. -/
theorem expected_answer {pending : List String} {name : String} (var : String)
    (expected : ∀ n, n ∈ pending ↔ n ∈ names ∧ n ∉ answers.map Prod.fst) (n : String) :
    n ∈ (pending.filter fun a => a != name) ↔
      n ∈ names ∧ n ∉ (answers ++ [(name, var)]).map Prod.fst := by
  rw [List.mem_filter, expected, List.map_append, List.mem_append, List.map_singleton,
    List.mem_singleton, bne_iff_ne]
  grind

/-- A call from a phase leads to a phase. -/
theorem Phase.call (p : Phase m names h sc) (call : Call) :
    Phase m names (h ++ [.called sc.request call (sc.request.call m call).1])
      ⟨(sc.request.call m call).2,
        sc.running ++ (submission? (sc.request.call m call).1).toList⟩ := by
  have turn := call_turn m sc.request call
  generalize (sc.request.call m call).1 = reply at turn ⊢
  generalize (sc.request.call m call).2 = r' at turn ⊢
  cases turn with
  | late ended =>
      have hs : submission? (.ok (if call.isRoot then .waits call.name else .nothing)) = none := by
        split <;> rfl
      rw [hs, Option.toList_none, List.append_nil]
      exact p.idle (.of_unreached (fun c reaches => ended reaches.running) (.inl ended) hs)
  | outstanding running gone =>
      show Phase m names _ ⟨sc.request, sc.running ++ []⟩
      rw [List.append_nil]
      refine p.idle (.of_unreached (fun c reaches => ?_) (.inr ⟨_, rfl⟩) rfl)
      exact nomatch gone.symm.trans reaches.context
  | refused running context root name =>
      show Phase m names _ ⟨sc.request, sc.running ++ []⟩
      rw [List.append_nil]
      exact p.idle (.of_unreached (fun c reaches => name (reaches.expected root)) (.inr ⟨_, rfl⟩) rfl)
  -- From here on the context is there, so the request is collecting.
  | failed running context name synthesis =>
      cases p with
      | collecting collects expected log =>
          refine .failed (log.add (fun e he => nomatch he) fun e fails => ?_)
          have hs := fails.synthesis_eq context
          rw [synthesis] at hs
          cases hs
          rfl
      | submitted | failed | executed => cases context
  | below running context root synthesis =>
      cases p with
      | collecting collects expected log =>
          cases context
          refine .collecting ((collects.below synthesis).keep fun name => ?_) expected
            (log.add_ok rfl synthesis)
          simp [Event.contributes, root]
      | submitted | failed | executed => cases context
  | @waits _ c' var running context root name synthesis more =>
      cases p with
      | collecting collects expected log =>
          cases context
          obtain ⟨named, new⟩ := (expected _).mp name
          refine .collecting (collects.answer named new synthesis (fun n => ?_)
            (.mk root ⟨rfl, rfl, fun _ => name⟩ synthesis)) (expected_answer var expected)
            (log.add_ok rfl synthesis)
          simp [Event.contributes, root]
      | submitted | failed | executed => cases context
  | @submits _ c' var running context root name synthesis last isOpen =>
      cases p with
      | @collecting number c pending answers collects expected log =>
          cases context
          obtain ⟨named, new⟩ := (expected _).mp name
          refine .submitted (collects.answer named new synthesis (fun n => ?_)
            (.mk root ⟨rfl, rfl, fun _ => name⟩ synthesis)) (fun n hn => ?_)
            (log.add_ok rfl synthesis)
          · simp [Event.contributes, root]
          · refine Decidable.byContradiction fun hnot => ?_
            have := (expected_answer var expected n).mpr ⟨hn, hnot⟩
            rw [last] at this
            cases this
      | submitted | failed | executed => cases context
  | closed running context synthesis isOpen =>
      cases p with
      | collecting collects expected log =>
          cases context
          obtain ⟨_, _, _, course⟩ := (collects.below synthesis).course
          exact nomatch isOpen.symm.trans course.isOpen
      | submitted | failed | executed => cases context

/-- An engine that finishes gives the request its outcome. -/
theorem Phase.execute {r : Request} {before after : List Transaction} {t : Transaction}
    (p : Phase m names h ⟨r, before ++ t :: after⟩) (o : Outcome) :
    Phase m names (h ++ [.executed t o]) ⟨r.finish o, before ++ after⟩ := by
  generalize hs : (⟨r, before ++ t :: after⟩ : Scene) = sc at p
  have nonempty : sc.running ≠ [] := by
    rw [← hs]
    simp
  cases p with
  | collecting | failed | executed => exact absurd rfl nonempty
  | @submitted number c answers collects all log =>
      obtain ⟨rfl, ht⟩ := Scene.mk.inj hs
      obtain ⟨rfl, rfl, rfl⟩ : before = [] ∧ t = c.transaction ∧ after = [] := by
        cases before with
        | nil => simpa using ht
        | cons a before => simp at ht
      refine .executed (collects.keep fun name => rfl) all ?_
      exact log.add (fun e he => he) fun e fails => nomatch fails

theorem Happens.phase (e : Happens m sc ev sc') (p : Phase m names h sc) :
    Phase m names (h ++ [ev]) sc' := by
  cases e with
  | call sc call => exact p.call call
  | execute r before after t o => exact p.execute o

theorem Evolves.phase {h' : List Event} (e : Evolves m sc h' sc') (p : Phase m names h sc) :
    Phase m names (h ++ h') sc' := by
  induction e generalizing h with
  | refl => rwa [List.append_nil]
  | step first _ ih =>
      have := ih (first.phase p)
      rwa [List.append_assoc] at this

/-! ### Whole lives -/

/-- The life of a request for root fields of some names, which the events of `h` have led to `sc`. -/
structure Lifecycle (m : Model) (names : List String) (h : List Event) (sc : Scene) : Prop where
  /-- At most one transaction is handed to the engine. -/
  once : (submissions h).length ≤ 1
  /-- By then each root field has contributed, and just once. -/
  complete : ∀ h₁ h₂ before call reply t, h = h₁ ++ .called before call reply :: h₂ →
    submission? reply = some t →
    ∀ name ∈ names, (h₁ ++ [.called before call reply]).countP (Event.contributes name) = 1
  /-- If a mutation cannot be put into statements, the engine never gets to run anything. -/
  failure : ∀ ev ∈ h, ∀ e, ev.Fails m e →
    submissions h = [] ∧ executions h = [] ∧ sc.request.outcome = some (.error e)
  /-- The engine's answer is the outcome. -/
  outcome_eq : ∀ t o, (t, o) ∈ executions h → sc.request.outcome = some o
  /-- An outcome never changes. -/
  stable : ∀ h' sc' o, Evolves m sc h' sc' → sc.request.outcome = some o →
    sc'.request.outcome = some o
  /-- An error is the result of all fields. -/
  error : ∀ e, sc.request.outcome = some (.error e) →
    ∀ name, sc.request.result? name = some (.error e)
  /-- When a database has run the transaction, there is one result for each root field, and it is the
  document variable of the field's own mutation. -/
  results : ∀ t db res, (t, .ok res) ∈ executions h → (db.execute t).1 = .ok res →
    ∃ run, outcome (Run.performAll t.write t.params t.statements) (Run.start db) = (.ok ⟨⟩, run) ∧
      res.names.Nodup ∧ (∀ name, name ∈ res.names ↔ name ∈ names) ∧
      ∀ name ∈ names, ∃ ev ∈ h, ∃ var v, ev.Binds m name var ∧ run.vars.get? var = some v ∧
        sc.request.result? name = some (.ok v)

theorem Phase.length_submissions_le (p : Phase m names h sc) : (submissions h).length ≤ 1 := by
  cases p with
  | collecting _ _ log | submitted _ _ log | failed log | executed _ _ log =>
      rw [log.submitted]
      simp

/-- Once a transaction has been handed over, every root field has contributed once. -/
theorem Phase.countP_contributes (p : Phase m names h sc) {t : Transaction} (ht : t ∈ submissions h)
    {name : String} (hn : name ∈ names) : h.countP (Event.contributes name) = 1 := by
  cases p with
  | collecting _ _ log | failed log =>
      rw [log.submitted] at ht
      cases ht
  | submitted collects all log | executed collects all log =>
      rw [collects.counts, collects.nodup.count, if_pos (all name hn)]

theorem Phase.of_fails (p : Phase m names h sc) {e : Error} (hev : ev ∈ h) (fails : ev.Fails m e) :
    submissions h = [] ∧ executions h = [] ∧ sc.request.outcome = some (.error e) := by
  cases p with
  | collecting _ _ log | submitted _ _ log | executed _ _ log => exact nomatch log.faults ev hev e fails
  | failed log =>
      cases log.faults ev hev e fails
      exact ⟨log.submitted, log.executed, rfl⟩

/-- What the engine has run is the transaction of the answers, and its answer is the outcome. -/
theorem Phase.of_execution (p : Phase m names h sc) {t : Transaction} {o : Outcome}
    (ht : (t, o) ∈ executions h) :
    ∃ c answers, t = c.transaction ∧ Collects m names h c answers ∧
      (∀ n ∈ names, n ∈ answers.map Prod.fst) ∧ sc.request.outcome = some o := by
  cases p with
  | collecting _ _ log | submitted _ _ log | failed log =>
      rw [log.executed] at ht
      cases ht
  | executed collects all log =>
      rw [log.executed] at ht
      cases List.mem_singleton.mp ht
      exact ⟨_, _, rfl, collects, all, rfl⟩

/-- Every history of calls on a request, with an engine that may take any time and answer anything, is
a proper life: the engine is called at most once and with the contributions of all root fields, never
after a failure, and its one answer is what all fields get. -/
theorem evolves_lifecycle (m : Model) (number : Nat) (remembers : Bool) (names : List String)
    (h : List Event) (sc : Scene) (e : Evolves m ⟨Request.start number remembers names, []⟩ h sc) :
    Lifecycle m names h sc := by
  have p := e.phase (Phase.start m number remembers names)
  rw [List.nil_append] at p
  refine ⟨p.length_submissions_le, ?_, fun ev hev e fails => p.of_fails hev fails, ?_, ?_, ?_, ?_⟩
  · rintro h₁ h₂ before call reply t rfl ht name hn
    rw [← List.singleton_append, ← List.append_assoc] at e
    obtain ⟨mid, e₁, _⟩ := e.split
    have p₁ := e₁.phase (Phase.start m number remembers names)
    rw [List.nil_append] at p₁
    refine p₁.countP_contributes (t := t) ?_ hn
    exact List.mem_filterMap.mpr ⟨_, List.mem_append_right _ (List.mem_singleton.mpr rfl), ht⟩
  · intro t o ht
    obtain ⟨_, _, _, _, _, ho⟩ := p.of_execution ht
    exact ho
  · exact fun h' sc' o e' ho => e'.outcome_eq ho
  · intro e he name
    unfold Request.result?
    rw [he]
    rfl
  · intro t db res ht hex
    obtain ⟨c, answers, rfl, collects, all, ho⟩ := p.of_execution ht
    obtain ⟨_, _, _, course⟩ := collects.course
    obtain ⟨run, hrun, hnames, values⟩ := course.results collects.nodup hex
    refine ⟨run, hrun, hnames ▸ collects.nodup, fun name => ?_, fun name hn => ?_⟩
    · rw [hnames]
      refine ⟨fun hn => ?_, all name⟩
      obtain ⟨a, ha, rfl⟩ := List.mem_map.mp hn
      exact collects.named a ha
    · obtain ⟨a, ha, rfl⟩ := List.mem_map.mp (all name hn)
      obtain ⟨ev, hev, binds⟩ := collects.own a ha
      obtain ⟨v, hv, hres⟩ := values a ha
      refine ⟨ev, hev, a.2, v, binds, hv, ?_⟩
      unfold Request.result?
      rw [ho]
      simp [hres, bind, Except.bind, pure, Except.pure]

/-- The empty collections of `acquaintances`. -/
def vacant : Database where
  store := (Store.empty.create "Person" .document).create (edgeCollection "Person" "knows") .edge
  lastKey := 0

theorem evolves_lifecycle_acquaintances :
    ∃ h sc t res, Evolves acquaintances ⟨Request.start 1 true ["new", "gone"], []⟩ h sc ∧
      (t, .ok res) ∈ executions h ∧ (vacant.execute t).1 = .ok res ∧
      Lifecycle acquaintances ["new", "gone"] h sc := by
  have first : submission? ((Request.start 1 true ["new", "gone"]).call acquaintances creation).1 =
      none := by decide +kernel
  have second : (submission? (((Request.start 1 true ["new", "gone"]).call acquaintances
      creation).2.call acquaintances deletion).1).any (fun t => (vacant.execute t).1.toBool) =
      true := by decide +kernel
  obtain ⟨t, ht, ok⟩ := (Option.any_eq_true _ _).mp second
  obtain ⟨res, hres⟩ : ∃ res, (vacant.execute t).1 = .ok res := by
    cases he : (vacant.execute t).1 with
    | error e =>
        rw [he] at ok
        cases ok
    | ok res => exact ⟨res, rfl⟩
  have history : ∀ r : Request, submission? (r.call acquaintances creation).1 = none →
      submission? ((r.call acquaintances creation).2.call acquaintances deletion).1 = some t →
      ∃ h sc, Evolves acquaintances ⟨r, []⟩ h sc ∧ (t, .ok res) ∈ executions h := by
    intro r first second
    have call₁ := Happens.call (m := acquaintances) ⟨r, []⟩ creation
    have call₂ := Happens.call (m := acquaintances) ⟨(r.call acquaintances creation).2, []⟩ deletion
    rw [first] at call₁
    rw [second] at call₂
    exact ⟨_, _, .step call₁ (.step call₂ (.step (.execute _ [] [] t (.ok res)) .refl)),
      List.mem_cons_self⟩
  obtain ⟨h, sc, e, executed⟩ := history _ first ht
  exact ⟨h, sc, t, res, e, executed, hres, evolves_lifecycle _ _ _ _ _ _ e⟩

end DocGraph
