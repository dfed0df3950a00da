import DocGraph.Request
import DocGraph.Proofs.Mutation

/-! # Calls on a request

`Turn` lists what one call can do to a request, and `call_turn` says that it lists everything. The
context of a request that has made some calls has gone through a `Course`: the steps of the mutations
one after another, each mutation of a root field followed by its answer. What the calls hand over in
the end is the transaction of such a context. -/

namespace DocGraph

/-! ### Calls -/

/-- A call on a request, at a point in time. -/
structure Call where
  now : Int
  isRoot : Bool
  selection : Selection
  mutation : Mutation

namespace Call

/-- The response name of the field. -/
def name (call : Call) : String := call.selection.responseName

/-- The steps of the mutation; only a root field exports. -/
def synthesis (m : Model) (call : Call) : Synthesis String :=
  call.mutation.synthesize { m with now := call.now }
    (if call.isRoot then some call.selection else none) none

end Call

/-- One call contributes its mutation. -/
def Request.call (m : Model) (r : Request) (call : Call) : Except Error Contribution × Request :=
  r.contribute { m with now := call.now } call.isRoot call.selection call.mutation

/-- The request after some calls. -/
def Request.after (m : Model) (r : Request) (calls : List Call) : Request :=
  calls.foldl (fun r call => (r.call m call).2) r

/-- The transaction that a reply hands over. -/
def submission? : Except Error Contribution → Option Transaction
  | .ok (.submits _ t) => some t
  | _ => none

/-- The statements that make a document the result of a root field. -/
def answerStatements (name var : String) : List Statement :=
  [.comment "bind result for mutation field", .setResult name (.doc var)]

namespace Context

/-- Makes a document the result of a root field. -/
def answer (c : Context) (name var : String) : Context :=
  c.add (answerStatements name var)

/-- The transaction that closing the context gives. -/
def transaction (c : Context) : Transaction :=
  ⟨c.write, c.read, Synthesis.withDeferred c.statements c.deferred, c.params⟩

end Context

/-- What stands at the end of a script: what has waited for it, under a remark. -/
def finale (deferred : List Statement) : List Statement :=
  if deferred.isEmpty then [] else .comment "final constraint checks" :: deferred

theorem eq_or_mem_of_mem_finale {deferred : List Statement} {s : Statement} (h : s ∈ finale deferred) :
    s = .comment "final constraint checks" ∨ s ∈ deferred := by
  unfold finale at h
  split at h
  · cases h
  · exact List.mem_cons.mp h

theorem Context.statements_transaction (c : Context) :
    c.transaction.statements = c.statements ++ finale c.deferred := by
  show Synthesis.withDeferred c.statements c.deferred = _
  unfold Synthesis.withDeferred finale
  split
  · exact (List.append_nil _).symm
  · rw [List.append_assoc]
    rfl

/-! ### What a call can do -/

/-- `Turn m r call reply r'`: the call is answered with `reply` and turns the request `r` into `r'`. -/
inductive Turn (m : Model) (r : Request) (call : Call) :
    Except Error Contribution → Request → Prop
  /-- The request has ended before. -/
  | late (ended : r.outcome ≠ none) :
      Turn m r call (.ok (if call.isRoot then .waits call.name else .nothing)) r
  /-- The transaction has been handed over, and there is no outcome yet. -/
  | outstanding (running : r.outcome = none) (gone : r.context = none) :
      Turn m r call (.error (.synthesis .submitted)) r
  /-- No root field of the name is waited for. -/
  | refused {c : Context} (running : r.outcome = none) (context : r.context = some c)
      (root : call.isRoot = true) (name : call.name ∉ r.pending) :
      Turn m r call (.error (.synthesis (.notPending call.name r.number))) r
  /-- The mutation cannot be put into statements. -/
  | failed {c c' : Context} {e : Error} (running : r.outcome = none)
      (context : r.context = some c) (name : call.isRoot = true → call.name ∈ r.pending)
      (synthesis : outcome (call.synthesis m) c = (.error e, c')) :
      Turn m r call (.error e) ⟨r.number, none, [], some (.error e)⟩
  /-- A field below the root adds its statements. -/
  | below {c c' : Context} {var : String} (running : r.outcome = none)
      (context : r.context = some c) (root : call.isRoot = false)
      (synthesis : outcome (call.synthesis m) c = (.ok var, c')) :
      Turn m r call (.ok .nothing) { r with context := some c' }
  /-- A root field adds its statements, and others are waited for. -/
  | waits {c c' : Context} {var : String} (running : r.outcome = none)
      (context : r.context = some c) (root : call.isRoot = true) (name : call.name ∈ r.pending)
      (synthesis : outcome (call.synthesis m) c = (.ok var, c'))
      (more : (r.pending.filter fun a => a != call.name) ≠ []) :
      Turn m r call (.ok (.waits call.name))
        ⟨r.number, some (c'.answer call.name var), r.pending.filter fun a => a != call.name, none⟩
  /-- The last root field adds its statements, and the transaction is handed over. -/
  | submits {c c' : Context} {var : String} (running : r.outcome = none)
      (context : r.context = some c) (root : call.isRoot = true) (name : call.name ∈ r.pending)
      (synthesis : outcome (call.synthesis m) c = (.ok var, c'))
      (last : (r.pending.filter fun a => a != call.name) = []) (isOpen : c'.isOpen = true) :
      Turn m r call (.ok (.submits call.name (c'.answer call.name var).transaction))
        ⟨r.number, none, [], none⟩
  /-- The context was closed before. -/
  | closed {c c' : Context} {var : String} {e : Error} (running : r.outcome = none)
      (context : r.context = some c) (synthesis : outcome (call.synthesis m) c = (.ok var, c'))
      (isOpen : c'.isOpen = false) :
      Turn m r call (.error e) ⟨r.number, none, [], some (.error e)⟩

/-- An open context is closed and its transaction handed over; a closed one is an error. -/
theorem submit_eq (r : Request) (c : Context) (name : String) :
    r.submit c name =
      if c.isOpen then (.ok (.submits name c.transaction), { r with context := none })
      else (.error (.synthesis (.closed c.number)), r.fail (.synthesis (.closed c.number))) := by
  have he : r.submit c name =
      match outcome Synthesis.close c with
      | (.ok t, _) => (.ok (.submits name t), { r with context := none })
      | (.error e, _) => (.error e, r.fail e) := rfl
  have hclose : (outcome Synthesis.close c).1 =
      if c.isOpen then .ok c.transaction else .error (.synthesis (.closed c.number)) := by
    unfold Synthesis.close Synthesis.ensureOpen
    by_cases h : c.isOpen = true
    · simp [outcome_bind, h]
      rfl
    · simp [outcome_bind, h]
  rcases ho : outcome Synthesis.close c with ⟨o, c'⟩
  rw [ho] at hclose
  obtain rfl : o = _ := hclose
  rw [he, ho]
  by_cases h : c.isOpen = true
  · rw [if_pos h, if_pos h]
  · rw [if_neg h, if_neg h]

theorem outcome_bindResult (c : Context) (name var : String) :
    outcome (Synthesis.bindResult name var) c = (.ok ⟨⟩, c.answer name var) := by
  show (_, _) = _
  simp [Context.answer, Context.add, answerStatements]

/-- What a mutation and, for a root field, its answer come to. -/
theorem outcome_contribution (m : Model) (call : Call) (c : Context) :
    outcome (do
        let var ← call.synthesis m
        if call.isRoot then Synthesis.bindResult call.name var : Synthesis Unit) c =
      match outcome (call.synthesis m) c with
      | (.ok var, c') => (.ok ⟨⟩, if call.isRoot then c'.answer call.name var else c')
      | (.error e, c') => (.error e, c') := by
  rw [outcome_bind]
  rcases outcome (call.synthesis m) c with ⟨e | var, c'⟩
  · rfl
  · by_cases h : call.isRoot = true
    · simp only [h, if_true]
      exact outcome_bindResult c' call.name var
    · simp only [h]
      rfl

theorem fail_eq {r : Request} (hr : r.outcome = none) (e : Error) :
    r.fail e = ⟨r.number, none, [], some (.error e)⟩ := by
  unfold Request.fail Request.finish
  rw [hr]

/-- What becomes of a request when the mutation of a call has been put into statements. -/
def Request.taking (r : Request) (call : Call) (c : Context) (var : String) :
    Except Error Contribution × Request :=
  let pending := r.pending.filter fun a => a != call.name
  if call.isRoot = false then (.ok .nothing, { r with context := some c })
  else if pending ≠ [] then
    (.ok (.waits call.name), ⟨r.number, some (c.answer call.name var), pending, none⟩)
  else if c.isOpen then
    (.ok (.submits call.name (c.answer call.name var).transaction), ⟨r.number, none, [], none⟩)
  else
    (.error (.synthesis (.closed c.number)),
      ⟨r.number, none, [], some (.error (.synthesis (.closed c.number)))⟩)

theorem contributed_eq {r : Request} {call : Call} (c : Context) (var : String)
    (hr : r.outcome = none) (root : call.isRoot = true) :
    r.contributed (c.answer call.name var) call.name = r.taking call c var := by
  unfold Request.contributed Request.taking
  by_cases hp : (r.pending.filter fun a => a != call.name) = []
  · simp only [hp, List.isEmpty_nil, if_true, root, Bool.true_eq_false, if_false, ne_eq,
      not_true_eq_false]
    rw [submit_eq, fail_eq (by exact hr), hr]
    rfl
  · have he : (r.pending.filter fun a => a != call.name).isEmpty = false := by simpa using hp
    simp only [he, Bool.false_eq_true, if_false, hr, root, Bool.true_eq_false, ne_eq, hp,
      not_false_eq_true, if_true]

/-- A call on a request whose context is there. -/
theorem call_eq (m : Model) {r : Request} {c : Context} (call : Call) (hr : r.outcome = none)
    (hc : r.context = some c) :
    r.call m call =
      if call.isRoot = true ∧ call.name ∉ r.pending then
        (.error (.synthesis (.notPending call.name r.number)), r)
      else
        match outcome (call.synthesis m) c with
        | (.ok var, c') => r.taking call c' var
        | (.error e, _) => (.error e, ⟨r.number, none, [], some (.error e)⟩) := by
  have extended : r.extend c { m with now := call.now } call.isRoot call.selection call.mutation =
      match outcome (call.synthesis m) c with
      | (.ok var, c') => r.taking call c' var
      | (.error e, _) => (.error e, ⟨r.number, none, [], some (.error e)⟩) := by
    have he : r.extend c { m with now := call.now } call.isRoot call.selection call.mutation =
        match outcome (do
          let var ← call.synthesis m
          if call.isRoot then Synthesis.bindResult call.name var : Synthesis Unit) c with
        | (.error e, _) => (.error e, r.fail e)
        | (.ok (), c) =>
          if call.isRoot then r.contributed c call.name
          else (.ok .nothing, { r with context := some c }) := rfl
    rw [he, outcome_contribution]
    rcases outcome (call.synthesis m) c with ⟨e | var, c'⟩
    · simp only [fail_eq hr]
    · by_cases root : call.isRoot = true
      · simp only [root, if_true]
        exact contributed_eq c' var hr root
      · simp only [root, Request.taking]
        rfl
  unfold Request.call Request.contribute
  rw [hr, hc]
  by_cases hn : call.isRoot = true ∧ call.name ∉ r.pending
  · have hb : (call.isRoot && !r.pending.contains call.selection.responseName) = true := by
      simpa [Call.name] using hn
    rw [if_pos hn]
    simp only [hb, if_true]
    rfl
  · have hb : (call.isRoot && !r.pending.contains call.selection.responseName) = false := by
      simpa [Call.name] using hn
    rw [if_neg hn]
    simp only [hb, Bool.false_eq_true, if_false]
    exact extended

theorem taking_turn (m : Model) {r : Request} {call : Call} {c c' : Context} {var : String}
    (hr : r.outcome = none) (hc : r.context = some c)
    (hn : call.isRoot = true → call.name ∈ r.pending)
    (hs : outcome (call.synthesis m) c = (.ok var, c')) :
    Turn m r call (r.taking call c' var).1 (r.taking call c' var).2 := by
  unfold Request.taking
  dsimp only
  by_cases root : call.isRoot = false
  · rw [if_pos root]
    exact .below hr hc root hs
  · rw [if_neg root]
    have root : call.isRoot = true := by simpa using root
    by_cases more : (r.pending.filter fun a => a != call.name) ≠ []
    · rw [if_pos more]
      exact .waits hr hc root (hn root) hs more
    · rw [if_neg more]
      have last : (r.pending.filter fun a => a != call.name) = [] := by simpa using more
      by_cases isOpen : c'.isOpen = true
      · rw [if_pos isOpen]
        exact .submits hr hc root (hn root) hs last isOpen
      · rw [if_neg isOpen]
        exact .closed hr hc hs (by simpa using isOpen)

theorem call_turn (m : Model) (r : Request) (call : Call) :
    Turn m r call (r.call m call).1 (r.call m call).2 := by
  rcases hr : r.outcome with _ | o
  · rcases hc : r.context with _ | c
    · have he : r.call m call = (.error (.synthesis .submitted), r) := by
        unfold Request.call Request.contribute
        rw [hr, hc]
      rw [he]
      exact .outstanding hr hc
    · rw [call_eq m call hr hc]
      split
      · rename_i hn
        exact .refused hr hc hn.1 hn.2
      · rename_i hn
        have hn : call.isRoot = true → call.name ∈ r.pending :=
          fun h => Decidable.byContradiction fun hp => hn ⟨h, hp⟩
        rcases hs : outcome (call.synthesis m) c with ⟨e | var, c'⟩
        · exact .failed hr hc hn hs
        · exact taking_turn m hr hc hn hs
  · have he : r.call m call = (.ok (if call.isRoot then .waits call.name else .nothing), r) := by
      unfold Request.call Request.contribute
      rw [hr]
      rfl
    rw [he]
    exact .late (by rw [hr]; exact Option.some_ne_none o)

/-! ### Courses -/

variable {m : Model} {D : Demands} {number : Nat} {remembers : Bool} {c c' : Context}
  {ss : List Statement} {answers : List (String × String)} {call : Call} {r r' : Request}

/-- The course of a context from its beginning: mutation after mutation, with the statements of a
context without memory and with the variables that are the results of the root fields so far. -/
inductive Course (m : Model) (D : Demands) (number : Nat) (remembers : Bool) :
    Context → List Statement → List (String × String) → Prop
  | start : Course m D number remembers (Context.empty number remembers) [] []
  | mutate {c c' : Context} {ss tt : List Statement} {answers : List (String × String)} (now : Int)
      (before : Course m D number remembers c ss answers)
      (trace : Trace { m with now := now } D c [] tt c' []) :
      Course m D number remembers c' (ss ++ tt) answers
  | answer {c : Context} {ss : List Statement} {answers : List (String × String)} {h : Holding}
      (name var : String) (before : Course m D number remembers c ss answers)
      (document : h ≠ .value) (bound : (var, h) ∈ bindings c.statements) :
      Course m D number remembers (c.answer name var) (ss ++ answerStatements name var)
        (answers ++ [(name, var)])

namespace Course

/-- What holds at the beginning and is kept by every step and every answer holds all along. -/
theorem invariant {I : Context → List Duty → Prop} (course : Course m D number remembers c ss answers)
    (start : I (Context.empty number remembers) [])
    (step : ∀ {now : Int} {c c' : Context} {ds ds' : List Duty} {ss : List Statement},
      Emits { m with now := now } D c ds ss c' ds' → I c ds → I c' ds')
    (answer : ∀ {c : Context} {h : Holding} {name var : String}, h ≠ .value →
      (var, h) ∈ bindings c.statements → I c [] → I (c.answer name var) []) : I c [] := by
  induction course with
  | start => exact start
  | mutate now _ trace ih => exact trace.invariant (fun e h => step e h) ih
  | answer name var _ document bound ih => exact answer document bound ih

theorem tidy (course : Course m D number remembers c ss answers) : c.Tidy m.schema := by
  induction course with
  | start => exact .empty m.schema number remembers
  | mutate now _ trace ih => exact trace.tidy ih
  | answer name var _ _ _ ih =>
      exact ih.of_extends (Context.extends_add _ _) ih.sorted rfl fun _ h => h

end Course

theorem Emits.isOpen_eq {ds ds' : List Duty} (h : Emits m D c ds ss c' ds') :
    c'.isOpen = c.isOpen := by
  cases h with
  | lockRead C =>
      unfold Context.lockRead
      split <;> rfl
  | @forget _ id =>
      obtain ⟨memo, e⟩ := c.forget_eq id
      rw [e]
  | _ => rfl

theorem Course.isOpen (course : Course m D number remembers c ss answers) : c.isOpen = true :=
  course.invariant (I := fun c _ => c.isOpen = true) rfl (fun e h => e.isOpen_eq.trans h)
    fun _ _ h => h

/-- A call that succeeds takes the course on, and does the same without memory. -/
theorem Course.synthesis_ok {var : String} (course : Course m D number remembers c ss answers)
    (meets : call.mutation.Meets D c.memo)
    (h : outcome (call.synthesis m) c = (.ok var, c')) :
    ∃ tt, Course m D number remembers c' (ss ++ tt) answers ∧
      (∃ h, h ≠ .value ∧ (var, h) ∈ bindings c'.statements) ∧
      ∀ base, outcome (call.synthesis m) (c.plain base) = (.ok var, c'.plain (base ++ tt)) := by
  have hc := synthesize_conforms (m := { m with now := call.now }) call.mutation
    (if call.isRoot then some call.selection else none) meets course.tidy
  have hs : outcome (call.mutation.synthesize { m with now := call.now }
    (if call.isRoot then some call.selection else none) none) c = (.ok var, c') := h
  rw [hs] at hc
  obtain ⟨tt, ds, trace, ⟨rfl, bound⟩, twin⟩ := hc
  exact ⟨tt, .mutate call.now course trace, bound, twin⟩

/-- A call that fails does so without memory, too. -/
theorem Course.synthesis_error {e : Error} (course : Course m D number remembers c ss answers)
    (meets : call.mutation.Meets D c.memo)
    (h : outcome (call.synthesis m) c = (.error e, c')) (base : List Statement) :
    (outcome (call.synthesis m) (c.plain base)).1 = .error e := by
  have hc := synthesize_conforms (m := { m with now := call.now }) call.mutation
    (if call.isRoot then some call.selection else none) meets course.tidy
  have hs : outcome (call.mutation.synthesize { m with now := call.now }
    (if call.isRoot then some call.selection else none) none) c = (.error e, c') := h
  rw [hs] at hc
  exact hc base

/-! ### Requests under a rule -/

/-- A rule for contexts that lasts: it holds of a new context, and after a mutation of some kind that
succeeds, with and without its answer. -/
structure Lasting (m : Model) (allowed : Mutation → Prop) (R : Context → Prop) : Prop where
  start (number : Nat) (remembers : Bool) : R (Context.empty number remembers)
  mutate {call : Call} {c c' : Context} {var : String} (kind : allowed call.mutation) (before : R c)
    (synthesis : outcome (call.synthesis m) c = (.ok var, c')) : R c' ∧ R (c'.answer call.name var)

/-- The rule holds of the context of a request, while it is there. -/
def Request.Follows (R : Context → Prop) (r : Request) : Prop :=
  ∀ c, r.outcome = none → r.context = some c → R c

/-- A transaction made from a context of which the rule holds. -/
def Transaction.Follows (R : Context → Prop) (t : Transaction) : Prop :=
  ∃ c, R c ∧ t = c.transaction

section rules

variable {allowed : Mutation → Prop} {R : Context → Prop}

theorem Lasting.follows_start (lasting : Lasting m allowed R) (number : Nat) (remembers : Bool)
    (names : List String) : (Request.start number remembers names).Follows R := by
  intro c _ hc
  cases hc
  exact lasting.start number remembers

/-- A request with an outcome has no context. -/
theorem Request.Follows.finish (hr : r.Follows R) (o : Outcome) : (r.finish o).Follows R := by
  unfold Request.finish
  split
  · exact hr
  · exact fun c none => nomatch none

/-- A call keeps to a rule that lasts, and hands over the transaction of a context under the rule. -/
theorem Turn.follows {reply : Except Error Contribution} (turn : Turn m r call reply r')
    (lasting : Lasting m allowed R) (kind : allowed call.mutation) (h : r.Follows R) :
    r'.Follows R ∧ ∀ t, submission? reply = some t → t.Follows R := by
  cases turn with
  | late ended =>
      refine ⟨h, fun t ht => ?_⟩
      split at ht <;> cases ht
  | outstanding | refused => exact ⟨h, fun t ht => nomatch ht⟩
  | failed | closed => exact ⟨fun _ ended => (nomatch ended), fun t ht => nomatch ht⟩
  | below running context root synthesis =>
      refine ⟨fun c _ hc => ?_, fun t ht => nomatch ht⟩
      cases hc
      exact (lasting.mutate kind (h _ running context) synthesis).1
  | waits running context root name synthesis more =>
      refine ⟨fun c _ hc => ?_, fun t ht => nomatch ht⟩
      cases hc
      exact (lasting.mutate kind (h _ running context) synthesis).2
  | submits running context root name synthesis last isOpen =>
      refine ⟨fun _ _ gone => (nomatch gone), fun t ht => ?_⟩
      cases ht
      exact ⟨_, (lasting.mutate kind (h _ running context) synthesis).2, rfl⟩

theorem Request.Follows.after (h : r.Follows R) (lasting : Lasting m allowed R) {calls : List Call}
    (kinds : ∀ call ∈ calls, allowed call.mutation) : (r.after m calls).Follows R := by
  induction calls generalizing r with
  | nil => exact h
  | cons call calls ih =>
      have first := ((call_turn m r call).follows lasting (kinds call List.mem_cons_self) h).1
      exact ih first fun call mem => kinds call (List.mem_cons_of_mem _ mem)

end rules

/-! ### Requests on course -/

/-- The context has gone through some course. -/
def Context.OnCourse (m : Model) (D : Demands) (c : Context) : Prop :=
  ∃ number remembers ss answers, Course m D number remembers c ss answers

/-- Mutations that meet the demands stay on course. -/
theorem lasting_onCourse (m : Model) (D : Demands) :
    Lasting m (fun mutation => ∀ memo, mutation.Meets D memo) (Context.OnCourse m D) where
  start number remembers := ⟨number, remembers, [], [], .start⟩
  mutate {call c c' var} meets before synthesis := by
    obtain ⟨number, remembers, ss, answers, course⟩ := before
    obtain ⟨tt, course', ⟨b, hb, bound⟩, -⟩ := course.synthesis_ok (meets _) synthesis
    exact ⟨⟨_, _, _, _, course'⟩, _, _, _, _, course'.answer call.name _ hb bound⟩

/-- The context of a request, while it is there, is on some course. -/
def Request.OnCourse (m : Model) (D : Demands) (r : Request) : Prop :=
  ∀ c, r.outcome = none → r.context = some c →
    ∃ number remembers ss answers, Course m D number remembers c ss answers

theorem Request.onCourse_start (m : Model) (number : Nat) (remembers : Bool) (names : List String) :
    (Request.start number remembers names).OnCourse m D :=
  (lasting_onCourse m D).follows_start number remembers names

/-- A transaction made from a context on course. -/
def Transaction.OnCourse (m : Model) (D : Demands) (t : Transaction) : Prop :=
  ∃ c number remembers ss answers, Course m D number remembers c ss answers ∧ t = c.transaction

theorem Transaction.Follows.onCourse {t : Transaction} (h : t.Follows (Context.OnCourse m D)) :
    t.OnCourse m D := by
  obtain ⟨c, ⟨number, remembers, ss, answers, course⟩, made⟩ := h
  exact ⟨c, number, remembers, ss, answers, course, made⟩

/-- A call that meets the demands keeps a request on course, and hands over the transaction of a
context on course. -/
theorem Turn.onCourse_of_meets {reply : Except Error Contribution} (turn : Turn m r call reply r')
    (meets : ∀ memo, call.mutation.Meets D memo) (h : r.OnCourse m D) :
    r'.OnCourse m D ∧ ∀ t, submission? reply = some t → t.OnCourse m D := by
  obtain ⟨on, submitted⟩ := turn.follows (lasting_onCourse m D) meets h
  exact ⟨on, fun t ht => (submitted t ht).onCourse⟩

/-- Where nothing is asked, every call keeps a request on course. -/
theorem Turn.onCourse {reply : Except Error Contribution} (turn : Turn m r call reply r')
    (h : r.OnCourse m .any) :
    r'.OnCourse m .any ∧ ∀ t, submission? reply = some t → t.OnCourse m .any :=
  turn.onCourse_of_meets (fun memo => call.mutation.meets_any memo) h

theorem Request.OnCourse.after (h : r.OnCourse m .any) (calls : List Call) :
    (r.after m calls).OnCourse m .any :=
  Request.Follows.after h (lasting_onCourse m .any) fun call _ => call.mutation.meets_any

end DocGraph
