import DocGraph.Proofs.Existence

/-! # Requests with and without memory

A request that remembers existence checks and one that does not take the same calls. Their contexts
differ in nothing but the checks left out, so the two go on together (`Twins`) and hand over scripts
that run alike up to a check which the one leaves out and the other fails (`Lockstep`).

The main statement is `submitted_memo_agrees`. The two transactions of twin requests come to the same,
or the one without memory fails over an id that does not exist; and the latter does not happen if every
deletion keeps to `DeletionRule.safe` and no type is named like a collection of edges. Without this
condition it does happen: `submitted_memo_differs`. -/

namespace DocGraph

variable {trusted : Prop} {s : Schema} {db : Database} {c c' : Context} {ds ds' : List Duty}
  {ss ss' tt : List Statement} {write : NameSet} {params : Record Json} {run : Run} {m : Model}

/-! ### Scripts with and without the checks left out -/

/-- What a script without memory and one with memory come to: the same, or the first fails over an
id. If deletions can be trusted, it is the same. -/
def Tallies (trusted : Prop) (o o' : Except Error Unit × Run) : Prop :=
  o = o' ∨ ¬ trusted ∧ ∃ i type, o.1 = .error (.absent i type)

theorem Tallies.trans {o₁ o₂ o₃ : Except Error Unit × Run} (h : Tallies trusted o₁ o₂)
    (h' : Tallies trusted o₂ o₃) : Tallies trusted o₁ o₃ := by
  rcases h with rfl | failed
  · exact h'
  · exact .inr failed

/-- The same statements added to both scripts. -/
theorem Tallies.append (h : Tallies trusted (outcome (Run.performAll write params ss) run)
      (outcome (Run.performAll write params ss') run)) (tt : List Statement) :
    Tallies trusted (outcome (Run.performAll write params (ss ++ tt)) run)
      (outcome (Run.performAll write params (ss' ++ tt)) run) := by
  rw [Run.outcome_performAll_append, Run.outcome_performAll_append]
  rcases h with same | ⟨untrusted, i, type, failed⟩
  · rw [same]
    exact .inl rfl
  · refine .inr ⟨untrusted, i, type, ?_⟩
    rcases ho : outcome (Run.performAll write params ss) run with ⟨e | _, run'⟩
    · rw [ho] at failed
      exact failed
    · rw [ho] at failed
      cases failed

/-- A context with memory, and the statements `ss` that it would have without. -/
structure Lockstep (trusted : Prop) (s : Schema) (db : Database) (c : Context) (ds : List Duty)
    (ss : List Statement) : Prop where
  scoping : Scoping c ds
  /-- Checks are left out and nothing else. -/
  sublist : c.statements.Sublist ss
  tallies : ∀ {write params}, (∀ {p v}, c.params.get? p = some v → params.get? p = some v) →
    Tallies trusted (outcome (Run.performAll write params ss) (Run.start db))
      (outcome (Run.performAll write params c.statements) (Run.start db))
  remembers : ∀ {write params run}, (∀ {p v}, c.params.get? p = some v → params.get? p = some v) →
    PerformsAll write params c.statements (Run.start db) run → Remembers trusted s c ds params run

namespace Lockstep

theorem empty (trusted : Prop) (s : Schema) (db : Database) (number : Nat) :
    Lockstep trusted s db (Context.empty number true) [] [] where
  scoping := .empty number true
  sublist := List.Sublist.refl []
  tallies _ := .inl rfl
  remembers _ _ := nofun

theorem step (h : Lockstep trusted m.schema db c ds ss) (keyed : db.store.Keyed)
    (apart : trusted → m.schema.Apart)
    (e : Emits m (.ofDeletion (.provided trusted (.safe m.schema))) c ds tt c' ds') :
    Lockstep trusted m.schema db c' ds' (ss ++ tt) where
  scoping := e.scoping h.scoping
  sublist := by
    rw [e.statements_eq]
    exact h.sublist.append (List.Sublist.refl tt)
  tallies hp := by
    rw [e.statements_eq]
    exact (h.tallies fun hv => hp (e.extends.params hv)).append tt
  remembers hp p := by
    rw [e.statements_eq] at p
    obtain ⟨mid, p₁, p₂⟩ := performsAll_append.mp p
    have before : ∀ {p v}, c.params.get? p = some v → _ := fun hv => hp (e.extends.params hv)
    exact e.remembers h.scoping before apart (p₁.keyed keyed) p₂ (h.remembers before p₁)

/-- A check that is left out would have succeeded, or failed over its id. -/
theorem tallies_skip (h : Lockstep trusted m.schema db c ds ss) (keyed : db.store.Keyed)
    (skips : Skips m c tt) (calm : Calm ds)
    (hp : ∀ {p v}, c.params.get? p = some v → params.get? p = some v) :
    Tallies trusted (outcome (Run.performAll write params (c.statements ++ tt)) (Run.start db))
      (outcome (Run.performAll write params c.statements) (Run.start db)) := by
  rw [Run.outcome_performAll_append]
  rcases ho : outcome (Run.performAll write params c.statements) (Run.start db) with ⟨e | _, run⟩
  · exact .inl rfl
  · have p := Run.performsAll_of_ok _ ho
    cases skips with
    | @mk id type label collections given remembered possible =>
        obtain ⟨r, i, _, recalls, found⟩ := h.remembers hp p _ remembered
        cases possible.symm.trans recalls.possible
        have value : id.value (run.scope params) = .ok (.str i) :=
          (h.scoping.value_eq given recalls.given recalls.key.symm hp).trans recalls.value
        dsimp only
        rw [outcome_existsCheck value recalls.there]
        cases any : collections.any (run.store.hasId i) with
        | true => exact .inl rfl
        | false =>
            refine .inr ⟨fun ht => ?_, i, type, rfl⟩
            obtain ⟨C, hC, key, hi, stored⟩ := found ht fun id duty => (calm id duty).elim
            exact List.any_eq_false.mp any C hC ((p.keyed keyed).hasId_iff.mpr ⟨key, hi, stored⟩)

theorem skip (h : Lockstep trusted m.schema db c ds ss) (keyed : db.store.Keyed)
    (skips : Skips m c tt) (calm : Calm ds) : Lockstep trusted m.schema db c ds (ss ++ tt) where
  scoping := h.scoping
  sublist := h.sublist.trans (List.sublist_append_left ss tt)
  tallies hp := ((h.tallies hp).append tt).trans (h.tallies_skip keyed skips calm hp)
  remembers := h.remembers

theorem trace (h : Lockstep trusted m.schema db c ds ss) (keyed : db.store.Keyed)
    (apart : trusted → m.schema.Apart)
    (trace : Trace m (.ofDeletion (.provided trusted (.safe m.schema))) c ds tt c' ds') :
    Lockstep trusted m.schema db c' ds' (ss ++ tt) := by
  induction trace with
  | refl =>
      rw [List.append_nil]
      exact h
  | step _ e ih =>
      rw [← List.append_assoc]
      exact ih.step keyed apart e
  | skip _ skips calm ih =>
      rw [← List.append_assoc]
      exact ih.skip keyed skips calm

theorem answer {held : Holding} {var : String} (h : Lockstep trusted s db c [] ss)
    (apart : trusted → s.Apart) (name : String) (bound : (var, held) ∈ bindings c.statements) :
    Lockstep trusted s db (c.answer name var) [] (ss ++ answerStatements name var) where
  scoping := h.scoping.answer name bound
  sublist := h.sublist.append (List.Sublist.refl _)
  tallies hp := (h.tallies hp).append _
  remembers hp p x hx := by
    obtain ⟨mid, p₁, p₂⟩ := performsAll_append.mp p
    have parts : ∀ b ∈ partsOf (answerStatements name var), b.binding? = none ∧ b.drains? = none := by
      intro b hb
      rcases eq_of_mem_answerStatements hb with rfl | rfl
      · exact ⟨rfl, rfl⟩
      · exact ⟨rfl, rfl⟩
    refine (h.remembers hp p₁ x hx).keep h.scoping (c.extends_add _) ?_ p₂ apart ?_ nofun
    · intro v held _ b hb y set
      cases (parts b hb).1.symm.trans set
    · intro b hb C drained
      cases (parts b hb).2.symm.trans drained

end Lockstep

variable {number : Nat} {answers : List (String × String)}

theorem Course.lockstep
    (course : Course m (.ofDeletion (.provided trusted (.safe m.schema))) number true c ss answers)
    (keyed : db.store.Keyed) (apart : trusted → m.schema.Apart) :
    Lockstep trusted m.schema db c [] ss := by
  induction course with
  | start => exact .empty trusted m.schema db number
  | mutate now _ trace ih =>
      exact Lockstep.trace (m := { m with now := now }) ih keyed apart trace
  | answer name var _ _ bound ih => exact ih.answer apart name bound

/-- The transactions of a context with memory and of the one without. -/
theorem Lockstep.execute (h : Lockstep trusted s db c [] ss) :
    db.execute (c.plain ss).transaction = db.execute c.transaction ∨
      ¬ trusted ∧ ∃ i type, (db.execute (c.plain ss).transaction).1 = .error (.absent i type) := by
  have tallies : Tallies trusted
      (outcome (Run.performAll c.write c.params (ss ++ finale c.deferred)) (Run.start db))
      (outcome (Run.performAll c.write c.params (c.statements ++ finale c.deferred)) (Run.start db)) :=
    (h.tallies fun hv => hv).append _
  have plain : (c.plain ss).transaction.statements = ss ++ finale c.deferred :=
    (c.plain ss).statements_transaction
  rw [execute_eq, execute_eq, plain, c.statements_transaction]
  rcases tallies with same | ⟨untrusted, i, type, failed⟩
  · exact .inl (congrArg db.settle same)
  · exact .inr ⟨untrusted, i, type, Database.settle_of_error failed⟩

/-! ### Twin requests -/

variable {D : DeletionRule} {r r' : Request}

/-- A request with memory and one without, after the same calls. -/
inductive Twins (m : Model) (D : DeletionRule) : Request → Request → Prop
  | running {number : Nat} {pending : List String} {c : Context} {ss : List Statement}
      {answers : List (String × String)} (course : Course m (.ofDeletion D) number true c ss answers) :
      Twins m D ⟨number, some c, pending, none⟩ ⟨number, some (c.plain ss), pending, none⟩
  | done {r : Request} (gone : r.context = none) : Twins m D r r

/-- Replies of twin requests to the same call. -/
inductive Echoes (m : Model) (D : DeletionRule) :
    Except Error Contribution → Except Error Contribution → Prop
  | same {reply : Except Error Contribution} (no : submission? reply = none) : Echoes m D reply reply
  | submits {number : Nat} {c : Context} {ss : List Statement} {answers : List (String × String)}
      (name : String) (course : Course m (.ofDeletion D) number true c ss answers) :
      Echoes m D (.ok (.submits name c.transaction)) (.ok (.submits name (c.plain ss).transaction))

/-- A mutation that both of two running twins have put into statements. -/
theorem Twins.taking {pending : List String} {var : String} {h : Holding}
    (course : Course m (.ofDeletion D) number true c ss answers) (document : h ≠ .value)
    (bound : (var, h) ∈ bindings c.statements) (call : Call) {old old' : Option Context} :
    Echoes m D ((⟨number, old, pending, none⟩ : Request).taking call c var).1
        ((⟨number, old', pending, none⟩ : Request).taking call (c.plain ss) var).1 ∧
      Twins m D ((⟨number, old, pending, none⟩ : Request).taking call c var).2
        ((⟨number, old', pending, none⟩ : Request).taking call (c.plain ss) var).2 := by
  have answered := course.answer call.name var document bound
  unfold Request.taking
  dsimp only
  by_cases root : call.isRoot = false
  · rw [if_pos root, if_pos root]
    exact ⟨.same rfl, .running course⟩
  · rw [if_neg root, if_neg root]
    by_cases more : (pending.filter fun a => a != call.name) ≠ []
    · rw [if_pos more, if_pos more]
      exact ⟨.same rfl, .running answered⟩
    · rw [if_neg more, if_neg more]
      have isOpen : (c.plain ss).isOpen = c.isOpen := rfl
      rw [isOpen, course.isOpen]
      exact ⟨.submits call.name answered, .done rfl⟩

/-- Twins answer a call alike and stay twins. -/
theorem Twins.call (h : Twins m D r r') (call : Call)
    (admitted : ∀ c, r.context = some c → call.mutation.Admits D c.memo) :
    Echoes m D (r.call m call).1 (r'.call m call).1 ∧
      Twins m D (r.call m call).2 (r'.call m call).2 := by
  cases h with
  | @running number pending c ss answers course =>
      rw [call_eq m call rfl rfl, call_eq m call rfl rfl]
      by_cases refused : call.isRoot = true ∧ call.name ∉ pending
      · rw [if_pos refused, if_pos refused]
        exact ⟨.same rfl, .running course⟩
      · rw [if_neg refused, if_neg refused]
        rcases hs : outcome (call.synthesis m) c with ⟨e | var, c'⟩
        · have failed := course.synthesis_error (admitted c rfl).meets hs ss
          rcases hs' : outcome (call.synthesis m) (c.plain ss) with ⟨o, c''⟩
          rw [hs'] at failed
          cases failed
          exact ⟨.same rfl, .done rfl⟩
        · obtain ⟨tt, course', ⟨held, document, bound⟩, plain⟩ :=
            course.synthesis_ok (admitted c rfl).meets hs
          rw [plain ss]
          exact Twins.taking course' document bound call
  | done gone =>
      have turn := call_turn m r call
      generalize r.call m call = result at turn ⊢
      obtain ⟨reply, after⟩ := result
      dsimp only at turn ⊢
      cases turn with
      | late ended =>
          refine ⟨.same ?_, .done gone⟩
          split <;> rfl
      | outstanding => exact ⟨.same rfl, .done gone⟩
      | refused _ context | failed _ context | below _ context | waits _ context
      | submits _ context | closed _ context => cases gone.symm.trans context

/-- Every deletion among some calls keeps to a rule, given what the request remembers by then. -/
def Request.Observes (m : Model) (D : DeletionRule) (r : Request) : List Call → Prop
  | [] => True
  | call :: calls => (∀ c, r.context = some c → call.mutation.Admits D c.memo) ∧
      Observes m D (r.call m call).2 calls

theorem Request.Observes.provided {calls : List Call} (h : trusted → r.Observes m D calls) :
    r.Observes m (.provided trusted D) calls := by
  induction calls generalizing r with
  | nil => trivial
  | cons call calls ih =>
      refine ⟨fun c context => ?_, ih fun ht => (h ht).2⟩
      have admitted := fun ht => (h ht).1 c context
      cases hm : call.mutation with
      | delete type id =>
          simp only [hm] at admitted
          exact fun key known ht => admitted ht key known
      | create | update | createEdge | updateEdge | deleteEdge => trivial

/-- The reply of a request to a call after some others. -/
def Request.reply (m : Model) (r : Request) (calls : List Call) (call : Call) :
    Except Error Contribution :=
  ((r.after m calls).call m call).1

theorem Twins.echoes {calls : List Call} (h : Twins m D r r') (call : Call)
    (observes : r.Observes m D (calls ++ [call])) :
    Echoes m D (r.reply m calls call) (r'.reply m calls call) := by
  induction calls generalizing r r' with
  | nil => exact (h.call call observes.1).1
  | cons first calls ih => exact ih (h.call first observes.1).2 observes.2

/-! ### What memory changes -/

/-- Whatever calls a request has taken, it replies to the next one with memory as it does without.
Where it hands over a transaction, the one with memory leaves out statements and is the same otherwise.
On every database the two have the same outcome and leave the same database, or the one without memory
fails over an id that does not exist. They always come to the same if no type is named like a
collection of edges and no deletion invalidates a check that is remembered after it. -/
theorem submitted_memo_agrees (m : Model) (number : Nat) (names : List String) (calls : List Call)
    (call : Call) :
    submission? ((Request.start number true names).reply m calls call) = none ∧
        (Request.start number false names).reply m calls call =
          (Request.start number true names).reply m calls call ∨
      ∃ name t t', (Request.start number true names).reply m calls call = .ok (.submits name t) ∧
        (Request.start number false names).reply m calls call = .ok (.submits name t') ∧
        t'.write = t.write ∧ t'.read = t.read ∧ t'.params = t.params ∧
        t.statements.Sublist t'.statements ∧
        ∀ db : Database, db.Reachable →
          (db.execute t' = db.execute t ∨ ∃ i type, (db.execute t').1 = .error (.absent i type)) ∧
          (m.schema.Apart →
            (Request.start number true names).Observes m (.safe m.schema) (calls ++ [call]) →
              db.execute t' = db.execute t) := by
  -- Deletions are trusted just where the last part of the statement asks for it.
  obtain ⟨trusted, trust⟩ : ∃ trusted : Prop, trusted ↔ m.schema.Apart ∧
      (Request.start number true names).Observes m (.safe m.schema) (calls ++ [call]) :=
    ⟨_, Iff.rfl⟩
  have twins : Twins m (.provided trusted (.safe m.schema)) (Request.start number true names)
      (Request.start number false names) := .running .start
  have echoes := twins.echoes call (.provided fun ht => (trust.mp ht).2)
  generalize (Request.start number true names).reply m calls call = cached at echoes ⊢
  generalize (Request.start number false names).reply m calls call = uncached at echoes ⊢
  cases echoes with
  | same no => exact .inl ⟨no, rfl⟩
  | @submits _ c ss _ name course =>
      have lockstep : ∀ {db : Database}, db.store.Keyed → Lockstep trusted m.schema db c [] ss :=
        fun keyed => course.lockstep keyed fun ht => (trust.mp ht).1
      refine .inr ⟨name, _, _, rfl, rfl, rfl, rfl, rfl, ?_, fun db reachable => ?_⟩
      · rw [c.statements_transaction, (c.plain ss).statements_transaction]
        exact (lockstep Database.Reachable.empty.keyed).sublist.append (List.Sublist.refl _)
      · have executed := (lockstep reachable.keyed).execute
        refine ⟨executed.imp_right And.right, fun apart observes => ?_⟩
        exact executed.resolve_right fun failed => failed.1 (trust.mpr ⟨apart, observes⟩)

/-- Adds two persons, an edge from the one to the other, and a third person. -/
def population : Transaction where
  write := ["KnowsEdgeFromPerson", "Person"]
  read := []
  statements := [
    .insert "_x0" "Person" (.param "_0") [] none,
    .insert "_x1" "Person" (.param "_0") [] none,
    .insert "_x2" "KnowsEdgeFromPerson" (.param "_0") []
      (some ((Ref.doc "_x0").id, (Ref.doc "_x1").id)),
    .insert "_x3" "Person" (.param "_0") [] none]
  params := [("_0", .obj [])]

/-- A database set up for a schema, with some persons in it. -/
def inhabited (m : Model) : Database :=
  match Database.empty.setup m.schema false with
  | .ok db => (db.execute population).2
  | .error _ => Database.empty

theorem reachable_inhabited (m : Model) : (inhabited m).Reachable := by
  unfold inhabited
  split
  · rename_i done
    exact .execute (.setup .empty done) _
  · exact .empty

/-- A root field that ties a person to something. -/
def tie (name field : String) (source target : Input) : Call where
  now := 3
  isRoot := true
  selection := ⟨name, []⟩
  mutation := .createEdge "Person" field source target []

/-- A root field that deletes the person of an id. -/
def removal (i : String) : Call where
  now := 4
  isRoot := true
  selection := ⟨"removed", []⟩
  mutation := .delete "Person" (.str i)

/-- A person is tied to another one, who is then deleted. -/
def farewell : List Call :=
  [tie "tied" "knows" (.str "Person/1") (.str "Person/4"), removal "Person/4"]

theorem submitted_memo_agrees_farewell :
    ∃ name t t',
      (Request.start 1 true ["tied", "removed", "again"]).reply acquaintances farewell
        (tie "again" "knows" (.str "Person/1") (.str "Person/2")) = .ok (.submits name t) ∧
      (Request.start 1 false ["tied", "removed", "again"]).reply acquaintances farewell
        (tie "again" "knows" (.str "Person/1") (.str "Person/2")) = .ok (.submits name t') ∧
      acquaintances.schema.Apart ∧
      (Request.start 1 true ["tied", "removed", "again"]).Observes acquaintances
        (.safe acquaintances.schema)
        (farewell ++ [tie "again" "knows" (.str "Person/1") (.str "Person/2")]) ∧
      (inhabited acquaintances).Reachable ∧ t.statements.length < t'.statements.length ∧
      ((inhabited acquaintances).execute t).1.toBool = true ∧
      (inhabited acquaintances).execute t' = (inhabited acquaintances).execute t := by
  have apart : acquaintances.schema.Apart := Schema.apart_of_names (by decide +kernel)
  have memo : ((Request.start 1 true ["tied", "removed", "again"]).call acquaintances
      (tie "tied" "knows" (.str "Person/1") (.str "Person/4"))).2.context.map Context.memo =
        some [(.literal "Person/1", "Person"), (.literal "Person/4", "Person")] := by decide +kernel
  have observes : (Request.start 1 true ["tied", "removed", "again"]).Observes acquaintances
      (.safe acquaintances.schema)
      (farewell ++ [tie "again" "knows" (.str "Person/1") (.str "Person/2")]) := by
    refine ⟨fun _ _ => trivial, fun c context => ?_, fun _ _ => trivial, trivial⟩
    rw [context] at memo
    intro key known i d hk parsed e he spares _ _ _
    cases known i hk
    cases hk
    cases parsed
    rw [Option.some.inj memo] at he
    rcases List.mem_cons.mp he with rfl | he
    · exact ⟨"Person/1", rfl, by decide +kernel⟩
    · rw [List.mem_singleton.mp he] at spares
      exact absurd rfl spares
  have cached : (submission? ((Request.start 1 true ["tied", "removed", "again"]).reply acquaintances
      farewell (tie "again" "knows" (.str "Person/1") (.str "Person/2")))).any
        (fun t => t.statements.length == 23 &&
          ((inhabited acquaintances).execute t).1.toBool) = true := by
    decide +kernel
  have uncached : (submission? ((Request.start 1 false ["tied", "removed", "again"]).reply
      acquaintances farewell (tie "again" "knows" (.str "Person/1") (.str "Person/2")))).any
        (fun t => t.statements.length == 25) = true := by
    decide +kernel
  rcases submitted_memo_agrees acquaintances 1 ["tied", "removed", "again"] farewell
    (tie "again" "knows" (.str "Person/1") (.str "Person/2")) with
    ⟨gone, _⟩ | ⟨name, t, t', hc, hu, _, _, _, _, executed⟩
  · rw [gone] at cached
    cases cached
  · rw [hc] at cached
    rw [hu] at uncached
    have short : t.statements.length = 23 ∧ ((inhabited acquaintances).execute t).1.toBool = true := by
      simpa [submission?] using cached
    have long : t'.statements.length = 25 := by simpa [submission?] using uncached
    have reachable := reachable_inhabited acquaintances
    exact ⟨name, t, t', hc, hu, apart, observes, reachable, by omega, short.2,
      (executed _ reachable).2 apart observes⟩

/-! ### Where memory makes a difference -/

/-- A transaction goes through that would fail over an id without memory. -/
def Overlooks (m : Model) (names : List String) (calls : List Call) (call : Call) (i type : String) :
    Prop :=
  ∃ t t', submission? ((Request.start 1 true names).reply m calls call) = some t ∧
    submission? ((Request.start 1 false names).reply m calls call) = some t' ∧
    ((inhabited m).execute t).1.toBool = true ∧
    ((inhabited m).execute t').1 = .error (.absent i type)

/-- The text that a transaction throws. -/
def thrown? : Except Error (Record Json) → Option String
  | .error (.transaction (.thrown text)) => some text
  | _ => none

theorem overlooks_of {m : Model} {names : List String} {calls : List Call} {call : Call}
    {i type text : String} (absent : Error.absent i type = .transaction (.thrown text))
    (cached : (submission? ((Request.start 1 true names).reply m calls call)).any
      (fun t => ((inhabited m).execute t).1.toBool) = true)
    (uncached : (submission? ((Request.start 1 false names).reply m calls call)).any
      (fun t => thrown? ((inhabited m).execute t).1 == some text) = true) :
    Overlooks m names calls call i type := by
  obtain ⟨t, ht, commits⟩ := (Option.any_eq_true _ _).mp cached
  obtain ⟨t', ht', fails⟩ := (Option.any_eq_true _ _).mp uncached
  refine ⟨t, t', ht, ht', commits, ?_⟩
  generalize ((inhabited m).execute t').1 = o at fails ⊢
  unfold thrown? at fails
  split at fails
  · rw [absent, Option.some.inj (eq_of_beq fails)]
  · cases eq_of_beq fails

/-- A root field that leaves a person as it is and exports the id. -/
def lookup (i : String) : Call where
  now := 2
  isRoot := true
  selection := ⟨"found", [.field "id" (some "person") []]⟩
  mutation := .update "Person" (.str i) []

/-- Persons who know each other, and a type that is named like the collection of these edges. -/
def namesakes : Model where
  schema := .ofTypes [
    ⟨"Person", .object, [⟨"knows", .list (.named "Person"), []⟩,
      ⟨"follows", .list (.named "KnowsEdgeFromPerson"), []⟩], [], [], []⟩,
    ⟨"KnowsEdgeFromPerson", .object, [⟨"name", .named "String", []⟩], [], [], []⟩]
  settings := .default
  now := 0

/-- A root field that deletes an edge between persons. -/
def parting (i : String) : Call where
  now := 4
  isRoot := true
  selection := ⟨"parted", []⟩
  mutation := .deleteEdge "Person" "knows" (.str i)

/-- Memory outlives three kinds of deletions: that of a document whose id is also in a variable, that
of a document by an id which names another collection, and that of an edge where a type is named like
the collection of edges. -/
theorem submitted_memo_differs :
    Overlooks acquaintances ["found", "tied", "removed", "again"]
        [lookup "Person/1", tie "tied" "knows" (.var "person") (.str "Person/4"), removal "Person/1"]
        (tie "again" "knows" (.var "person") (.str "Person/4")) "Person/1" "Person" ∧
      Overlooks acquaintances ["tied", "removed", "again"]
        [tie "tied" "knows" (.str "Person/1") (.str "Person/4"), removal "Other/1"]
        (tie "again" "knows" (.str "Person/1") (.str "Person/4")) "Person/1" "Person" ∧
      Overlooks namesakes ["tied", "parted", "again"]
        [tie "tied" "follows" (.str "Person/1") (.str "KnowsEdgeFromPerson/3"),
          parting "KnowsEdgeFromPerson/3"]
        (tie "again" "follows" (.str "Person/2") (.str "KnowsEdgeFromPerson/3"))
        "KnowsEdgeFromPerson/3" "KnowsEdgeFromPerson" ∧
      (inhabited acquaintances).Reachable ∧ (inhabited namesakes).Reachable := by
  refine ⟨overlooks_of rfl ?_ ?_, overlooks_of rfl ?_ ?_, overlooks_of rfl ?_ ?_,
    reachable_inhabited _, reachable_inhabited _⟩
  all_goals decide +kernel

end DocGraph
