import DocGraph.Proofs.Atomicity
import DocGraph.Proofs.WellScoped

/-! # Locks cover the script

Collections are locked at many places, and one that is locked for reading may be locked for writing
later on. All along the course of a context, the locks taken so far cover every part of the script, under
guards or waiting for its end, and no collection is locked in both ways: `Context.Covers`. The main
statement is `submitted_covered`: whatever calls a request has taken, the transaction that it hands over
has locked all that it writes and looks at, and never fails over a collection that is not locked. -/

namespace DocGraph

variable {m : Model} {D : Demands} {c c' : Context} {ds ds' : List Duty} {s : Statement}
  {ss : List Statement}

/-! ### Statements under locks -/

/-- The collection that a statement writes to. -/
def Statement.writes? : Statement → Option String
  | .insert _ collection _ _ _ => some collection
  | .update _ collection _ _ _ => some collection
  | .remove _ collection _ => some collection
  | .removeEdges collection _ _ => some collection
  | _ => none

/-- What a statement writes to is locked for writing, and what it looks at is locked. -/
structure Statement.Covered (write read : NameSet) (s : Statement) : Prop where
  writes : ∀ C, s.writes? = some C → C ∈ write
  reads : ∀ check message, s = .assert check message →
    ∀ C ∈ check.collections, C ∈ write ∨ C ∈ read

/-- The locks of a transaction cover its statements, under guards or not, and none is taken twice. -/
structure Transaction.Covered (t : Transaction) : Prop where
  parts : ∀ b ∈ partsOf t.statements, b.Covered t.write t.read
  disjoint : ∀ C ∈ t.write, C ∉ t.read

/-- The locks of a context cover its statements and those that wait for the end. -/
structure Context.Covers (c : Context) : Prop where
  statements : ∀ b ∈ partsOf c.statements, b.Covered c.write c.read
  deferred : ∀ b ∈ partsOf c.deferred, b.Covered c.write c.read
  disjoint : ∀ C ∈ c.write, C ∉ c.read

namespace Statement.Covered

theorem mono (h : s.Covered c.write c.read) (e : c.Extends c') : s.Covered c'.write c'.read where
  writes C hC := e.write (h.writes C hC)
  reads check message hs C hC := e.locked (h.reads check message hs C hC)

theorem of_writes {write read : NameSet} {C : String} (writes : s.writes? = some C) (locked : C ∈ write) :
    s.Covered write read where
  writes C' hC := by
    cases writes.symm.trans hC
    exact locked
  reads check message hs := by
    subst hs
    cases writes

theorem of_assert {write read : NameSet} {check : Check} {message : Message}
    (locked : ∀ C ∈ check.collections, C ∈ write ∨ C ∈ read) :
    (Statement.assert check message).Covered write read where
  writes C hC := by cases hC
  reads check' message' hs := by
    cases hs
    exact locked

/-- A statement that neither writes nor looks. -/
theorem of_idle {write read : NameSet} (writes : s.writes? = none)
    (reads : ∀ check message, s ≠ .assert check message) : s.Covered write read where
  writes C hC := by
    rw [writes] at hC
    cases hC
  reads check message hs := absurd hs (reads check message)

theorem comment {write read : NameSet} (text : String) : (Statement.comment text).Covered write read :=
  of_idle rfl fun _ _ h => by cases h

end Statement.Covered

/-! ### Steps keep the script covered -/

/-- Each step has locked what its statements need. -/
theorem Emits.covered (e : Emits m D c ds ss c' ds') :
    ∀ b ∈ partsOf ss, b.Covered c'.write c'.read := by
  have nothing : ∀ b ∈ partsOf [], b.Covered c'.write c'.read := fun b hb => by cases hb
  cases e with
  | param | name | lockWrite | lockRead | noKey | defer | waive | forget => exact nothing
  | remark text => exact forall_partsOf_one rfl (.comment text)
  | abort | «export» => exact forall_partsOf_one rfl (.of_idle rfl fun _ _ h => by cases h)
  | insert _ _ locked | insertEdge _ _ _ _ locked | update _ _ _ locked
  | updateEdge _ _ _ locked | remove _ locked | removeEdge _ locked | dropEdges _ locked =>
      exact forall_partsOf_one rfl (.of_writes rfl locked)
  | assertExists given possible locked =>
      exact forall_partsOf_existsCheck (.comment _) fun _ => .of_assert locked
  | assertFree known locked =>
      exact forall_partsOf_one rfl (.of_assert fun C hC => List.mem_singleton.mp hC ▸ locked)
  | assertKey key locked =>
      exact forall_partsOf_one rfl (.of_assert fun C hC => List.mem_singleton.mp hC ▸ locked)
  | clearEdges edges locked =>
      exact forall_partsOf_clear fun C hC => .of_writes rfl (locked C hC)

/-- The assertions of directives, under a guard or not, are covered when their collections are
locked. -/
theorem covered_deferral {schema : Schema} {t : TypeDef} {type : String} {id : Ref}
    {guard? : Option Ref} {assertions : List Statement}
    (directives : ∀ a, a ∈ assertions ↔ IsDirectiveAssertion schema t type id a)
    (locked : ∀ check message, .assert check message ∈ assertions →
      ∀ C ∈ check.collections, c.Locked C) :
    ∀ b ∈ partsOf (deferral assertions guard?), b.Covered c.write c.read := by
  intro b hb
  rw [partsOf_deferral guard? fun a ha => ((directives a).mp ha).parts_eq] at hb
  obtain ⟨f, _, rules, _, d, _, check, message, _, rfl⟩ := (directives b).mp hb
  exact .of_assert (locked check _ hb)

theorem Emits.covers (e : Emits m D c ds ss c' ds') (h : c.Covers) : c'.Covers := by
  have ext := e.extends
  have statements : ∀ b ∈ partsOf c'.statements, b.Covered c'.write c'.read := by
    intro b hb
    rw [e.statements_eq, partsOf_append] at hb
    rcases List.mem_append.mp hb with hb | hb
    · exact (h.statements b hb).mono ext
    · exact e.covered b hb
  have deferred : ∀ b ∈ partsOf c.deferred, b.Covered c'.write c'.read :=
    fun b hb => (h.deferred b hb).mono ext
  cases e with
  | lockWrite C =>
      refine ⟨statements, deferred, fun C' hw hr => ?_⟩
      obtain ⟨hr, ne⟩ := NameSet.mem_erase.mp hr
      exact h.disjoint C' ((NameSet.mem_insert.mp hw).resolve_left ne) hr
  | lockRead C =>
      by_cases hC : c.write.contains C = true
      · have same : c.lockRead C = c := if_pos hC
        rw [same]
        exact h
      · have same : c.lockRead C = { c with read := NameSet.insert c.read C } := if_neg hC
        rw [same] at statements deferred ⊢
        refine ⟨statements, deferred, fun C' hw hr => ?_⟩
        rcases NameSet.mem_insert.mp hr with rfl | hr
        · exact hC (List.contains_iff_mem.mpr hw)
        · exact h.disjoint C' hw hr
  | defer type_def directives locked =>
      refine ⟨statements, fun b hb => ?_, h.disjoint⟩
      have hb : b ∈ partsOf (c.deferred ++ _) := hb
      rw [partsOf_append] at hb
      rcases List.mem_append.mp hb with hb | hb
      · exact deferred b hb
      · exact covered_deferral directives locked b hb
  | @forget _ id =>
      obtain ⟨memo, same⟩ := c.forget_eq id
      rw [same] at statements deferred ⊢
      exact ⟨statements, deferred, h.disjoint⟩
  | remark | abort | param | name | insert | insertEdge | update | updateEdge | remove | removeEdge
  | dropEdges | assertExists | assertFree | «export» | assertKey | noKey | clearEdges | waive =>
      exact ⟨statements, deferred, h.disjoint⟩

theorem Context.Covers.empty (number : Nat) (remembers : Bool) :
    (Context.empty number remembers).Covers where
  statements b hb := by cases hb
  deferred b hb := by cases hb
  disjoint C hC := by cases hC

theorem Context.Covers.answer {name var : String} (h : c.Covers) : (c.answer name var).Covers := by
  refine ⟨fun b hb => ?_, h.deferred, h.disjoint⟩
  have hb : b ∈ partsOf (c.statements ++ answerStatements name var) := hb
  rw [partsOf_append] at hb
  rcases List.mem_append.mp hb with hb | hb
  · exact h.statements b hb
  · rcases eq_of_mem_answerStatements hb with rfl | rfl
    · exact .comment _
    · exact .of_idle rfl fun _ _ h => by cases h

theorem Course.covers {number : Nat} {remembers : Bool} {answers : List (String × String)}
    (course : Course m D number remembers c ss answers) : c.Covers :=
  course.invariant (I := fun c _ => c.Covers) (.empty number remembers) (fun e h => e.covers h)
    fun _ _ h => h.answer

theorem Context.Covers.transaction (h : c.Covers) : c.transaction.Covered := by
  refine ⟨fun b hb => ?_, h.disjoint⟩
  rw [c.statements_transaction, partsOf_append] at hb
  rcases List.mem_append.mp hb with hb | hb
  · exact h.statements b hb
  · obtain ⟨s, hs, hb⟩ := mem_partsOf.mp hb
    rcases eq_or_mem_of_mem_finale hs with rfl | hs
    · rw [List.mem_singleton.mp hb]
      exact .comment _
    · exact h.deferred b (mem_partsOf.mpr ⟨s, hs, hb⟩)

/-! ### Running under locks -/

/-- The collections that a statement writes to or looks at. -/
def Statement.names : Statement → List String
  | .assert check _ => check.collections
  | s => s.writes?.toList

/-- All that a transaction names is locked. -/
theorem Transaction.Covered.locked {t : Transaction} (h : t.Covered) {b : Statement}
    (hb : b ∈ partsOf t.statements) {C : String} (named : C ∈ b.names) : C ∈ t.write ∨ C ∈ t.read := by
  cases b with
  | assert check message => exact (h.parts _ hb).reads check message rfl C named
  | insert | update | remove | removeEdges =>
      exact .inl ((h.parts _ hb).writes C (by simpa [Statement.names, eq_comm] using named))
  | comment | bind | setResult | guarded | fail => cases named

section run

variable {write : NameSet} {params : Record Json} {scope : Scope} {run run' : Run} {E : Error → Prop}

/-- A sequence whose first part only looks fails as the look-up or as the rest does. -/
theorem FailsOnly.look {α β : Type} {x : Step α} {f : α → Step β} {y : Except Error α}
    (look : outcome x run = (y, run)) (first : FailsOnly E y)
    (second : ∀ a, FailsOnly E (outcome (f a) run).1) : FailsOnly E (outcome (x >>= f) run).1 := by
  rw [outcome_bind, look]
  cases y with
  | error e =>
      intro e' he
      cases he
      exact first _ rfl
  | ok a => exact second a

/-- A sequence fails as one of its parts does. -/
theorem FailsOnly.sequence {α β : Type} {x : Step α} {f : α → Step β}
    (first : FailsOnly E (outcome x run).1)
    (second : ∀ a run', outcome x run = (.ok a, run') → FailsOnly E (outcome (f a) run').1) :
    FailsOnly E (outcome (x >>= f) run).1 := by
  rw [outcome_bind]
  rcases ho : outcome x run with ⟨e | a, run'⟩
  · rw [ho] at first
    intro e' he
    cases he
    exact first _ rfl
  · exact second a run' ho

section kind

variable (other : ∀ e, e.isCollectionFault = false → E e)

include other

theorem failsOnly_value (r : Ref) : FailsOnly E (r.value scope) := by
  have var : ∀ name, FailsOnly E (scope.var name) := by
    intro name e he
    unfold Scope.var at he
    split at he
    · cases he
    · cases he
      exact other _ rfl
  induction r with
  | param name => exact .ok _
  | doc name | exported name => exact var name
  | field base name ih =>
      refine ih.bind fun v _ => ?_
      cases v with
      | null =>
          intro e he
          cases he
          exact other _ rfl
      | bool | num | str | arr | obj => exact .ok _

theorem failsOnly_document (r : Ref) : FailsOnly E (r.document scope) := by
  refine (failsOnly_value other r).bind fun v _ => ?_
  cases v with
  | obj d => exact .ok d
  | null | bool | num | str | arr =>
      intro e he
      cases he
      exact other _ rfl

theorem failsOnly_bodyOf (doc : Ref) (imports : List (String × Ref)) :
    FailsOnly E (Run.bodyOf scope doc imports) :=
  (failsOnly_document other doc).bind fun _ _ =>
    (FailsOnly.mapM fun e _ => (failsOnly_value other e.2).map _).bind fun _ _ => .ok _

theorem failsOnly_endsOf (d : Document) (ends : Option (Ref × Ref)) :
    FailsOnly E (Run.endsOf scope d ends) := by
  rcases ends with _ | ⟨source, target⟩
  · exact .ok d
  · exact (failsOnly_value other source).bind fun _ _ =>
      (failsOnly_value other target).bind fun _ _ => .ok _

theorem failsOnly_fail (message : Message) :
    FailsOnly E (outcome (Run.fail params message) run).1 := by
  have fill : FailsOnly E (message.fill (run.scope params)) := by
    refine (FailsOnly.mapM fun part _ => ?_).map _
    cases part with
    | text t => exact .ok t
    | value r => exact (failsOnly_value other r).map _
  rw [Run.outcome_fail]
  intro e he
  rcases hf : message.fill (run.scope params) with e' | text
  · rw [hf] at he
    cases he
    exact fill _ hf
  · rw [hf] at he
    cases he
    exact other _ rfl

/-- What is refused under a lock is refused because the collection is not there, or over something else
than collections. -/
theorem Run.Refusal.failsOnly {α : Type} {store : Store} {collection : String} {e : Error}
    (h : Run.Refusal write store collection e) (locked : collection ∈ write)
    (unknown : store.collection? collection = none → E (.storage (.unknownCollection collection))) :
    FailsOnly E (.error e : Except Error α) := by
  intro e' he
  cases he
  rcases fault : e.isCollectionFault with _ | _
  · exact other e fault
  · unfold Error.isCollectionFault at fault
    split at fault
    · cases h.lock locked
    · obtain ⟨rfl, absent⟩ := h.unknown _ rfl
      exact unknown absent
    · cases fault

section write

variable {collection : String} (locked : collection ∈ write)
  (unknown : run.store.collection? collection = none → E (.storage (.unknownCollection collection)))

include locked unknown

theorem Run.failsOnly_insert (d : Document) :
    FailsOnly E (outcome (Run.insert write collection d) run).1 := by
  rcases Run.outcome_insert write collection d run with ⟨_, _, _, _, ho⟩ | ⟨e, refusal, ho⟩
  · rw [ho]
    exact .ok _
  · rw [ho]
    exact refusal.failsOnly other locked unknown

theorem Run.failsOnly_update (id : Json) (patch : Document) :
    FailsOnly E (outcome (Run.update write collection id patch) run).1 := by
  rcases Run.outcome_update write collection id patch run with
    ⟨_, _, _, _, _, _, _, ho⟩ | ⟨e, refusal, ho⟩
  · rw [ho]
    exact .ok _
  · rw [ho]
    exact refusal.failsOnly other locked unknown

theorem Run.failsOnly_remove (id : Json) :
    FailsOnly E (outcome (Run.remove write collection id) run).1 := by
  rcases Run.outcome_remove write collection id run with
    ⟨_, _, _, _, _, _, _, ho⟩ | ⟨_, _, _, _, ho⟩ | ⟨e, refusal, ho⟩
  · rw [ho]
    exact .ok _
  · rw [ho]
    exact .ok _
  · rw [ho]
    exact refusal.failsOnly other locked unknown

theorem Run.failsOnly_removeEdges (v : Json) (which : EdgeMatch) :
    FailsOnly E (outcome (Run.removeEdges write collection v which) run).1 := by
  rcases Run.outcome_removeEdges write collection v which run with ⟨_, _, _, ho⟩ | ⟨e, refusal, ho⟩
  · rw [ho]
    exact .ok _
  · rw [ho]
    exact refusal.failsOnly other locked unknown

end write

end kind

mutual

/-- A statement that has locked what it writes to fails over a collection only if it names one that is not
there. -/
theorem Run.failsOnly_perform (other : ∀ e, e.isCollectionFault = false → E e) :
    ∀ (s : Statement) {run : Run},
    (∀ b ∈ s.parts, ∀ C, b.writes? = some C → C ∈ write) →
      (∀ b ∈ s.parts, ∀ C ∈ b.names, run.store.collection? C = none →
        E (.storage (.unknownCollection C))) →
      FailsOnly E (outcome (Run.perform write params s) run).1
  | .comment _, _, _, _ => by
      rw [Run.perform]
      exact .ok _
  | .insert var collection doc imports ends, run, locked, unknown => by
      rw [Run.perform]
      refine .look (outcome_body ..) (failsOnly_bodyOf other doc imports) fun d => ?_
      refine .look (outcome_withEnds ..) (failsOnly_endsOf other d ends) fun d => ?_
      refine .sequence (failsOnly_insert other ?_ ?_ d) fun _ _ _ => .ok _
      · exact locked _ List.mem_cons_self collection rfl
      · exact unknown _ List.mem_cons_self collection List.mem_cons_self
  | .update var collection id doc imports, run, locked, unknown => by
      rw [Run.perform]
      refine .look (outcome_body ..) (failsOnly_bodyOf other doc imports) fun d => ?_
      refine .look (outcome_value ..) (failsOnly_value other id) fun v => ?_
      refine .sequence (failsOnly_update other ?_ ?_ v d) fun _ _ _ => .ok _
      · exact locked _ List.mem_cons_self collection rfl
      · exact unknown _ List.mem_cons_self collection List.mem_cons_self
  | .remove var collection id, run, locked, unknown => by
      rw [Run.perform]
      refine .look (outcome_value ..) (failsOnly_value other id) fun v => ?_
      refine .sequence (failsOnly_remove other ?_ ?_ v) fun _ _ _ => .ok _
      · exact locked _ List.mem_cons_self collection rfl
      · exact unknown _ List.mem_cons_self collection List.mem_cons_self
  | .removeEdges collection endpoint which, run, locked, unknown => by
      rw [Run.perform]
      refine .look (outcome_value ..) (failsOnly_value other endpoint) fun v => ?_
      refine failsOnly_removeEdges other ?_ ?_ v which
      · exact locked _ List.mem_cons_self collection rfl
      · exact unknown _ List.mem_cons_self collection List.mem_cons_self
  | .bind name r, run, _, _ => by
      rw [Run.perform]
      exact .look (outcome_value ..) (failsOnly_value other r) fun _ => .ok _
  | .setResult name r, run, _, _ => by
      rw [Run.perform]
      exact .look (outcome_value ..) (failsOnly_value other r) fun _ => .ok _
  | .guarded condition body, run, locked, unknown => by
      rw [Run.perform]
      refine .look (outcome_value ..) (failsOnly_value other condition) fun v => ?_
      split
      · exact failsOnly_performAll other body locked unknown
      · exact .ok _
  | .assert check message, run, _, unknown => by
      rw [Run.perform, outcome_bind_of_ok (outcome_get run)]
      have look : FailsOnly E (check.violated run.store ⟨params, run.vars⟩) :=
        .violated (unknown _ List.mem_cons_self) (fun r _ => failsOnly_value other r)
          fun r _ _ _ => failsOnly_document other r
      refine .look (outcome_ofExcept ..) look fun b => ?_
      cases b with
      | true => exact failsOnly_fail other message
      | false => exact .ok _
  | .fail message, run, _, _ => by
      rw [Run.perform]
      exact failsOnly_fail other message

theorem Run.failsOnly_performAll (other : ∀ e, e.isCollectionFault = false → E e) :
    ∀ (ss : List Statement) {run : Run},
    (∀ b ∈ partsOf ss, ∀ C, b.writes? = some C → C ∈ write) →
      (∀ b ∈ partsOf ss, ∀ C ∈ b.names, run.store.collection? C = none →
        E (.storage (.unknownCollection C))) →
      FailsOnly E (outcome (Run.performAll write params ss) run).1
  | [], _, _, _ => by
      rw [Run.performAll]
      exact .ok _
  | s :: rest, run, locked, unknown => by
      rw [Run.performAll]
      refine .sequence (failsOnly_perform other s (fun b hb => locked b (List.mem_append_left _ hb))
        fun b hb => unknown b (List.mem_append_left _ hb)) fun _ run' ho => ?_
      refine failsOnly_performAll other rest (fun b hb => locked b (List.mem_append_right _ hb))
        fun b hb C hC absent => unknown b (List.mem_append_right _ hb) C hC ?_
      -- No collection comes or goes with a statement.
      have kinds := (PerformsAll.cons (performs_of_ok s ho) .nil).frame.kinds C
      rw [absent] at kinds
      exact Option.map_eq_none_iff.mp kinds.symm

end

end run

theorem Transaction.Covered.failsOnly {t : Transaction} (h : t.Covered) {db : Database} {E : Error → Prop}
    (other : ∀ e, e.isCollectionFault = false → E e)
    (unknown : ∀ C, C ∈ t.write ∨ C ∈ t.read → db.store.collection? C = none →
      E (.storage (.unknownCollection C))) : FailsOnly E (db.execute t).1 := by
  have only : FailsOnly E (outcome (Run.performAll t.write t.params t.statements) (Run.start db)).1 :=
    Run.failsOnly_performAll other t.statements (fun b hb => (h.parts b hb).writes)
      fun b hb C hC => unknown C (h.locked hb hC)
  intro e he
  rw [execute_eq] at he
  rcases ho : outcome (Run.performAll t.write t.params t.statements) (Run.start db) with ⟨e' | _, run⟩
  · rw [ho] at he only
    cases he
    exact only e rfl
  · rw [ho] at he
    cases he

theorem Transaction.Covered.not_lockFault {t : Transaction} (h : t.Covered) {db : Database} {e : Error}
    (he : (db.execute t).1 = .error e) : e.isLockFault = false :=
  h.failsOnly (fun _ => Error.not_lockFault) (fun _ _ _ => rfl) e he

/-- A transaction fails over a collection that is not there only if it has locked one. -/
theorem Transaction.Covered.unknown {t : Transaction} (h : t.Covered) {db : Database} {C : String}
    (he : (db.execute t).1 = .error (.storage (.unknownCollection C))) :
    (C ∈ t.write ∨ C ∈ t.read) ∧ db.store.collection? C = none := by
  refine h.failsOnly (E := fun e => ∀ C, e = .storage (.unknownCollection C) →
    (C ∈ t.write ∨ C ∈ t.read) ∧ db.store.collection? C = none) ?_ ?_ _ he C rfl
  · rintro e other C rfl
    cases other
  · rintro C locked absent C' same
    cases same
    exact ⟨locked, absent⟩

/-! ### Transactions -/

/-- Whatever calls a request has taken, the transaction it hands over has locked every collection that
it writes to for writing and every collection that its assertions look at, none in both ways; and on no
database does it fail because a collection is not registered for write. -/
theorem submitted_covered (m : Model) (number : Nat) (remembers : Bool) (names : List String)
    (calls : List Call) (call : Call) (t : Transaction)
    (h : submission? (((Request.start number remembers names).after m calls).call m call).1 = some t) :
    (∀ b ∈ partsOf t.statements, ∀ C, b.writes? = some C → C ∈ t.write) ∧
      (∀ check message, .assert check message ∈ partsOf t.statements →
        ∀ C ∈ check.collections, C ∈ t.write ∨ C ∈ t.read) ∧
      (∀ C, ¬ (C ∈ t.write ∧ C ∈ t.read)) ∧
      ∀ (db : Database) (C : String), (db.execute t).1 ≠ .error (.storage (.notWritable C)) := by
  have on := (Request.onCourse_start m number remembers names).after calls
  obtain ⟨c, _, _, _, _, course, rfl⟩ := ((call_turn m _ call).onCourse on).2 t h
  have covered := course.covers.transaction
  refine ⟨fun b hb => (covered.parts b hb).writes, fun check message hs =>
    (covered.parts _ hs).reads check message rfl, fun C hC => covered.disjoint C hC.1 hC.2, ?_⟩
  intro db C he
  cases covered.not_lockFault he

/-- A request that creates two persons and an edge between them, takes the first out again with its
edges, and has checks waiting for the end. -/
theorem submitted_covered_acquaintances :
    ∃ t, submission? (((Request.start 2 false ["new", "gone"]).after acquaintances [creation]).call
        acquaintances deletion).1 = some t ∧
      (∀ b ∈ partsOf t.statements, ∀ C, b.writes? = some C → C ∈ t.write) ∧
      (∀ check message, .assert check message ∈ partsOf t.statements →
        ∀ C ∈ check.collections, C ∈ t.write ∨ C ∈ t.read) ∧
      (∀ C, ¬ (C ∈ t.write ∧ C ∈ t.read)) ∧
      ∀ (db : Database) (C : String), (db.execute t).1 ≠ .error (.storage (.notWritable C)) := by
  have h : (submission? (((Request.start 2 false ["new", "gone"]).after acquaintances
    [creation]).call acquaintances deletion).1).isSome = true := by decide +kernel
  obtain ⟨t, ht⟩ := Option.isSome_iff_exists.mp h
  exact ⟨t, ht, submitted_covered _ _ _ _ _ _ t ht⟩

end DocGraph
