import DocGraph.Proofs.Removal

/-! # Repeated deletions

A deletion that is committed leaves its collection without the document of the id, whatever the store was like
before (`Transaction.Removes.gone_of_committed`). Its script says neither when it was made nor for which
request, so a later request with the same mutation has the same script (`submits_again`). The main statement is
`deletion_idempotent`: the later request finds no document, is committed with null and changes nothing. -/

namespace DocGraph

variable {α β : Type} {m : Model} {c : Context}

open Synthesis

/-! ### Requests of another number -/

/-- What succeeds in a request succeeds likewise in a request of any other number. -/
def Numberless (x : Synthesis α) : Prop :=
  ∀ c number, Ensures x c fun a c' =>
    outcome x { c with number := number } = (.ok a, { c' with number := number })

namespace Numberless

theorem pure (a : α) : Numberless (Pure.pure a : Synthesis α) :=
  fun _ _ => .of_pure a rfl

theorem bind {x : Synthesis α} {f : α → Synthesis β} (hx : Numberless x) (hf : ∀ a, Numberless (f a)) :
    Numberless (x >>= f) := by
  refine fun c number => (hx c number).bind fun a c₁ h₁ => (hf a c₁ number).mono fun b c₂ h₂ => ?_
  rw [outcome_bind_of_ok h₁]
  exact h₂

/-- A change that neither reads nor sets the number. -/
theorem modify {f : Context → Context} (h : ∀ c number, f { c with number := number } = { f c with number }) :
    Numberless (modify f : Synthesis PUnit) := by
  intro c number a c' done
  cases done
  rw [outcome_modify, h]

theorem get_bind {f : Context → Synthesis α} (same : ∀ c number, f { c with number := number } = f c)
    (h : ∀ c, Numberless (f c)) : Numberless (get >>= f) := by
  refine fun c number => .get_bind fun a c' done => ?_
  rw [outcome_bind_of_ok (outcome_get _), same]
  exact h c c number a c' done

/-- The number is only read for the error of a closed request. -/
theorem ensureOpen : Numberless ensureOpen := by
  refine fun c number => .get_bind ?_
  by_cases isOpen : c.isOpen = true
  · rw [if_neg (by simpa using isOpen)]
    refine .of_pure _ ?_
    rw [Synthesis.ensureOpen, outcome_bind_of_ok (outcome_get _), if_neg (by simpa using isOpen)]
    rfl
  · rw [if_pos (by simpa using isOpen)]
    exact .of_throw _

theorem push (s : Statement) : Numberless (push s) :=
  modify fun _ _ => rfl

theorem lockWrite (C : String) : Numberless (lockWrite C) :=
  modify fun _ _ => rfl

theorem lockRead (C : String) : Numberless (lockRead C) := by
  refine modify fun c number => ?_
  by_cases locked : c.write.contains C = true
  · rw [if_pos locked, if_pos locked]
  · rw [if_neg locked, if_neg locked]

theorem freshVar : Numberless freshVar :=
  (get_bind (fun _ _ => rfl) fun _ => pure _).bind fun _ => (modify fun _ _ => rfl).bind fun _ => pure _

theorem freshParam (v : Json) : Numberless (freshParam v) := by
  refine get_bind (fun _ _ => rfl) fun c => (modify fun _ _ => rfl).bind fun _ => ?_
  refine get_bind (fun _ _ => rfl) fun c => ?_
  split
  · exact fun _ _ => .of_throw _
  · exact (modify fun _ _ => rfl).bind fun _ => pure _

theorem forget (id : Ref) : Numberless (forget id) := by
  refine modify fun c number => ?_
  have same : idKey { c with number := number } id = idKey c id := rfl
  rw [same]
  cases idKey c id with
  | literal text => rfl
  | place _ => rfl

theorem composes : Composes Numberless where
  pure := pure
  throw e _ _ := .of_throw e
  bind := bind

theorem deferChecks (type : String) (id : Ref) (guard? : Option Ref) :
    Numberless (m.deferChecks type id guard?) :=
  composes.deferChecks id guard? (fun C _ => lockRead C) (fun _ => modify fun _ _ => rfl)
    fun _ _ _ _ _ _ => trivial

theorem delete (type i : String) : Numberless (m.delete type (.str i) none) := by
  unfold Model.delete
  refine ensureOpen.bind fun _ => (composes.ofExcept _).bind fun t => (push _).bind fun _ => ?_
  refine (freshParam _).bind fun id => freshVar.bind fun var => (lockWrite _).bind fun _ => ?_
  refine (push _).bind fun _ => (composes.ofExcept _).bind fun touching => ?_
  refine (composes.forM fun C _ => lockWrite C).bind fun _ => ?_
  exact (push _).bind fun _ => (deferChecks _ _ _).bind fun _ => (forget _).bind fun _ => pure _

theorem deleteEdge (type field i : String) : Numberless (m.deleteEdge type field (.str i) none) := by
  unfold Model.deleteEdge
  refine ensureOpen.bind fun _ => (push _).bind fun _ => (freshParam _).bind fun id => ?_
  refine freshVar.bind fun var => (lockWrite _).bind fun _ => (push _).bind fun _ => ?_
  exact (deferChecks _ _ _).bind fun _ => pure _

end Numberless

/-! ### Requests at another time -/

namespace Model

theorem fieldAssertions_now (now : Int) (type : String) (id : Ref) (f : FieldDef) (rules : List Directive) :
    { m with now := now }.fieldAssertions type id f rules = m.fieldAssertions type id f rules := by
  induction rules with
  | nil => rfl
  | cons d rest ih => simp only [fieldAssertions, ih]

theorem typeAssertions_now (now : Int) (type : String) (id : Ref) (fields : List FieldDef) :
    { m with now := now }.typeAssertions type id fields = m.typeAssertions type id fields := by
  induction fields with
  | nil => rfl
  | cons f rest ih => simp only [typeAssertions, fieldAssertions_now, ih]

theorem deferChecks_now (now : Int) (type : String) (id : Ref) (guard? : Option Ref) :
    { m with now := now }.deferChecks type id guard? = m.deferChecks type id guard? := by
  simp only [deferChecks, typeAssertions_now]

theorem delete_now (now : Int) (type : String) (id : Input) (var? : Option String) :
    { m with now := now }.delete type id var? = m.delete type id var? := by
  simp only [delete, deferChecks_now]
  rfl

theorem deleteEdge_now (now : Int) (type field : String) (id : Input) (var? : Option String) :
    { m with now := now }.deleteEdge type field id var? = m.deleteEdge type field id var? := by
  simp only [deleteEdge, deferChecks_now]

end Model

/-! ### Scripts of repeated deletions -/

/-- The collection and the id of a deletion, if the id is given as a text. -/
def Mutation.deletion? : Mutation → Option (String × String)
  | .delete type (.str i) => some (type, i)
  | .deleteEdge type field (.str i) => some (edgeCollection type field, i)
  | _ => none

variable {number : Nat} {remembers : Bool} {call : Call} {t : Transaction} {C i : String}

theorem Mutation.cases_of_deletion? {mutation : Mutation} (h : mutation.deletion? = some (C, i)) :
    mutation = .delete C (.str i) ∨
      ∃ type field, mutation = .deleteEdge type field (.str i) ∧ C = edgeCollection type field := by
  unfold deletion? at h
  split at h
  · cases h
    exact .inl rfl
  · cases h
    exact .inr ⟨_, _, rfl, rfl⟩
  · cases h

/-- The script of a deletion is that of a removal. -/
theorem Call.synthesis_removes (deletes : call.mutation.deletion? = some (C, i)) :
    Ensures (call.synthesis m) (Context.empty number remembers) fun var c =>
      ∃ cleared?, (c.answer call.name var).transaction.Removes call.name C i cleared? c.deferred := by
  unfold Call.synthesis
  rcases Mutation.cases_of_deletion? deletes with h | ⟨type, field, h, rfl⟩
  · rw [h]
    refine (delete_removes call.name).mono fun var c => ?_
    rintro ⟨u, touching, _, _, removes⟩
    exact ⟨_, removes⟩
  · rw [h]
    exact (deleteEdge_removes call.name).mono fun var c removes => ⟨_, removes⟩

/-- What a deletion adds depends neither on the number of the request nor on the time. -/
theorem Call.outcome_synthesis_again {var : String} (number' : Nat) (now : Int)
    (deletes : call.mutation.deletion? = some (C, i))
    (synthesis : outcome (call.synthesis m) (Context.empty number remembers) = (.ok var, c)) :
    outcome ({ call with now := now }.synthesis m) (Context.empty number' remembers) =
      (.ok var, { c with number := number' }) := by
  unfold Call.synthesis at synthesis ⊢
  rcases Mutation.cases_of_deletion? deletes with h | ⟨type, field, h, rfl⟩
  · simp only [h, Mutation.synthesize, Model.delete_now] at synthesis ⊢
    exact Numberless.delete _ _ _ number' _ _ synthesis
  · simp only [h, Mutation.synthesize, Model.deleteEdge_now] at synthesis ⊢
    exact Numberless.deleteEdge _ _ _ _ number' _ _ synthesis

/-- The one root field of a request hands the transaction over. -/
theorem call_start (call : Call) {var : String} (root : call.isRoot = true)
    (synthesis : outcome (call.synthesis m) (Context.empty number remembers) = (.ok var, c))
    (isOpen : c.isOpen = true) :
    (Request.start number remembers [call.name]).call m call =
      (.ok (.submits call.name (c.answer call.name var).transaction), ⟨number, none, [], none⟩) := by
  have last : ([call.name].filter fun a => a != call.name) = [] := by simp
  rw [call_eq m call rfl rfl, if_neg fun h => h.2 List.mem_cons_self,
    synthesis]
  dsimp only
  unfold Request.taking
  dsimp only [Request.start]
  rw [if_neg (by simp [root]), if_neg (by simp), if_pos isOpen]

/-- A deletion has the same script in a later request. -/
theorem submits_again (number' : Nat) (now : Int) (root : call.isRoot = true)
    (deletes : call.mutation.deletion? = some (C, i))
    (submitted : submission? ((Request.start number remembers [call.name]).call m call).1 = some t) :
    (Request.start number' remembers [call.name]).call m { call with now := now } =
        (.ok (.submits call.name t), ⟨number', none, [], none⟩) ∧
      ∃ cleared? deferred, t.Removes call.name C i cleared? deferred ∧
        ∀ b ∈ partsOf (finale deferred), b.IsQuiet := by
  obtain ⟨var, c, synthesis, rfl⟩ := exists_of_submission_start root submitted
  have beginning : Course m .any number remembers (Context.empty number remembers) [] [] := .start
  obtain ⟨_, course, _, _⟩ := beginning.synthesis_ok (call.mutation.meets_any _) synthesis
  obtain ⟨cleared?, removes⟩ := Call.synthesis_removes deletes _ _ synthesis
  have again := call_start { call with now := now } root
    (Call.outcome_synthesis_again number' now deletes synthesis) course.isOpen
  exact ⟨again, cleared?, c.deferred, removes, course.quiet⟩

/-! ### What a removal leaves -/

variable {write : NameSet} {params : Record Json} {ss : List Statement} {run run' : Run}

/-- A key that is missing in a collection stays so while no document is put there. -/
theorem PerformsAll.missing {coll : Collection} (p : PerformsAll write params ss run run')
    (untargeted : ∀ b ∈ partsOf ss, b.target? ≠ some C) (there : run.store.collection? C = some coll) :
    ∃ coll', run'.store.collection? C = some coll' ∧ ∀ key, coll.get? key = none → coll'.get? key = none := by
  have kind := p.frame.kinds C
  rw [there, Option.map_some] at kind
  obtain ⟨coll', there', _⟩ := Option.map_eq_some_iff.mp kind
  refine ⟨coll', there', fun key missing => ?_⟩
  rcases found : coll'.get? key with _ | d
  · rfl
  · have entry : (key, d) ∈ run'.store.documents C := by
      rw [Store.documents_eq there']
      exact NameMap.mem_of_get? found
    have before := p.mem_documents untargeted entry
    rw [Store.documents_eq there] at before
    have held : (coll.get? key).isSome = true := NameMap.isSome_get?_of_mem before
    rw [missing] at held
    cases held

/-- After a removal the collection is there, and the document is not. -/
theorem Performs.missing {var : String} {id : Ref} {v : Json}
    (p : Performs write params (.remove var C id) run run') (value : id.value (run.scope params) = .ok v) :
    ∃ coll, run'.store.collection? C = some coll ∧ ∀ key, Run.keyOf v = .ok key → coll.get? key = none := by
  cases p with
  | @miss _ _ _ _ coll _ value' _ there gone =>
      cases value.symm.trans value'
      exact ⟨coll, there, gone⟩
  | @remove _ _ _ key _ coll d _ value' _ there keyed found =>
      cases value.symm.trans value'
      refine ⟨coll.erase key, ?_, fun key' keyed' => ?_⟩
      · rw [Store.collection?_set, if_pos rfl]
      · cases keyed.symm.trans keyed'
        exact (NameMap.get?_erase ..).trans (if_pos rfl)

theorem target?_clearing {var : String} {cleared? : Option (List String)} {b : Statement}
    (h : b ∈ partsOf (cleared?.map (clearing var)).toList) : b.target? = none := by
  obtain ⟨s, hs, hb⟩ := mem_partsOf.mp h
  obtain ⟨collections, _, rfl⟩ := Option.map_eq_some_iff.mp (Option.mem_toList.mp hs)
  obtain ⟨s, hs, hb⟩ := mem_partsOf.mp hb
  obtain ⟨D, _, rfl⟩ := List.mem_map.mp hs
  rw [List.mem_singleton.mp hb]
  rfl

/-- A removal that is committed leaves its collection without the document, whatever the store was like. -/
theorem Transaction.Removes.gone_of_committed {name : String} {cleared? : Option (List String)}
    {deferred : List Statement} {db : Database} {res : Record Json}
    (h : t.Removes name C i cleared? deferred) (quiet : ∀ b ∈ partsOf (finale deferred), b.IsQuiet)
    (committed : (db.execute t).1 = .ok res) :
    ∃ coll, (db.execute t).2.store.collection? C = some coll ∧
      ∀ key, Run.keyOf (.str i) = .ok key → coll.get? key = none := by
  obtain ⟨text, script⟩ := h.script
  obtain ⟨final, p, executed, rfl⟩ := exists_run_of_execute_ok committed
  have value : (Ref.param (paramName 0)).value ((Run.start db).scope t.params) = .ok (.str i) := by
    simp [Ref.value, Run.scope, h.id]
  rw [script] at p
  rw [executed]
  cases p with
  | cons remark p =>
      cases remark
      cases p with
      | cons removal p =>
          obtain ⟨run, p₁, p₂⟩ := performsAll_append.mp p
          obtain ⟨_, _, _, store, _⟩ := p₂.answered quiet
          obtain ⟨coll, there, gone⟩ := removal.missing value
          have untargeted : ∀ b ∈ partsOf (cleared?.map (clearing (varName 0))).toList, b.target? ≠ some C :=
            fun b hb same => by cases (target?_clearing hb).symm.trans same
          obtain ⟨coll', there', still⟩ := p₁.missing untargeted there
          rw [← store] at there'
          exact ⟨coll', there', fun key keyed => still key (gone key keyed)⟩

/-! ### Idempotence -/

/-- The transaction of a request is committed without a change, and the field of a name gets null. -/
def Request.FindsNothing (r : Request) (t : Transaction) (name : String) (db : Database) : Prop :=
  db.execute t = (.ok [(name, .null)], db) ∧ (r.finish (db.execute t).1).result? name = some (.ok .null)

theorem Transaction.Removes.findsNothing {name : String} {cleared? : Option (List String)}
    {deferred : List Statement} {db : Database} {coll : Collection} {r : Request}
    (h : t.Removes name C i cleared? deferred) (running : r.outcome = none)
    (there : db.store.collection? C = some coll)
    (gone : ∀ key, Run.keyOf (.str i) = .ok key → coll.get? key = none) : r.FindsNothing t name db := by
  have executed := h.execute_missing there gone
  refine ⟨executed, ?_⟩
  rw [executed, Request.finish, running]
  simp [Request.result?, Record.get?, bind, Except.bind, pure, Except.pure]

/-- A deletion by an id that is sent alone has the same script in every later request. It is committed with
null and changes nothing wherever the collection is there without the document, and so in particular after it
was committed before, whatever directives there are and whatever else is stored. -/
theorem deletion_idempotent (m : Model) (number number' : Nat) (remembers : Bool) (call : Call) (now : Int)
    (C i : String) (t : Transaction) (root : call.isRoot = true)
    (deletes : call.mutation.deletion? = some (C, i))
    (submitted : submission? ((Request.start number remembers [call.name]).call m call).1 = some t) :
    ∃ r, (Request.start number' remembers [call.name]).call m { call with now := now } =
        (.ok (.submits call.name t), r) ∧
      (∀ (db : Database) coll, db.store.collection? C = some coll →
        (∀ key, Run.keyOf (.str i) = .ok key → coll.get? key = none) → r.FindsNothing t call.name db) ∧
      ∀ (db : Database) res, (db.execute t).1 = .ok res → r.FindsNothing t call.name (db.execute t).2 := by
  obtain ⟨again, cleared?, deferred, removes, quiet⟩ := submits_again number' now root deletes submitted
  refine ⟨_, again, fun db coll there gone => removes.findsNothing rfl there gone, fun db res committed => ?_⟩
  obtain ⟨coll, there, gone⟩ := removes.gone_of_committed quiet committed
  exact removes.findsNothing rfl there gone

/-- Persons and their pets, each of which has to have an owner. -/
def wards : Model where
  schema := .ofTypes [
    ⟨"Person", .object, [⟨"owns", .list (.named "Pet"), [⟨"distinct", []⟩, ⟨"requiredForTarget", []⟩]⟩], [], [],
      []⟩,
    ⟨"Pet", .object, [⟨"name", .named "String", []⟩], [], [], []⟩]
  settings := .default
  now := 0

/-- Two persons and a pet, and if there is an edge, it is from the second person to the pet. -/
def shelter (owned : Bool) : Database :=
  match Database.empty.setup wards.schema false with
  | .ok db => (db.execute
      { write := ["OwnsEdgeFromPerson", "Person", "Pet"], read := [],
        statements := [
          .insert "_x0" "Person" (.param "_0") [] none, .insert "_x1" "Person" (.param "_0") [] none,
          .insert "_x2" "Pet" (.param "_0") [] none] ++
            if owned then [.insert "_x3" "OwnsEdgeFromPerson" (.param "_0") []
              (some ((Ref.doc "_x1").id, (Ref.doc "_x2").id))]
            else [],
        params := [("_0", .obj [])] }).2
  | .error _ => Database.empty

/-- A root field that takes an edge out. -/
def releasing (i : String) : Call where
  now := 7
  isRoot := true
  selection := ⟨"released", []⟩
  mutation := .deleteEdge "Person" "owns" (.str i)

/-- A person is deleted twice. Where a pet has no owner, no person can be deleted any more, but a person and an
edge that are not there can. -/
theorem deletion_idempotent_shelter :
    (∃ t r, submission? ((Request.start 1 true ["left"]).call wards (leaving "Person/1")).1 = some t ∧
      Outcome.id? "left" ((shelter true).execute t).1 = some "Person/1" ∧
      ((shelter false).execute t).1.toOption = none ∧
      (Request.start 2 true ["left"]).call wards { leaving "Person/1" with now := 8 } =
        (.ok (.submits "left" t), r) ∧ r.FindsNothing t "left" ((shelter true).execute t).2) ∧
    (∃ t r, (Request.start 2 true ["left"]).call wards (leaving "Person/9") = (.ok (.submits "left" t), r) ∧
      r.FindsNothing t "left" (shelter false)) ∧
    ∃ t r, (Request.start 2 true ["released"]).call wards (releasing "OwnsEdgeFromPerson/9") =
      (.ok (.submits "released" t), r) ∧ r.FindsNothing t "released" (shelter false) := by
  have ran : (submission? ((Request.start 1 true ["left"]).call wards (leaving "Person/1")).1).any (fun t =>
        Outcome.id? "left" ((shelter true).execute t).1 == some "Person/1" &&
          ((shelter false).execute t).1.toOption.isNone) = true ∧
      (submission? ((Request.start 1 true ["left"]).call wards (leaving "Person/9")).1).isSome = true ∧
      (submission? ((Request.start 1 true ["released"]).call wards
        (releasing "OwnsEdgeFromPerson/9")).1).isSome = true ∧
      ((shelter false).store.collection? "Person").any (fun coll => (coll.get? "9").isNone) = true ∧
      ((shelter false).store.collection? "OwnsEdgeFromPerson").any (fun coll => (coll.get? "9").isNone) =
        true := by
    decide +kernel
  obtain ⟨ran, missing, unowned, persons, edges⟩ := ran
  have nine : ∀ i ∈ ["Person/9", "OwnsEdgeFromPerson/9"], ∀ key, Run.keyOf (.str i) = .ok key → key = "9" := by
    intro i mem key keyed
    obtain ⟨d, parsed, rfl⟩ := exists_of_keyOf keyed
    rw [eq_of_parse parsed]
    clear keyed parsed
    revert i
    decide
  refine ⟨?_, ?_, ?_⟩
  · obtain ⟨t, submitted, ok⟩ := (Option.any_eq_true _ _).mp ran
    obtain ⟨removed, refused⟩ := Bool.and_eq_true_iff.mp ok
    obtain ⟨res, _, committed, _⟩ := exists_of_id? (beq_iff_eq.mp removed)
    obtain ⟨r, again, _, repeated⟩ :=
      deletion_idempotent wards 1 2 true (leaving "Person/1") 8 "Person" "Person/1" t rfl rfl submitted
    exact ⟨t, r, submitted, beq_iff_eq.mp removed, Option.isNone_iff_eq_none.mp refused, again,
      repeated _ _ committed⟩
  · obtain ⟨t, submitted⟩ := Option.isSome_iff_exists.mp missing
    obtain ⟨coll, there, gone⟩ := (Option.any_eq_true _ _).mp persons
    obtain ⟨r, again, missed, _⟩ :=
      deletion_idempotent wards 1 2 true (leaving "Person/9") 7 "Person" "Person/9" t rfl rfl submitted
    refine ⟨t, r, again, missed _ coll there fun key keyed => ?_⟩
    rw [nine _ (by decide) key keyed]
    exact Option.isNone_iff_eq_none.mp gone
  · obtain ⟨t, submitted⟩ := Option.isSome_iff_exists.mp unowned
    obtain ⟨coll, there, gone⟩ := (Option.any_eq_true _ _).mp edges
    obtain ⟨r, again, missed, _⟩ := deletion_idempotent wards 1 2 true (releasing "OwnsEdgeFromPerson/9") 7
      "OwnsEdgeFromPerson" "OwnsEdgeFromPerson/9" t rfl rfl submitted
    refine ⟨t, r, again, missed _ coll there fun key keyed => ?_⟩
    rw [nine _ (by decide) key keyed]
    exact Option.isNone_iff_eq_none.mp gone

end DocGraph
