import DocGraph.Proofs.Checks
import DocGraph.Proofs.Updates

/-! # What the verdict of a check depends on

A check names the collections that it reads, and a transaction locks these for it. Most checks look at
nothing else (`Check.outward?` is none). The two that compare the targets of edges follow each edge that
leaves their source and ask whether there is a document at its other end, which may lie in any collection.
Main statement: stores that hold the same in the collections of a check, and that agree on which of the ids
at the far ends of these edges are documents, get the same verdict (`Check.violated_local`). -/

namespace DocGraph

variable {s s' : Store} {names : List String} {scope : Scope}

/-! ### Stores that agree -/

/-- Two stores have the same collections under some names. -/
def Store.AgreeOn (names : List String) (s s' : Store) : Prop :=
  ∀ C ∈ names, s.collection? C = s'.collection? C

theorem andThen_congr {α β : Type} {x : Except Error α} {f g : α → Except Error β}
    (h : ∀ a, x = .ok a → f a = g a) : x >>= f = x >>= g := by
  cases x with
  | error e => rfl
  | ok a => exact h a rfl

theorem mapM_congr {α β : Type} {l : List α} {f g : α → Except Error β} (h : ∀ a ∈ l, f a = g a) :
    l.mapM f = l.mapM g := by
  induction l with
  | nil => rfl
  | cons a l ih =>
      rw [List.mapM_cons, List.mapM_cons, h a List.mem_cons_self,
        ih fun b hb => h b (List.mem_cons_of_mem a hb)]

namespace Store.AgreeOn

theorem mono {more : List String} (h : AgreeOn more s s') (sub : names ⊆ more) : AgreeOn names s s' :=
  fun C hC => h C (sub hC)

theorem collection {C : String} (h : AgreeOn names s s') (mem : C ∈ names) :
    s.collection C = s'.collection C := by
  rw [Store.collection, Store.collection, h C mem]

theorem edgesAt (h : AgreeOn names s s') : s.edgesAt names = s'.edgesAt names := by
  funext field id
  rw [Store.edgesAt, Store.edgesAt, Store.rows, Store.rows, mapM_congr fun C hC => h.collection hC]

theorem lacksInbound (h : AgreeOn names s s') : s.lacksInbound names = s'.lacksInbound names := by
  funext id
  rw [Store.lacksInbound, Store.lacksInbound, h.edgesAt]

theorem isOrphan (h : AgreeOn names s s') : s.isOrphan names = s'.isOrphan names := by
  funext d
  rw [Store.isOrphan, Store.isOrphan, h.lacksInbound]

theorem hasOtherInbound (h : AgreeOn names s s') : s.hasOtherInbound names = s'.hasOtherInbound names := by
  funext e id
  rw [Store.hasOtherInbound, Store.hasOtherInbound, h.edgesAt]

end Store.AgreeOn

/-- A transaction leaves the collections that it has not locked for writing. -/
theorem Store.agreeOn_execute (db : Database) (t : Transaction) (names : List String)
    (unlocked : ∀ C ∈ names, C ∉ t.write) : AgreeOn names db.store (db.execute t).2.store := by
  rcases execute_store db t with same | ⟨run, ran, store⟩
  · rw [same]
    exact fun _ _ => rfl
  · rw [store]
    exact fun C hC => (ran.frame.outside C (unlocked C hC)).symm

theorem Store.document?_congr {i : String}
    (h : ∀ id, DocumentId.parse i = .ok id → s.collection? id.collection = s'.collection? id.collection) :
    s.document? i = s'.document? i := by
  unfold document?
  split
  · rename_i id parsed
    rw [h id parsed]
  · rfl

theorem Store.targets_congr {es : List Document}
    (h : ∀ e ∈ es, ∀ i, e.text? Field.target = some i → (s.document? i).isSome = (s'.document? i).isSome) :
    s.targets es = s'.targets es := by
  refine List.filterMap_congr fun e he => ?_
  cases target : e.text? Field.target with
  | none => rfl
  | some i => simp only [h e he i target]

/-! ### Checks -/

namespace Check

/-- The source of the edges that a check follows to their other ends, and the collections of these edges. -/
def outward? : Check → Option (Ref × List String)
  | duplicateTarget source collection => some (source, [collection])
  | sharedTarget source outbound _ => some (source, outbound)
  | _ => none

/-- A check follows an edge of a store from its source to an id. -/
def Follows (check : Check) (store : Store) (scope : Scope) (i : String) : Prop :=
  ∃ source names a C key e, check.outward? = some (source, names) ∧ source.text? scope = .ok (some a) ∧
    C ∈ names ∧ (key, e) ∈ store.documents C ∧ e.text? Field.source = some a ∧
    e.text? Field.target = some i

theorem Follows.of_mem_edgesAt {check : Check} {source : Ref} {a i : String} {es : List Document}
    {e : Document} (outward : check.outward? = some (source, names)) (text : source.text? scope = .ok (some a))
    (found : s.edgesAt names Field.source a = .ok es) (he : e ∈ es)
    (target : e.text? Field.target = some i) : check.Follows s scope i := by
  obtain ⟨⟨C, hC, key, stored⟩, leaves⟩ := (Store.mem_edgesAt found).mp he
  exact ⟨source, names, a, C, key, e, outward, text, hC, stored, leaves, target⟩

/-- A verdict is about the collections of a check and the ids that it follows edges to. -/
theorem violated_congr {check : Check} (agree : Store.AgreeOn check.collections s s')
    (ends : ∀ i, check.Follows s scope i → (s.document? i).isSome = (s'.document? i).isSome) :
    check.violated s scope = check.violated s' scope := by
  cases check with
  | missing id collections =>
      refine andThen_congr fun o _ => ?_
      cases o with
      | none => rfl
      | some i =>
          refine congrArg (· >>= _) (mapM_congr fun C hC => ?_)
          rw [agree.collection hC]
  | edgeExists source collection | selfLoop source collection =>
      have own : Store.AgreeOn [collection] s s' := agree
      rw [violated, violated, own.edgesAt]
  | duplicateKey candidate collection fields =>
      rw [violated, violated, agree.collection List.mem_cons_self]
  | duplicateTarget source collection =>
      refine andThen_congr fun o text => ?_
      cases o with
      | none => rfl
      | some a =>
          have own : Store.AgreeOn [collection] s s' := agree
          dsimp only
          rw [← own.edgesAt]
          refine andThen_congr fun es found => ?_
          rw [Store.targets_congr fun e he i target => ends i (.of_mem_edgesAt rfl text found he target)]
  | sharedTarget source outbound inbound =>
      refine andThen_congr fun o text => ?_
      cases o with
      | none => rfl
      | some a =>
          dsimp only
          rw [← (agree.mono (List.subset_append_left _ _)).edgesAt,
            ← (agree.mono (List.subset_append_right _ _)).hasOtherInbound]
          refine andThen_congr fun es found => ?_
          rw [Store.targets_congr fun e he i target => ends i (.of_mem_edgesAt rfl text found he target)]
  | orphanTarget targets inbound =>
      refine congrArg (· >>= _) (mapM_congr fun C hC => ?_)
      rw [agree.collection (List.mem_append_left _ hC),
        (agree.mono (List.subset_append_right _ _)).isOrphan]
  | missingInbound id collection inbound =>
      rw [violated, violated, agree.collection List.mem_cons_self,
        (agree.mono (List.subset_cons_self _ _)).lacksInbound]

/-- Two stores that hold the same in the collections that a check names get the same verdict, if the check
follows no edges to their other ends; and if it does, then as long as the stores agree on which of the ids
there are documents. -/
theorem violated_local (check : Check) (scope : Scope) (s s' : Store)
    (agree : Store.AgreeOn check.collections s s') :
    (check.outward? = none → check.violated s scope = check.violated s' scope) ∧
    ((∀ i, check.Follows s scope i → (s.document? i).isSome = (s'.document? i).isSome) →
      check.violated s scope = check.violated s' scope) := by
  refine ⟨fun inward => violated_congr agree ?_, violated_congr agree⟩
  rintro i ⟨_, _, _, _, _, _, outward, _⟩
  cases inward.symm.trans outward

end Check

/-! ### Persons and their pets -/

/-- Persons and the pets that they like, none of them twice. -/
def owners : Model where
  schema := .ofTypes [
    ⟨"Person", .object, [⟨"likes", .list (.named "Pet"), [⟨"distinct", []⟩]⟩], [], [], []⟩,
    ⟨"Pet", .object, [⟨"name", .named "String", []⟩], [], [], []⟩]
  settings := .default
  now := 0

/-- A person with three edges to one pet. -/
def kennel : Database :=
  ((Database.opened owners.schema).execute
    { write := ["LikesEdgeFromPerson", "Person", "Pet"], read := [],
      statements := .insert "_x0" "Person" (.param "_0") [] none :: .insert "_x1" "Pet" (.param "_0") [] none ::
        List.replicate 3 (.insert "_x2" "LikesEdgeFromPerson" (.param "_0") []
          (some ((Ref.doc "_x0").id, (Ref.doc "_x1").id))),
      params := [("_0", .obj [])] }).2

/-- Takes a document out of a collection, with a lock on that one only. -/
def Transaction.removal (C i : String) : Transaction where
  write := [C]
  read := []
  statements := [.remove "_x0" C (.param "_0")]
  params := [("_0", .str i)]

/-- The edges of the person are left when the pet goes. -/
def strays : Database :=
  (kennel.execute (.removal "Pet" "Pet/2")).2

/-- The parameter is the id of the person. -/
def petScope : Scope := ⟨[("_0", .str "Person/1")], []⟩

/-- The two checks that follow the edges of the person. -/
def petChecks : List Check :=
  [.duplicateTarget (.param "_0") "LikesEdgeFromPerson",
   .sharedTarget (.param "_0") ["LikesEdgeFromPerson"] ["LikesEdgeFromPerson"]]

theorem eq_ok_of_toOption {α : Type} {x : Except Error α} {a : α} (h : x.toOption = some a) : x = .ok a := by
  cases x with
  | error e => cases h
  | ok b => rw [Option.some.inj h]

theorem reachable_kennel : kennel.Reachable :=
  (Database.reachable_opened _).execute _

theorem Check.violated_local_kennel :
    (Check.selfLoop (.param "_0") "LikesEdgeFromPerson").violated kennel.store petScope =
      (Check.selfLoop (.param "_0") "LikesEdgeFromPerson").violated strays.store petScope ∧
    ∀ check ∈ petChecks, check.Follows kennel.store petScope "Pet/2" ∧
      check.violated kennel.store petScope =
        check.violated (kennel.execute (.removal "Person" "Person/1")).2.store petScope := by
  have edges : (kennel.store.documents "LikesEdgeFromPerson").any (fun e =>
        Document.text? e.2 Field.source == some "Person/1") = true ∧
      (kennel.store.documents "LikesEdgeFromPerson").all (fun e =>
        Document.text? e.2 Field.target == some "Pet/2") = true := by
    decide +kernel
  have outward : ∀ check ∈ petChecks, check.outward? = some (.param "_0", ["LikesEdgeFromPerson"]) := by
    decide
  have unlocked : ∀ check ∈ petChecks, ∀ C ∈ check.collections, C ∉ ["Person"] := by decide
  refine ⟨(violated_local _ petScope kennel.store _ (Store.agreeOn_execute kennel _ _ ?_)).1 rfl,
    fun check mem => ⟨?_, (violated_local check petScope kennel.store _
      (Store.agreeOn_execute kennel _ _ (unlocked check mem))).2 ?_⟩⟩
  · decide
  · obtain ⟨e, he, leaves⟩ := List.any_eq_true.mp edges.1
    exact ⟨_, _, "Person/1", _, e.1, e.2, outward check mem, rfl, List.mem_cons_self, he,
      beq_iff_eq.mp leaves, beq_iff_eq.mp (List.all_eq_true.mp edges.2 e he)⟩
  · rintro i ⟨_, _, _, C, key, e, same, _, hC, he, _, target⟩
    cases (outward check mem).symm.trans same
    rw [List.mem_singleton.mp hC] at he
    obtain rfl : "Pet/2" = i :=
      Option.some.inj ((beq_iff_eq.mp (List.all_eq_true.mp edges.2 _ he)).symm.trans target)
    rw [Store.document?_congr fun id parsed => ?_]
    rw [eq_of_parse parsed]
    exact Store.agreeOn_execute kennel _ ["Pet"] (by decide) _ (by decide)

/-- A root field that takes one of the edges out. -/
def untying : Call where
  now := 7
  isRoot := true
  selection := ⟨"untied", []⟩
  mutation := .deleteEdge "Person" "likes" (.str "LikesEdgeFromPerson/5")

/-- Whether the person has a pet twice depends on the pets, which are not among the collections of the check:
the same edges are refused while the pet is there and passed when it has gone. So the outcome of a request
that takes out one of the edges depends on a collection that it has not locked. -/
theorem violated_elsewhere :
    kennel.Reachable ∧ strays.Reachable ∧
    (∀ check ∈ petChecks, Store.AgreeOn check.collections kennel.store strays.store ∧
      check.violated kennel.store petScope = .ok true ∧ check.violated strays.store petScope = .ok false) ∧
    ∃ t e res, submission? ((Request.start 1 true ["untied"]).call owners untying).1 = some t ∧
      Store.AgreeOn (t.write ++ t.read) kennel.store strays.store ∧
      (kennel.execute t).1 = .error e ∧ (strays.execute t).1 = .ok res := by
  have verdicts : petChecks.all (fun check =>
      (check.violated kennel.store petScope).toOption == some true &&
        (check.violated strays.store petScope).toOption == some false) = true ∧
      (submission? ((Request.start 1 true ["untied"]).call owners untying).1).any (fun t =>
        (t.write ++ t.read).all (· != "Pet") && (kennel.execute t).1.toOption.isNone &&
          (strays.execute t).1.toOption.isSome) = true := by
    decide +kernel
  have unlocked : ∀ check ∈ petChecks, ∀ C ∈ check.collections, C ∉ ["Pet"] := by decide
  obtain ⟨checked, ran⟩ := verdicts
  refine ⟨reachable_kennel, reachable_kennel.execute _, fun check mem => ?_, ?_⟩
  · obtain ⟨refused, passed⟩ := Bool.and_eq_true_iff.mp (List.all_eq_true.mp checked check mem)
    exact ⟨Store.agreeOn_execute kennel _ _ (unlocked check mem), eq_ok_of_toOption (beq_iff_eq.mp refused),
      eq_ok_of_toOption (beq_iff_eq.mp passed)⟩
  · obtain ⟨t, submitted, ran⟩ := (Option.any_eq_true _ _).mp ran
    obtain ⟨ran, passed⟩ := Bool.and_eq_true_iff.mp ran
    obtain ⟨others, refused⟩ := Bool.and_eq_true_iff.mp ran
    have agree : Store.AgreeOn (t.write ++ t.read) kennel.store strays.store :=
      Store.agreeOn_execute kennel _ _ fun C hC => by
        simpa [Transaction.removal] using List.all_eq_true.mp others C hC
    obtain ⟨res, committed⟩ := Option.isSome_iff_exists.mp passed
    rcases failed : (kennel.execute t).1 with e | _
    · exact ⟨t, e, res, submitted, agree, failed, eq_ok_of_toOption committed⟩
    · rw [failed] at refused
      cases refused

end DocGraph
