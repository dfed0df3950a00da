import DocGraph.Proofs.Checks
import DocGraph.Proofs.Engines
import DocGraph.Proofs.Paging

/-! # The end of a list

A page tells whether the list goes on after it by counting the rows after its last document. What is counted
is settled by the content of the page alone (`Session.outcome_isLast`), whatever id the page was asked for
after. For a page with a document that is the right place to look from; a page without one forgets where it
was asked to start, and all documents that meet the filter are counted. -/

namespace DocGraph

variable {s s' : Session} {names : List String} {conditions : List Condition}

/-! ### Pages that are given -/

/-- Rows are read from collections that are there. -/
theorem Store.isSome_of_rows {store : Store} {rows : List Document} (read : store.rows names = .ok rows) :
    ∀ C ∈ names, (store.collection? C).isSome = true := by
  obtain ⟨cs, found, _⟩ := exists_of_map_ok read
  intro C hC
  obtain ⟨c, there⟩ := exists_of_mapM_ok found hC
  rw [Store.collection_eq_ok.mp there]
  rfl

/-- The rows of a page: of the documents that meet the conditions those after an id, in order of their ids
and up to a limit. -/
def Store.pageRows (store : Store) (names : List String) (conditions : List Condition) (args : ListArgs) :
    List Document :=
  Store.limited (Store.sortedById
    (Store.rowsAfter (store.matching names conditions) (some (args.after.getD "")))) args.first

/-- A page that is given has been read from collections that are there, and nothing has changed. -/
theorem Session.page_of_ok {args : ListArgs} {type : String} {p : Page} (real : s.engine.nextRows = none)
    (asked : outcome (Session.page args type) s = (.ok p, s')) :
    s' = s ∧ ∃ names conditions, s.model.schema.possibleCollections type = .ok names ∧
      s.model.schema.filterConditions type documentRow args.filter = .ok conditions ∧
      (∀ C ∈ names, (s.engine.database.store.collection? C).isSome = true) ∧
      p = ⟨s.engine.database.store.pageRows names conditions args, conditions, names⟩ := by
  unfold Session.page at asked
  rw [outcome_bind_of_ok (outcome_get s)] at asked
  rcases made : s.model.schema.listQuery args type with e | ⟨q, p₀⟩
  · rw [made] at asked
    cases asked
  · rw [made] at asked
    have asked : outcome (Session.documents q >>= fun rows => pure { p₀ with content := rows }) s =
        (.ok p, s') := asked
    obtain ⟨names, possible, made⟩ := exists_of_andThen_ok made
    obtain ⟨conditions, accepted, made⟩ := exists_of_andThen_ok made
    cases made
    rcases read : s.engine.database.store.rows names with e | rows
    · have failed : outcome (Session.query { ReadQuery.ofSource (.collections names) documentRow with
          conditions := conditions, after := some (args.after.getD ""), sortById := true,
          limit := args.first }) s = (.error e, s) := by
        rw [Session.outcome_query real]
        simp only [Store.answer, ReadQuery.ofSource, Store.sourceRows, read]
        rfl
      unfold Session.documents at asked
      rw [outcome_bind_of_error (outcome_bind_of_error failed _)] at asked
      cases asked
    · have there := Store.isSome_of_rows read
      cases (Store.rows_eq there).symm.trans read
      have answered : s.engine.database.store.answer
          { ReadQuery.ofSource (.collections names) documentRow with
            conditions := conditions, after := some (args.after.getD ""), sortById := true,
            limit := args.first } =
          .ok ((s.engine.database.store.pageRows names conditions args).map .obj) := by
        simp only [Store.answer, ReadQuery.ofSource, Store.sourceRows, read, if_true]
        rfl
      rw [outcome_bind_of_ok (Session.outcome_documents real answered)] at asked
      cases asked
      exact ⟨rfl, names, conditions, possible, accepted, there, rfl⟩

/-! ### What is counted -/

/-- A page says that it is the last if no row that meets its conditions comes after its last document. -/
theorem Session.outcome_isLast {p : Page} (real : s.engine.nextRows = none)
    (there : ∀ C ∈ p.collections, (s.engine.database.store.collection? C).isSome = true) :
    outcome (Session.isLast p) s =
      (.ok ((Store.rowsAfter (s.engine.database.store.matching p.collections p.conditions)
        (p.content.getLast?.bind fun d => d.text? Field.id)).length == 0), s) := by
  have rows : s.engine.database.store.rows p.collections = _ := Store.rows_eq there
  have counted : outcome (Session.count p.restQuery) s =
      (.ok (Store.rowsAfter (s.engine.database.store.matching p.collections p.conditions)
        (p.content.getLast?.bind fun d => d.text? Field.id)).length, s) := by
    refine Session.outcome_count real ?_
    simp only [Store.answer, Page.restQuery, Page.totalQuery, ReadQuery.ofSource, Store.sourceRows, rows,
      bind, Except.bind, Store.limited]
    rfl
  unfold Session.isLast
  exact outcome_bind_of_ok counted _

theorem Store.mem_of_mem_limited {rows : List Document} {d : Document} :
    ∀ {limit : Option Nat}, d ∈ Store.limited rows limit → d ∈ rows
  | none, hd => hd
  | some _, hd => List.mem_of_mem_take hd

/-- A limit of one row or more leaves something of what is there. -/
theorem Store.eq_nil_of_limited {rows : List Document} {limit : Option Nat}
    (size : ∀ n, limit = some n → 1 ≤ n) (empty : Store.limited rows limit = []) : rows = [] := by
  cases limit with
  | none => exact empty
  | some n =>
      rcases List.take_eq_nil_iff.mp empty with zero | nothing
      · have := size n rfl
        omega
      · exact nothing

theorem Store.mem_matching_of_pageRows {store : Store} {args : ListArgs} {d : Document}
    (hd : d ∈ store.pageRows names conditions args) : d ∈ store.matching names conditions := by
  have later := (perm_sortedById _).mem_iff.mp (Store.mem_of_mem_limited hd)
  exact (List.mem_filter.mp later).1

/-- A page is empty only where no row comes after the id that it was asked for after. -/
theorem Store.rowsAfter_of_pageRows {store : Store} {args : ListArgs}
    (size : ∀ n, args.first = some n → 1 ≤ n) (empty : store.pageRows names conditions args = []) :
    Store.rowsAfter (store.matching names conditions) (some (args.after.getD "")) = [] := by
  have nothing := Store.eq_nil_of_limited size empty
  have perm := perm_sortedById
    (Store.rowsAfter (store.matching names conditions) (some (args.after.getD "")))
  rw [nothing] at perm
  exact perm.symm.eq_nil

/-- No row is left after an id if none of the rows has a greater one. -/
theorem rowsAfter_eq_nil_iff {rows : List Document} (ids : HaveIds rows) {i : String} :
    Store.rowsAfter rows (some i) = [] ↔ ∀ d ∈ rows, ¬ i < d.idText := by
  rw [Session.rowsAfter_eq ids, Session.rest, List.filter_eq_nil_iff]
  simp

/-! ### The end of a list -/

/-- What a page says about the end of the list, in every session that can be reached. A page with documents
says that it is the last exactly if no document of which the filter is true has a greater id than its last
document. A page without documents is past the end: no document of which the filter is true has a greater id
than the one that it was asked for after. Yet it says that it is the last only if the filter is true of no
document at all. -/
theorem isLast_of_page (m : Model) (kind : EngineKind) (s s' : Session) (args : ListArgs) (type : String)
    (p : Page) (reachable : Session.Reachable m kind s) (size : ∀ n, args.first = some n → 1 ≤ n)
    (asked : outcome (Session.page args type) s = (.ok p, s')) :
    s' = s ∧ ∃ t names conditions last, m.schema.typeDef type = .ok t ∧
      m.schema.possibleCollections type = .ok names ∧
      m.schema.filterConditions type documentRow args.filter = .ok conditions ∧
      outcome (Session.isLast p) s = (.ok last, s) ∧
      (∀ d, p.content.getLast? = some d →
        (last = true ↔ ∀ e ∈ s.engine.database.store.meeting names t args.filter, ¬ d.Precedes e)) ∧
      (p.content = [] →
        (∀ e ∈ s.engine.database.store.meeting names t args.filter, ¬ args.after.getD "" < e.idText) ∧
        (last = true ↔ s.engine.database.store.meeting names t args.filter = [])) := by
  have real := reachable.nextRows
  obtain ⟨rfl, names, conditions, possible, accepted, there, rfl⟩ := Session.page_of_ok real asked
  have ids := reachable.database.haveIds names conditions
  rw [reachable.schema] at possible accepted
  obtain ⟨t, found⟩ := Schema.exists_typeDef_of_possibleCollections possible
  refine ⟨rfl, t, names, conditions, _, found, possible, accepted, Session.outcome_isLast real there, ?_⟩
  rw [← Store.matching_eq_meeting found accepted]
  constructor
  · intro d last
    have mem := Store.mem_matching_of_pageRows (List.mem_of_getLast? last)
    have id : d.text? Field.id = some d.idText := Document.read_eq_str.mp (ids d mem)
    dsimp only
    rw [last, Option.bind_some, id, beq_iff_eq, List.length_eq_zero_iff, rowsAfter_eq_nil_iff ids]
    refine forall₂_congr fun e he => ?_
    rw [precedes_iff (ids d mem) (ids e he)]
  · intro empty
    have past := Store.rowsAfter_of_pageRows size empty
    refine ⟨(rowsAfter_eq_nil_iff ids).mp past, ?_⟩
    dsimp only at empty ⊢
    rw [empty, beq_iff_eq, List.length_eq_zero_iff]
    rfl

/-- An angler has a name. -/
def angler : TypeDef :=
  ⟨"Angler", .object, [⟨"name", .named "String", []⟩], [], [], []⟩

def anglers : Model where
  schema := .ofTypes [angler]
  settings := .default
  now := 0

/-- Two anglers. -/
def angling : Option Session :=
  Session.after? anglers [(Mutation.create "Angler" [("name", .str "Ann")]).request,
    (Mutation.create "Angler" [("name", .str "Ben")]).request]

/-- Those whose name begins with an A. -/
def nameWithA : Json :=
  .obj [("name", .obj [("_like", .str "A%")])]

/-- The ids on a page, and whether it says that it is the last. -/
def Session.pageIds (s : Session) (args : ListArgs) (type : String) : Option (List String × Bool) :=
  (outcome (Session.page args type) s).1.toOption.bind fun p =>
    (outcome (Session.isLast p) s).1.toOption.map fun last => (p.content.map Document.idText, last)

theorem Session.exists_of_pageIds {args : ListArgs} {type : String} {ids : List String} {last : Bool}
    (real : s.engine.nextRows = none) (read : s.pageIds args type = some (ids, last)) :
    ∃ p, outcome (Session.page args type) s = (.ok p, s) ∧ p.content.map Document.idText = ids ∧
      outcome (Session.isLast p) s = (.ok last, s) := by
  unfold Session.pageIds at read
  obtain ⟨p, given, read⟩ := Option.bind_eq_some_iff.mp read
  obtain ⟨_, said, same⟩ := Option.map_eq_some_iff.mp read
  obtain ⟨content, rfl⟩ := Prod.mk.inj same
  rcases asked : outcome (Session.page args type) s with ⟨e | p', s'⟩
  · rw [asked] at given
    cases given
  · rw [asked] at given
    cases given
    obtain ⟨rfl, names, conditions, _, _, there, rfl⟩ := Session.page_of_ok real asked
    rw [Session.outcome_isLast real there] at said
    cases said
    exact ⟨_, rfl, content, Session.outcome_isLast real there⟩

theorem isLast_of_page_anglers :
    ∃ s p d, Session.Reachable anglers .plain s ∧
      outcome (Session.page ⟨some nameWithA, some 1, none⟩ "Angler") s = (.ok p, s) ∧
      p.content.getLast? = some d ∧ d.idText = "Angler/1" ∧
      outcome (Session.isLast p) s = (.ok true, s) ∧
      (∀ e ∈ s.engine.database.store.meeting ["Angler"] angler (some nameWithA), ¬ d.Precedes e) ∧
      (s.engine.database.store.meeting ["Angler"] angler none).map Document.idText =
        ["Angler/1", "Angler/2"] := by
  have read : (angling.bind fun s =>
      (s.pageIds ⟨some nameWithA, some 1, none⟩ "Angler").map fun page =>
        (page, (s.engine.database.store.meeting ["Angler"] angler none).map Document.idText)) =
      some ((["Angler/1"], true), ["Angler/1", "Angler/2"]) := by
    decide +kernel
  obtain ⟨s, made, read⟩ := Option.bind_eq_some_iff.mp read
  obtain ⟨page, read, same⟩ := Option.map_eq_some_iff.mp read
  obtain ⟨rfl, all⟩ := Prod.mk.inj same
  have reachable := Session.reachable_of_after made
  obtain ⟨p, asked, content, said⟩ := Session.exists_of_pageIds reachable.nextRows read
  obtain ⟨d, one, id⟩ := List.map_eq_singleton_iff.mp content
  have full : p.content.getLast? = some d := by
    rw [one]
    rfl
  obtain ⟨_, t, names, conditions, last, found, possible, _, said', ends, _⟩ :=
    isLast_of_page anglers .plain s s ⟨some nameWithA, some 1, none⟩ "Angler" p reachable
      (fun n one => by cases one; exact Nat.le_refl 1) asked
  cases (show anglers.schema.typeDef "Angler" = .ok angler by rfl).symm.trans found
  cases (show anglers.schema.possibleCollections "Angler" = .ok ["Angler"] by rfl).symm.trans possible
  cases said.symm.trans said'
  exact ⟨s, p, d, reachable, asked, full, id, said, (ends d full).mp rfl, all⟩

/-- A page that is asked for after the last angler is empty, and yet it does not say that it is the last. -/
theorem isLast_forgets_start :
    ∃ s p, Session.Reachable anglers .plain s ∧
      outcome (Session.page ⟨none, some 2, some "Angler/2"⟩ "Angler") s = (.ok p, s) ∧ p.content = [] ∧
      (∀ e ∈ s.engine.database.store.meeting ["Angler"] angler none, ¬ "Angler/2" < e.idText) ∧
      outcome (Session.isLast p) s = (.ok false, s) := by
  have read : (angling.bind fun s => (s.pageIds ⟨none, some 2, some "Angler/2"⟩ "Angler").map fun page =>
      (page, (s.engine.database.store.meeting ["Angler"] angler none).all fun e =>
        !decide ("Angler/2" < e.idText))) =
      some (([], false), true) := by
    decide +kernel
  obtain ⟨s, made, read⟩ := Option.bind_eq_some_iff.mp read
  obtain ⟨page, read, same⟩ := Option.map_eq_some_iff.mp read
  obtain ⟨rfl, past⟩ := Prod.mk.inj same
  have reachable := Session.reachable_of_after made
  obtain ⟨p, asked, content, said⟩ := Session.exists_of_pageIds reachable.nextRows read
  refine ⟨s, p, reachable, asked, List.map_eq_nil_iff.mp content, fun e he => ?_, said⟩
  simpa using List.all_eq_true.mp past e he

end DocGraph
