import DocGraph.Session
import DocGraph.Proofs.Filters
import DocGraph.Proofs.Identity
import DocGraph.Proofs.Types

/-! # Pages of a list

A list is read page by page: each page is asked for after the last id of the page before, until one is
empty. Ids are texts, so `Person/10` comes before `Person/9`, whatever the order of the keys. All that
matters is that the ids of the documents are different (`Database.Reachable.distinct_ids`), so that the
documents have one strictly increasing order of ids, and that each page is a piece of that list which
starts where the page before has ended (`Session.outcome_page`, `drop_eq_filter`). Which documents are listed
is said by the filter itself (`Store.meeting`), not by the conditions that it is put into. -/

namespace DocGraph

/-! ### The order of ids -/

theorem compare_eq_gt_iff {a b : String} : compare a b = .gt ↔ b < a := by
  show compareOfLessAndEq a b = .gt ↔ b < a
  unfold compareOfLessAndEq
  by_cases less : a < b
  · rw [if_pos less]
    constructor
    · intro h
      cases h
    · intro greater
      exact absurd (String.lt_trans less greater) (String.lt_irrefl a)
  · rw [if_neg less]
    by_cases same : a = b
    · simp [same]
    · have greater : b < a := by
        apply Classical.byContradiction
        intro h
        exact same (String.le_antisymm (String.not_lt.mp h) (String.not_lt.mp less))
      simp [same, greater]

theorem order_str (a b : String) : Json.order (.str a) (.str b) = compare a b := by
  simp [Json.order, Json.sorted, Json.compareSorted]

namespace Document

/-- The id of a document as a text. -/
def idText (d : Document) : String :=
  (d.text? Field.id).getD ""

/-- Both documents have texts as their ids, and that of the first is less. -/
def Precedes (a b : Document) : Prop :=
  ∃ i j, a.id = .str i ∧ b.id = .str j ∧ i < j

theorem idText_eq {d : Document} {i : String} (h : d.id = .str i) : d.idText = i := by
  have text : d.text? Field.id = some i := read_eq_str.mp h
  rw [idText, text]
  rfl

end Document

/-- The ids of the documents are texts. -/
def HaveIds (rows : List Document) : Prop :=
  ∀ d ∈ rows, d.id = .str d.idText

theorem precedes_iff {a b : Document} (ha : a.id = .str a.idText) (hb : b.id = .str b.idText) :
    a.Precedes b ↔ a.idText < b.idText := by
  constructor
  · rintro ⟨i, j, hi, hj, less⟩
    rw [Document.idText_eq hi, Document.idText_eq hj]
    exact less
  · intro less
    exact ⟨a.idText, b.idText, ha, hb, less⟩

theorem not_precedes_swap {a b : Document} (h : a.Precedes b) : ¬ b.Precedes a := by
  rintro ⟨j, i, hj, hi, greater⟩
  obtain ⟨i', j', hi', hj', less⟩ := h
  rw [hi'] at hi
  rw [hj'] at hj
  cases hi
  cases hj
  exact String.lt_irrefl _ (String.lt_trans less greater)

/-- Documents whose ids are texts are sorted by these texts. -/
theorem sortedById_eq {rows : List Document} (ids : HaveIds rows) :
    Store.sortedById rows = rows.mergeSort fun a b => decide (a.idText ≤ b.idText) := by
  have agree : ∀ a ∈ rows, ∀ b ∈ rows,
      (a.id.order b.id != .gt) = decide (a.idText ≤ b.idText) := by
    intro a ha b hb
    rw [ids a ha, ids b hb, order_str, Bool.eq_iff_iff, bne_iff_ne, ne_eq, compare_eq_gt_iff,
      decide_eq_true_iff, String.not_lt]
  have sorted := List.map_mergeSort (f := fun d : Document => d) agree
  simpa [Store.sortedById] using sorted

theorem perm_sortedById (rows : List Document) : (Store.sortedById rows).Perm rows :=
  List.mergeSort_perm rows _

theorem HaveIds.of_subset {rows rows' : List Document} (h : HaveIds rows)
    (le : ∀ d ∈ rows', d ∈ rows) : HaveIds rows' :=
  fun d hd => h d (le d hd)

/-- Documents of different ids are brought into strictly increasing order. -/
theorem pairwise_sortedById {rows : List Document} (ids : HaveIds rows)
    (distinct : rows.Pairwise fun a b => a.idText ≠ b.idText) :
    (Store.sortedById rows).Pairwise Document.Precedes := by
  have le : (Store.sortedById rows).Pairwise fun a b => a.idText ≤ b.idText := by
    rw [sortedById_eq ids]
    have trans : ∀ a b c : Document, decide (a.idText ≤ b.idText) = true →
        decide (b.idText ≤ c.idText) = true → decide (a.idText ≤ c.idText) = true := by
      simp only [decide_eq_true_eq]
      exact fun a b c => String.le_trans
    have total : ∀ a b : Document,
        (decide (a.idText ≤ b.idText) || decide (b.idText ≤ a.idText)) = true := by
      simp only [Bool.or_eq_true, decide_eq_true_eq]
      exact fun a b => String.le_total _ _
    simpa using List.pairwise_mergeSort trans total rows
  have ne : (Store.sortedById rows).Pairwise fun a b => a.idText ≠ b.idText :=
    (perm_sortedById rows).symm.pairwise distinct fun h => h.symm
  refine (le.and ne).imp_of_mem ?_
  intro a b ha hb both
  have mem : ∀ d ∈ Store.sortedById rows, d ∈ rows := fun d => (perm_sortedById rows).mem_iff.mp
  rw [precedes_iff (ids a (mem a ha)) (ids b (mem b hb))]
  apply Classical.byContradiction
  intro h
  exact both.2 (String.le_antisymm both.1 (String.not_lt.mp h))

/-- Sorting and leaving documents out can change places. -/
theorem sortedById_filter {rows : List Document} (ids : HaveIds rows)
    (distinct : rows.Pairwise fun a b => a.idText ≠ b.idText) (test : Document → Bool) :
    Store.sortedById (rows.filter test) = (Store.sortedById rows).filter test := by
  have kept : HaveIds (rows.filter test) := ids.of_subset fun d hd => (List.mem_filter.mp hd).1
  refine List.Perm.eq_of_pairwise (fun a b _ _ less greater => absurd greater (not_precedes_swap less))
    (pairwise_sortedById kept (distinct.filter test)) ((pairwise_sortedById ids distinct).filter test) ?_
  exact (perm_sortedById _).trans ((perm_sortedById rows).symm.filter test)

/-- Of a list in order, what comes after the last document of a first piece is the rest. -/
theorem drop_eq_filter {rows : List Document} {n : Nat} {d : Document} (ids : HaveIds rows)
    (sorted : rows.Pairwise Document.Precedes) (last : (rows.take n).getLast? = some d) :
    rows.drop n = rows.filter fun e => decide (d.idText < e.idText) := by
  obtain ⟨ys, piece⟩ := List.getLast?_eq_some_iff.mp last
  have split : rows = ys ++ [d] ++ rows.drop n := by
    rw [← piece, List.take_append_drop]
  have mem : d ∈ rows := by
    rw [split]
    simp
  rw [split] at sorted
  obtain ⟨first, _, after⟩ := List.pairwise_append.mp sorted
  obtain ⟨_, _, before⟩ := List.pairwise_append.mp first
  have none_before : (ys ++ [d]).filter (fun e => decide (d.idText < e.idText)) = [] := by
    refine List.filter_eq_nil_iff.mpr ?_
    intro e he
    rw [decide_eq_true_iff]
    rcases List.mem_append.mp he with earlier | same
    · have less := before e earlier d (List.mem_singleton_self d)
      intro greater
      have he : e ∈ rows := by
        rw [split]
        simp [earlier]
      exact not_precedes_swap less ((precedes_iff (ids d mem) (ids e he)).mpr greater)
    · rw [List.mem_singleton.mp same]
      exact String.lt_irrefl _
  have all_after : (rows.drop n).filter (fun e => decide (d.idText < e.idText)) = rows.drop n := by
    refine List.filter_eq_self.mpr ?_
    intro e he
    rw [decide_eq_true_iff]
    exact (precedes_iff (ids d mem) (ids e (List.mem_of_mem_drop he))).mp (after d (by simp) e he)
  conv => rhs; rw [split]
  rw [List.filter_append, none_before, all_after, List.nil_append]

/-! ### Different ids -/

/-- The documents of some collections that meet some conditions, collection by collection. -/
def Store.matching (store : Store) (names : List String) (conditions : List Condition) : List Document :=
  (names.flatMap fun C => NameMap.values (store.documents C)).filter fun d =>
    Condition.allHold d conditions

/-- The documents of some collections that meet a filter on a type, collection by collection. -/
def Store.meeting (store : Store) (names : List String) (t : TypeDef) (filter : Option Json) :
    List Document :=
  (names.flatMap fun C => NameMap.values (store.documents C)).filter (Filter.meets t filter)

/-- The conditions of a filter single out the documents that meet it. -/
theorem Store.matching_eq_meeting {schema : Schema} {type row : String} {t : TypeDef}
    {filter : Option Json} {conditions : List Condition} (found : schema.typeDef type = .ok t)
    (accepted : schema.filterConditions type row filter = .ok conditions) (store : Store)
    (names : List String) : store.matching names conditions = store.meeting names t filter := by
  refine List.filter_congr fun d _ => ?_
  cases filter with
  | none =>
      cases accepted
      rfl
  | some f =>
      simp only [Schema.filterConditions, found, bind, Except.bind] at accepted
      exact (Filter.conditions_read f accepted).1

namespace Database.Reachable

variable {db : Database} {C : String}

/-- The id of a document tells the collection and the number of the key. -/
theorem exists_id (h : db.Reachable) {e : String × Document} (he : e ∈ db.store.documents C) :
    ∃ n : Nat, e.1 = toString n ∧ Document.id e.2 = .str (DocumentId.ofKey C (toString n)).text := by
  obtain ⟨n, _, key⟩ := h.issued C e he
  refine ⟨n, key, ?_⟩
  rw [h.keyed.id_eq he, key]

theorem exists_of_mem_values (h : db.Reachable) {d : Document}
    (hd : d ∈ NameMap.values (db.store.documents C)) :
    ∃ n : Nat, d.id = .str (DocumentId.ofKey C (toString n)).text := by
  obtain ⟨e, he, rfl⟩ := List.mem_map.mp hd
  obtain ⟨n, _, id⟩ := h.exists_id he
  exact ⟨n, id⟩

theorem haveIds (h : db.Reachable) (names : List String) (conditions : List Condition) :
    HaveIds (db.store.matching names conditions) := by
  intro d hd
  obtain ⟨C, _, hd⟩ := List.mem_flatMap.mp (List.mem_filter.mp hd).1
  obtain ⟨n, id⟩ := h.exists_of_mem_values hd
  rw [Document.idText_eq id]
  exact id

/-- No two documents of different collections, or of one collection, have the same id. -/
theorem distinct_ids (h : db.Reachable) {names : List String} (distinct : names.Nodup)
    (conditions : List Condition) :
    (db.store.matching names conditions).Pairwise fun a b => a.idText ≠ b.idText := by
  refine List.Pairwise.filter _ (List.pairwise_flatMap.mpr ⟨fun C _ => ?_, ?_⟩)
  · have keys : (db.store.documents C).Pairwise fun a b => a.1 < b.1 :=
      List.pairwise_map.mp (h.ordered C)
    refine List.pairwise_map.mpr (keys.imp_of_mem ?_)
    intro a b ha hb less same
    obtain ⟨n, key, id⟩ := h.exists_id ha
    obtain ⟨n', key', id'⟩ := h.exists_id hb
    rw [Document.idText_eq id, Document.idText_eq id'] at same
    obtain ⟨_, rfl⟩ := ofKey_toString_inj same
    rw [key, key'] at less
    exact String.lt_irrefl _ less
  · refine List.Pairwise.imp ?_ distinct
    intro C C' apart a ha b hb same
    obtain ⟨n, id⟩ := h.exists_of_mem_values ha
    obtain ⟨n', id'⟩ := h.exists_of_mem_values hb
    rw [Document.idText_eq id, Document.idText_eq id'] at same
    exact apart (ofKey_toString_inj same).1

end Database.Reachable

/-! ### Reads of a session -/

namespace Session

variable {s : Session} {q : ReadQuery}

/-- An engine without rows in store for the next answer asks its database. -/
theorem outcome_query (real : s.engine.nextRows = none) :
    outcome (Session.query q) s = (s.engine.database.store.answer q, s) := by
  have asked : s.engine.answer q = (s.engine.database.store.answer q, s.engine) := by
    unfold Engine.answer
    rw [real]
  unfold Session.query
  simp only [outcome_bind, outcome_get, asked]
  cases s.engine.database.store.answer q with
  | error e => rfl
  | ok rows => rfl

theorem mapM_rowDocument (rows : List Document) : (rows.map Json.obj).mapM rowDocument = .ok rows := by
  induction rows with
  | nil => rfl
  | cons d rows ih =>
      rw [List.map_cons, List.mapM_cons, ih]
      rfl

theorem outcome_documents {rows : List Document} (real : s.engine.nextRows = none)
    (answer : s.engine.database.store.answer q = .ok (rows.map .obj)) :
    outcome (Session.documents q) s = (.ok rows, s) := by
  have queried : outcome (Session.query q) s = (.ok (rows.map .obj), s) := by
    rw [outcome_query real, answer]
  unfold Session.documents
  rw [outcome_bind_of_ok queried, mapM_rowDocument]
  rfl

theorem outcome_count {k : Nat} (real : s.engine.nextRows = none)
    (answer : s.engine.database.store.answer q = .ok [.nat k]) :
    outcome (Session.count q) s = (.ok k, s) := by
  have queried : outcome (Session.query q) s = (.ok [.nat k], s) := by
    rw [outcome_query real, answer]
  unfold Session.count
  rw [outcome_bind_of_ok queried]
  rfl

/-- The rows of a list that come after an id, or all of them. -/
def rest (rows : List Document) (after : Option String) : List Document :=
  rows.filter fun d => decide (after.getD "" < d.idText)

/-- The rows that are left of those after an id are the rows after it that are left. -/
theorem rowsAfter_eq {rows : List Document} (ids : HaveIds rows) (id : String) :
    Store.rowsAfter rows (some id) = rest rows (some id) := by
  refine List.filter_congr fun d hd => ?_
  rw [ids d hd, order_str, Bool.eq_iff_iff, beq_iff_eq, compare_eq_gt_iff, decide_eq_true_iff]
  rfl

/-- A page is the first piece of what comes after an id. -/
theorem outcome_page {type : String} {names : List String} {filter : Option Json}
    {conditions : List Condition} (reachable : s.engine.database.Reachable)
    (real : s.engine.nextRows = none)
    (possible : s.model.schema.possibleCollections type = .ok names) (distinct : names.Nodup)
    (there : ∀ C ∈ names, (s.engine.database.store.collection? C).isSome = true)
    (accepted : s.model.schema.filterConditions type documentRow filter = .ok conditions)
    (n : Nat) (after : Option String) :
    outcome (Session.page ⟨filter, some n, after⟩ type) s =
      (.ok ⟨(rest (Store.sortedById (s.engine.database.store.matching names conditions)) after).take n,
        conditions, names⟩, s) := by
  have ids := reachable.haveIds names conditions
  have apart := reachable.distinct_ids distinct conditions
  have rows : s.engine.database.store.rows names = _ := Store.rows_eq there
  have made : s.model.schema.listQuery ⟨filter, some n, after⟩ type =
      .ok ({ ReadQuery.ofSource (.collections names) documentRow with
        conditions := conditions, after := some (after.getD ""), sortById := true, limit := some n },
        ⟨[], conditions, names⟩) := by
    simp [Schema.listQuery, possible, accepted, bind, Except.bind, pure, Except.pure]
  have sorted : Store.sortedById (Store.rowsAfter
      (s.engine.database.store.matching names conditions) (some (after.getD ""))) =
      rest (Store.sortedById (s.engine.database.store.matching names conditions)) after := by
    rw [rowsAfter_eq ids]
    exact sortedById_filter ids apart _
  unfold Session.page
  rw [outcome_bind, outcome_get]
  dsimp only
  rw [made]
  refine outcome_bind_of_ok (outcome_documents real ?_) _
  simp only [Store.answer, ReadQuery.ofSource, Store.sourceRows, rows, bind, Except.bind, Store.limited,
    if_true]
  rw [← sorted]
  rfl

theorem outcome_total {p : Page} (real : s.engine.nextRows = none)
    (there : ∀ C ∈ p.collections, (s.engine.database.store.collection? C).isSome = true) :
    outcome (Session.total p) s =
      (.ok (s.engine.database.store.matching p.collections p.conditions).length, s) := by
  refine outcome_count real ?_
  have rows : s.engine.database.store.rows p.collections = _ := Store.rows_eq there
  simp only [Store.answer, Page.totalQuery, ReadQuery.ofSource, Store.sourceRows, rows, bind, Except.bind,
    Store.rowsAfter, Store.limited]
  rfl

/-- The pages that are asked for one after another, from an id on: each after the last id of the page
before, until one is empty. -/
inductive Pages (s : Session) (filter : Option Json) (n : Nat) (type : String) :
    Option String → List Page → Prop
  | last {after : Option String} {p : Page}
      (asked : outcome (Session.page ⟨filter, some n, after⟩ type) s = (.ok p, s))
      (empty : p.content = []) : Pages s filter n type after [p]
  | next {after : Option String} {p : Page} {d : Document} {i : String} {pages : List Page}
      (asked : outcome (Session.page ⟨filter, some n, after⟩ type) s = (.ok p, s))
      (full : p.content.getLast? = some d) (cursor : d.text? Field.id = some i)
      (more : Pages s filter n type (some i) pages) : Pages s filter n type after (p :: pages)

section

variable {filter : Option Json} {n : Nat} {type : String} {rows : List Document}
  {conditions : List Condition} {names : List String} {after : Option String} {pages : List Page}

/-- After the last document of a page comes what the page has left. -/
theorem rest_of_last {d : Document} {i : String} (ids : HaveIds rows)
    (sorted : rows.Pairwise Document.Precedes) (full : ((rest rows after).take n).getLast? = some d)
    (cursor : d.text? Field.id = some i) : rest rows (some i) = (rest rows after).drop n := by
  have mem : d ∈ rest rows after := List.mem_of_mem_take (List.mem_of_getLast? full)
  have later : after.getD "" < d.idText := by
    simpa using (List.mem_filter.mp mem).2
  have text : d.idText = i := by
    rw [Document.idText, cursor]
    rfl
  have kept : HaveIds (rest rows after) := ids.of_subset fun e he => (List.mem_filter.mp he).1
  rw [drop_eq_filter kept (sorted.filter _) full]
  unfold rest
  rw [List.filter_filter]
  refine List.filter_congr fun e _ => ?_
  rw [text] at later ⊢
  by_cases beyond : i < e.idText
  · simp [beyond, String.lt_trans later beyond]
  · simp [beyond]

/-- Page by page, all that comes after an id is visited in order. -/
theorem Pages.content_eq (ids : HaveIds rows) (sorted : rows.Pairwise Document.Precedes) (size : 1 ≤ n)
    (asks : ∀ after, outcome (Session.page ⟨filter, some n, after⟩ type) s =
      (.ok ⟨(rest rows after).take n, conditions, names⟩, s))
    (h : s.Pages filter n type after pages) :
    pages.flatMap Page.content = rest rows after ∧
      ∀ p ∈ pages, p.conditions = conditions ∧ p.collections = names := by
  induction h with
  | @last after p asked empty =>
      rw [asks after] at asked
      cases asked
      have nothing : rest rows after = [] := by
        rcases List.take_eq_nil_iff.mp empty with zero | nothing
        · omega
        · exact nothing
      refine ⟨by simp [nothing], ?_⟩
      intro p hp
      rw [List.mem_singleton.mp hp]
      exact ⟨rfl, rfl⟩
  | @next after p d i pages asked full cursor more ih =>
      rw [asks after] at asked
      cases asked
      obtain ⟨contents, same⟩ := ih
      constructor
      · rw [List.flatMap_cons, contents, rest_of_last ids sorted full cursor, List.take_append_drop]
      · intro p hp
        rcases List.mem_cons.mp hp with rfl | later
        · exact ⟨rfl, rfl⟩
        · exact same p later

/-- The pages come to an end: each leaves less than the one before. -/
theorem exists_pages (ids : HaveIds rows) (sorted : rows.Pairwise Document.Precedes) (size : 1 ≤ n)
    (asks : ∀ after, outcome (Session.page ⟨filter, some n, after⟩ type) s =
      (.ok ⟨(rest rows after).take n, conditions, names⟩, s)) (after : Option String) :
    ∃ pages, s.Pages filter n type after pages := by
  generalize left : (rest rows after).length = k
  induction k using Nat.strongRecOn generalizing after with
  | ind k ih =>
      rcases full : ((rest rows after).take n).getLast? with _ | d
      · exact ⟨_, .last (asks after) (List.getLast?_eq_none_iff.mp full)⟩
      · have mem : d ∈ rest rows after := List.mem_of_mem_take (List.mem_of_getLast? full)
        have cursor : d.text? Field.id = some d.idText :=
          Document.read_eq_str.mp (ids d (List.mem_filter.mp mem).1)
        have less : (rest rows (some d.idText)).length < k := by
          have some_left := List.length_pos_of_mem mem
          rw [rest_of_last ids sorted full cursor, List.length_drop]
          omega
        obtain ⟨pages, more⟩ := ih _ less (some d.idText) rfl
        exact ⟨_, .next (asks after) full cursor more⟩

end

end Session

theorem empty_lt {s : String} (h : s ≠ "") : "" < s := by
  apply Classical.byContradiction
  intro not_less
  have le : "" ≤ s := by
    apply String.not_lt.mp
    intro less
    exact List.not_lt_nil _ (String.lt_iff.mp less)
  exact h (String.le_antisymm (String.not_lt.mp not_less) le)

/-- All documents that have an id come after no id. -/
theorem Database.Reachable.rest_none {db : Database} (h : db.Reachable) (names : List String)
    (conditions : List Condition) :
    Session.rest (Store.sortedById (db.store.matching names conditions)) none =
      Store.sortedById (db.store.matching names conditions) := by
  refine List.filter_eq_self.mpr ?_
  intro d hd
  obtain ⟨hd, _⟩ := List.mem_filter.mp ((perm_sortedById _).mem_iff.mp hd)
  obtain ⟨C, _, hd⟩ := List.mem_flatMap.mp hd
  obtain ⟨n, id⟩ := h.exists_of_mem_values hd
  rw [decide_eq_true_iff, Document.idText_eq id]
  apply empty_lt
  simp [DocumentId.ofKey]

/-! ### All pages -/

/-- Paging visits each document once: in any database that an engine can come to, for any object type or
interface with its collections, and for any filter that is accepted, pages of one document or more come to
an end; together they hold the documents of which the filter is true, each of them once and in strictly
increasing order of their ids, and each page tells their number. -/
theorem pages_visit_all (s : Session) (types : List TypeDef) (type : String) (t : TypeDef)
    (names : List String) (filter : Option Json) (conditions : List Condition) (n : Nat)
    (reachable : s.engine.database.Reachable) (real : s.engine.nextRows = none)
    (schema : s.model.schema = .ofTypes types) (found : s.model.schema.typeDef type = .ok t)
    (direct : t.kind = .object ∨ t.kind = .interface)
    (possible : s.model.schema.possibleCollections type = .ok names)
    (there : ∀ C ∈ names, (s.engine.database.store.collection? C).isSome = true)
    (accepted : s.model.schema.filterConditions type documentRow filter = .ok conditions)
    (size : 1 ≤ n) :
    (∃ pages, s.Pages filter n type none pages) ∧
      ∀ pages, s.Pages filter n type none pages →
        (pages.flatMap Page.content).Perm (s.engine.database.store.meeting names t filter) ∧
          (pages.flatMap Page.content).Pairwise Document.Precedes ∧
          ∀ p ∈ pages, outcome (Session.total p) s =
            (.ok (s.engine.database.store.meeting names t filter).length, s) := by
  have distinct : names.Nodup := by
    refine Schema.nodup_possibleCollections ?_ found direct possible
    rw [schema]
    exact Schema.nodup_names_ofTypes types
  have ids := reachable.haveIds names conditions
  have listed : HaveIds (Store.sortedById (s.engine.database.store.matching names conditions)) :=
    ids.of_subset fun d => (perm_sortedById _).mem_iff.mp
  have sorted := pairwise_sortedById ids (reachable.distinct_ids distinct conditions)
  have asks := Session.outcome_page reachable real possible distinct there accepted n
  refine ⟨Session.exists_pages listed sorted size asks none, fun pages h => ?_⟩
  obtain ⟨contents, same⟩ := h.content_eq listed sorted size asks
  rw [contents, reachable.rest_none, ← Store.matching_eq_meeting found accepted]
  refine ⟨perm_sortedById _, sorted, fun p hp => ?_⟩
  obtain ⟨rfl, rfl⟩ := same p hp
  exact Session.outcome_total real there

/-- Those who can be in a crew. -/
def crewMember : TypeDef :=
  ⟨"Member", .interface, [⟨"name", .named "String", []⟩], [], [], []⟩

/-- Persons and robots can be in a crew. -/
def crewTypes : List TypeDef :=
  [crewMember, ⟨"Person", .object, [⟨"name", .named "String", []⟩], ["Member"], [], []⟩,
    ⟨"Robot", .object, [⟨"name", .named "String", []⟩], ["Member"], [], []⟩]

/-- A person, a robot and another person are signed on. -/
def signOn : Transaction where
  write := ["Person", "Robot"]
  read := []
  statements := [.insert "a" "Person" (.param "ann") [] none, .insert "b" "Robot" (.param "bot") [] none,
    .insert "c" "Person" (.param "cleo") [] none]
  params := [("ann", .obj [("name", .str "Ann")]), ("bot", .obj [("name", .str "Bot")]),
    ("cleo", .obj [("name", .str "Cleo")])]

def crewDatabase : Database :=
  ((((Database.empty.createCollection "Person" .document).2.createCollection "Robot" .document).2).execute
    signOn).2

def crew : Session :=
  { Session.empty ⟨.ofTypes crewTypes, .default, 0⟩ .plain with
    engine := { Engine.empty .plain with database := crewDatabase } }

/-- Everyone but Ann. -/
def notAnn : Json :=
  .obj [("_not", .obj [("name", .obj [("_eq", .str "Ann")])])]

theorem pages_visit_all_crew :
    crew.engine.database.Reachable ∧
      (crewDatabase.store.meeting ["Person", "Robot"] crewMember none).map Document.idText =
        ["Person/1", "Person/3", "Robot/2"] ∧
      (crewDatabase.store.meeting ["Person", "Robot"] crewMember (some notAnn)).map Document.idText =
        ["Person/3", "Robot/2"] ∧
      (∃ pages, crew.Pages (some notAnn) 1 "Member" none pages) ∧
      ∀ pages, crew.Pages (some notAnn) 1 "Member" none pages →
        (pages.flatMap Page.content).Perm
            (crewDatabase.store.meeting ["Person", "Robot"] crewMember (some notAnn)) ∧
          (pages.flatMap Page.content).Pairwise Document.Precedes ∧
          ∀ p ∈ pages, outcome (Session.total p) crew =
            (.ok (crewDatabase.store.meeting ["Person", "Robot"] crewMember (some notAnn)).length, crew) := by
  have reachable : crewDatabase.Reachable :=
    .execute (.createCollection (.createCollection .empty "Person" .document) "Robot" .document) signOn
  have listed : (crewDatabase.store.meeting ["Person", "Robot"] crewMember none).map Document.idText =
        ["Person/1", "Person/3", "Robot/2"] ∧
      (crewDatabase.store.meeting ["Person", "Robot"] crewMember (some notAnn)).map Document.idText =
        ["Person/3", "Robot/2"] ∧
      ∀ C ∈ ["Person", "Robot"], (crewDatabase.store.collection? C).isSome = true := by
    decide +kernel
  refine ⟨reachable, listed.1, listed.2.1, ?_⟩
  exact pages_visit_all crew crewTypes "Member" crewMember ["Person", "Robot"] (some notAnn) _ 1 reachable rfl
    rfl rfl (Or.inr rfl) rfl listed.2.2 rfl (by decide)

end DocGraph
