import DocGraph.Proofs.Addressing
import DocGraph.Proofs.Shape

/-! # What an update of an edge keeps

The ends, the id and the key of an edge are columns of its collection (`Store.column`). The data of an update
come to the edge on two ways: as a parameter, from which the ends are taken out, and as values of exported
names, which are set after that. Main statement: in a committed transaction, the part of an edge update keeps
the columns of ids and keys, and that of an end if no exported name gives it (`updateEdge_keeps_columns`). An
exported name does change an end (`updateEdge_moves_source`). -/

namespace DocGraph

variable {m : Model} {c c' : Context} {write : NameSet} {params : Record Json} {db : Database} {run run' : Run}
  {C D f : String}

open Synthesis

/-! ### Columns -/

/-- The values of a field in the documents of a collection, under their keys. -/
def Store.column (s : Store) (C f : String) : List (String × Option Json) :=
  (s.documents C).map fun e => (e.1, Record.get? e.2 f)

/-- A new value of a name that is there comes in the place of the old one. -/
theorem NameMap.Sorted.insert_eq {α : Type} {n : NameMap α} {k : String} {old : α} (sorted : NameMap.Sorted n)
    (found : NameMap.get? n k = some old) (new : α) :
    NameMap.insert n k new = n.map fun e => if e.1 = k then (k, new) else e := by
  induction n with
  | nil => cases found
  | cons e rest ih =>
      obtain ⟨later, ordered⟩ := List.pairwise_cons.mp sorted
      unfold NameMap.insert
      split
      · rename_i before
        -- The name is below all others, so it is not there.
        have there := List.mem_map_of_mem (f := Prod.fst) (NameMap.mem_of_get? found)
        rcases List.mem_cons.mp there with here | there
        · exact absurd (here ▸ before) (String.lt_irrefl _)
        · exact absurd (String.lt_trans before (later _ there)) (String.lt_irrefl _)
      · split
        · rename_i here
          have here : k = e.1 := (beq_iff_eq.mp here).symm
          have others : ∀ e' ∈ rest, (if e'.1 = k then (k, new) else e') = e' := by
            intro e' he'
            refine if_neg fun same => String.lt_irrefl k ?_
            have lt := later _ (List.mem_map_of_mem he')
            rwa [same, ← here] at lt
          rw [List.map_cons, if_pos here.symm, List.map_congr_left others, List.map_id']
        · rename_i other
          have other : k ≠ e.1 := fun same => other (beq_iff_eq.mpr same.symm)
          rw [NameMap.get?_cons, if_neg other] at found
          rw [List.map_cons, if_neg other.symm, ih ordered found]

/-- A new value of a name that looks like the old one. -/
theorem NameMap.Sorted.map_insert {α β : Type} {n : NameMap α} {k : String} {old new : α} {g : α → β}
    (sorted : NameMap.Sorted n) (found : NameMap.get? n k = some old) (same : g new = g old) :
    (NameMap.insert n k new).map (fun e => (e.1, g e.2)) = n.map fun e => (e.1, g e.2) := by
  rw [sorted.insert_eq found, List.map_map]
  refine List.map_congr_left fun e he => ?_
  by_cases here : e.1 = k
  · have value : e.2 = old := by
      have read := sorted.get?_of_mem he
      rw [here, found] at read
      exact (Option.some.inj read).symm
    simp [here, value, same]
  · simp [here]

theorem Store.column_put {s : Store} {coll : Collection} {key : String} {old new : Document}
    (ordered : s.Ordered) (there : s.collection? C = some coll) (found : coll.get? key = some old)
    (same : Record.get? new f = Record.get? old f) (D : String) :
    (s.set C (coll.put key new)).column D f = s.column D f := by
  unfold column
  rw [Store.documents_set]
  split
  · rename_i here
    rw [here, Store.documents_eq there]
    exact (ordered.sorted there).map_insert (g := fun d => Record.get? d f) found same
  · rfl

/-- A merge keeps what is not in the patch. -/
theorem get?_merge_of_not_mem {old patch : Document} (absent : f ∉ patch.map Prod.fst) :
    Record.get? (Run.merge old patch) f = Record.get? old f := by
  refine Record.get?_insertAll fun e he name => absent ?_
  rw [← name]
  exact List.mem_map_of_mem (List.mem_of_mem_filter he)

/-! ### What is in a patch -/

namespace Record

variable {α : Type} {r : Record α} {n : String}

/-- What fills the hole is the last entry, so nothing but the order is new. -/
theorem swapErase_perm (r : Record α) (n : String) : (r.swapErase n).Perm (r.erase n) := by
  induction r with
  | nil => exact .nil
  | cons e rest ih =>
      unfold swapErase erase
      split
      · rcases List.eq_nil_or_concat rest with rfl | ⟨others, last, rfl⟩
        · exact .nil
        · rw [List.concat_eq_append, List.getLast?_concat, List.dropLast_concat]
          exact (List.perm_append_singleton last others).symm
      · exact ih.cons e

theorem erase_sublist (r : Record α) (n : String) : (r.erase n).Sublist r := by
  induction r with
  | nil => exact .slnil
  | cons e rest ih =>
      unfold erase
      split
      · exact List.sublist_cons_self e rest
      · exact ih.cons_cons e

theorem not_mem_erase (h : (r.map Prod.fst).Nodup) : n ∉ (r.erase n).map Prod.fst := by
  induction r with
  | nil => exact List.not_mem_nil
  | cons e rest ih =>
      obtain ⟨new, others⟩ := List.nodup_cons.mp h
      unfold erase
      split
      · rename_i here
        rwa [beq_iff_eq.mp here] at new
      · rename_i other
        intro mem
        rcases List.mem_cons.mp mem with here | there
        · exact other (beq_iff_eq.mpr here.symm)
        · exact ih others there

theorem nodup_swapErase (h : (r.map Prod.fst).Nodup) (n : String) : ((r.swapErase n).map Prod.fst).Nodup :=
  ((swapErase_perm r n).map Prod.fst).nodup_iff.mpr (((erase_sublist r n).map Prod.fst).nodup h)

theorem not_mem_swapErase (h : (r.map Prod.fst).Nodup) : n ∉ (r.swapErase n).map Prod.fst := by
  rw [((swapErase_perm r n).map Prod.fst).mem_iff]
  exact not_mem_erase h

theorem mem_of_mem_swapErase {k : String} (h : k ∈ (r.swapErase n).map Prod.fst) : k ∈ r.map Prod.fst :=
  ((erase_sublist r n).map Prod.fst).subset (((swapErase_perm r n).map Prod.fst).mem_iff.mp h)

end Record

theorem literalFields_names {data : InputObject} {d : Document} (h : Input.literalFields data = .ok d) :
    d.map Prod.fst = data.map Prod.fst := by
  induction data generalizing d with
  | nil =>
      cases h
      rfl
  | cons e rest ih =>
      obtain ⟨name, v⟩ := e
      rw [Input.literalFields] at h
      obtain ⟨w, _, h⟩ := exists_of_andThen_ok h
      obtain ⟨others, read, h⟩ := exists_of_andThen_ok h
      cases h
      rw [List.map_cons, List.map_cons, ih read]

/-- The parameter of an edge update has neither end. -/
theorem not_mem_reannotated {d : Document} (plain : (d.map Prod.fst).Nodup)
    (isEnd : f = Field.source ∨ f = Field.target) : f ∉ (m.reannotated d).map Prod.fst := by
  intro mem
  obtain ⟨e, he, same⟩ := List.mem_map.mp mem
  rcases Record.eq_or_mem_of_mem_insert he with rfl | he
  · obtain rfl : Field.updated = f := same
    exact absurd isEnd (by decide)
  have kept := List.mem_map_of_mem (f := Prod.fst) he
  rw [same] at kept
  rcases isEnd with rfl | rfl
  · exact Record.not_mem_swapErase plain (Record.mem_of_mem_swapErase kept)
  · exact Record.not_mem_swapErase (Record.nodup_swapErase plain _) kept

/-- A patch has the fields of its parameter and those that are imported. -/
theorem mem_or_mem_of_bodyOf {p : String} {d body : Document} {imported : List (String × Ref)}
    (param : params.get? p = some (.obj d))
    (read : Run.bodyOf (run.scope params) (.param p) imported = .ok body) (mem : f ∈ body.map Prod.fst) :
    f ∈ d.map Prod.fst ∨ f ∈ imported.map Prod.fst := by
  unfold Run.bodyOf at read
  obtain ⟨d', document, read⟩ := exists_of_andThen_ok read
  obtain ⟨values, mapped, read⟩ := exists_of_andThen_ok read
  cases read
  simp only [Ref.document, Ref.value, Run.scope, param, bind, Except.bind] at document
  cases document
  obtain ⟨e, he, rfl⟩ := List.mem_map.mp mem
  rcases Record.mem_or_mem_of_mem_insertAll he with old | new
  · exact .inl (List.mem_map_of_mem old)
  · obtain ⟨a, ha, value⟩ := exists_of_mem_mapM mapped new
    obtain ⟨w, _, rfl⟩ := exists_of_map_ok value
    exact .inr (List.mem_map_of_mem (f := Prod.fst) ha)

/-! ### Statements of an edge update -/

/-- The id and the key of an edge, and the ends that no exported name gives. -/
def InputObject.Spares (data : InputObject) (f : String) : Prop :=
  f = Field.id ∨ f = Field.key ∨ (f = Field.source ∨ f = Field.target) ∧ ∀ x, (f, .var x) ∉ data

theorem updateEdge_effects {type field : String} {id : Input} {data : InputObject}
    {exports : Option Selection} {var? : Option String} (distinct : (data.map Prod.fst).Nodup)
    (spared : InputObject.Spares data f) :
    Effects (m.updateEdge type field id data exports var?) c fun _ _ run run' => run.store.Ordered →
      ∀ D, run'.store.column D f = run.store.column D f := by
  unfold Model.updateEdge
  refine Idle.ensureOpen.bind_effects fun _ c₁ _ => (Idle.varOr var?).bind_effects fun var c₂ _ => ?_
  refine (Idle.lockWrite _).bind_effects fun _ c₃ _ => (Idle.comment _).bind_effects fun _ c₄ _ => ?_
  refine (imports_effects data).bind fun imported c₅ _ => Effects.ofExcept_bind fun d read => ?_
  refine Effects.freshParam_bind fun p c₆ _ => (Idle.resolveId id).bind_effects fun target c₇ _ => ?_
  refine Effects.push_bind ((exportSelection_effects var exports).bind fun _ c₈ _ => .of_pure _ ?_)
  rintro params after mid exported write before _ updated param _ ⟨rfl, names⟩ ordered D
  rw [exported.store]
  cases updated with
  | update body _ _ there _ found =>
      refine Store.column_put ordered there found ?_ D
      rcases spared with rfl | rfl | ⟨isEnd, ungiven⟩
      · exact get?_merge _ _ (.inl rfl)
      · exact get?_merge _ _ (.inr rfl)
      · refine get?_merge_of_not_mem fun mem => ?_
        have plain : (d.map Prod.fst).Nodup := by
          rw [literalFields_names read]
          exact (List.filter_sublist.map _).nodup distinct
        rcases mem_or_mem_of_bodyOf param body mem with literal | named
        · exact not_mem_reannotated (m := m) plain isEnd literal
        · obtain ⟨e, he, rfl⟩ := List.mem_map.mp named
          obtain ⟨x, given⟩ := names e he
          exact ungiven x given

/-! ### The part of a call in a script -/

theorem Trace.exists_statements {D : Demands} {ds ds' : List Duty} {ss : List Statement}
    (h : Trace m D c ds ss c' ds') : ∃ added, c'.statements = c.statements ++ added := by
  refine h.invariant (I := fun c' _ => ∃ added, c'.statements = c.statements ++ added) ?_
    ⟨[], (List.append_nil _).symm⟩
  rintro c₁ c₂ ds₁ ds₂ tt emits ⟨added, same⟩
  exact ⟨added ++ tt, by rw [emits.statements_eq, same, List.append_assoc]⟩

section Parts

variable {number : Nat} {remembers : Bool} {calls earlier later : List Call} {b call : Call}
  {answers : List (String × String)} {var : String} {t : Transaction}

/-- A call adds its statements at the end. -/
theorem Heard.exists_added (h : Heard m number remembers calls c answers)
    (synthesis : outcome (call.synthesis m) c = (.ok var, c')) :
    ∃ added, c'.statements = c.statements ++ added := by
  obtain ⟨ss, course⟩ := h.course
  have conforms := synthesize_conforms (m := { m with now := call.now }) call.mutation
    (if call.isRoot then some call.selection else none) (Mutation.meets_any _ _) course.tidy
  have done : outcome (call.mutation.synthesize { m with now := call.now }
    (if call.isRoot then some call.selection else none) none) c = (.ok var, c') := synthesis
  rw [done] at conforms
  obtain ⟨tt, ds, trace, _⟩ := conforms
  exact trace.exists_statements

/-- Where the statements of a call end, those of the later calls begin. -/
theorem Heard.exists_rest (h : Heard m number remembers (earlier ++ b :: later) c answers) :
    ∃ c₁ answers₁ var c₂ rest, Heard m number remembers earlier c₁ answers₁ ∧
      outcome (b.synthesis m) c₁ = (.ok var, c₂) ∧ c.statements = c₂.statements ++ rest ∧
      ∀ {p v}, c₂.params.get? p = some v → c.params.get? p = some v := by
  generalize hcalls : earlier ++ b :: later = calls at h
  induction h generalizing later with
  | start => simp at hcalls
  | @field calls c₁ c₂ answers call var before root synthesis ih =>
      rcases last_or_earlier hcalls with ⟨rfl, rfl⟩ | ⟨between, rfl⟩
      · exact ⟨c₁, answers, var, c₂, [], before, synthesis, (List.append_nil _).symm, id⟩
      · obtain ⟨c₃, answers₃, var₃, c₄, rest, heard, done, statements, params⟩ := ih rfl
        obtain ⟨added, same⟩ := before.exists_added synthesis
        refine ⟨c₃, answers₃, var₃, c₄, rest ++ added, heard, done, ?_, fun hp => ?_⟩
        · rw [same, statements, List.append_assoc]
        · exact (Call.handles synthesis).exporting.params (params hp)
  | @root calls c₁ c₂ answers call var before root new synthesis ih =>
      rcases last_or_earlier hcalls with ⟨rfl, rfl⟩ | ⟨between, rfl⟩
      · exact ⟨c₁, answers, var, c₂, answerStatements b.name var, before, synthesis, rfl, id⟩
      · obtain ⟨c₃, answers₃, var₃, c₄, rest, heard, done, statements, params⟩ := ih rfl
        obtain ⟨added, same⟩ := before.exists_added synthesis
        refine ⟨c₃, answers₃, var₃, c₄, rest ++ (added ++ answerStatements call.name var), heard, done, ?_,
          fun hp => ?_⟩
        · show c₂.statements ++ answerStatements call.name var = _
          rw [same, statements, List.append_assoc, List.append_assoc]
        · exact (Call.handles synthesis).exporting.params (params hp)

/-- Between two runs, a transaction runs the statements that a call has added, after those of the calls before
it. -/
inductive Transaction.Plays (t : Transaction) (m : Model) (number : Nat) (remembers : Bool) (db : Database)
    (earlier : List Call) (b : Call) : Run → Run → Prop
  | part {c c' : Context} {answers : List (String × String)} {var : String} {mine rest : List Statement}
      {before after : Run} (heard : Heard m number remembers earlier c answers)
      (synthesis : outcome (b.synthesis m) c = (.ok var, c'))
      (added : c'.statements = c.statements ++ mine)
      (script : t.statements = c.statements ++ (mine ++ rest))
      (within : ∀ {p v}, c'.params.get? p = some v → t.params.get? p = some v)
      (reached : PerformsAll t.write t.params c.statements (Run.start db) before)
      (played : PerformsAll t.write t.params mine before after) :
      Plays t m number remembers db earlier b before after

/-- In a committed transaction, every call that was taken up has its part. -/
theorem Heard.exists_plays {res : Record Json}
    (h : Heard m number remembers (earlier ++ b :: later) c answers)
    (committed : (db.execute c.transaction).1 = .ok res) :
    ∃ before after, c.transaction.Plays m number remembers db earlier b before after := by
  obtain ⟨c₁, answers₁, var, c₂, rest, heard, synthesis, statements, params⟩ := h.exists_rest
  obtain ⟨mine, added⟩ := heard.exists_added synthesis
  have script : c.transaction.statements = c₁.statements ++ (mine ++ (rest ++ finale c.deferred)) := by
    rw [c.statements_transaction, statements, added]
    simp only [List.append_assoc]
  obtain ⟨final, ran, _⟩ := exists_run_of_execute_ok committed
  rw [script] at ran
  obtain ⟨before, reached, ran⟩ := performsAll_append.mp ran
  obtain ⟨after, played, _⟩ := performsAll_append.mp ran
  exact ⟨before, after, .part heard synthesis added script params reached played⟩

/-- What the statements of a call do, its part does. -/
theorem Transaction.Plays.of_effects {before after : Run} {E : Run → Run → Prop}
    (h : t.Plays m number remembers db earlier b before after) (reachable : db.Reachable)
    (effects : ∀ c, Effects (b.synthesis m) c fun _ _ run run' => run.store.Ordered → E run run') :
    E before after := by
  cases h with
  | part heard synthesis added script within reached played =>
      obtain ⟨_, ss, statements, effect⟩ := effects _ _ _ synthesis
      obtain rfl := List.append_cancel_left (added.symm.trans statements)
      exact effect within (reached.issued reachable.issued) played (reached.ordered reachable.ordered)

end Parts

/-! ### The main statement -/

/-- In a committed transaction, an edge update keeps the id and the key of every edge, and the ends but for
those that an exported name gives. -/
theorem updateEdge_keeps_columns (m : Model) (number : Nat) (remembers : Bool) (names : List String)
    (calls : List Call) (last : Call) (t : Transaction)
    (submitted : submission? (((Request.start number remembers names).after m calls).call m last).1 =
      some t)
    (earlier later : List Call) (b : Call)
    (heard : (Request.start number remembers names).heard m (calls ++ [last]) = earlier ++ b :: later)
    (type field : String) (id : Input) (data : InputObject)
    (update : b.mutation = .updateEdge type field id data) (distinct : (data.map Prod.fst).Nodup)
    (db : Database) (reachable : db.Reachable) (res : Record Json) (committed : (db.execute t).1 = .ok res) :
    (∃ before after, t.Plays m number remembers db earlier b before after) ∧
    ∀ before after, t.Plays m number remembers db earlier b before after →
      ∀ f, InputObject.Spares data f → ∀ D, after.store.column D f = before.store.column D f := by
  obtain ⟨c, answers, hears, rfl⟩ := exists_heard submitted
  rw [heard] at hears
  refine ⟨hears.exists_plays committed, fun before after plays f spared => ?_⟩
  refine plays.of_effects (E := fun run run' => ∀ D, run'.store.column D f = run.store.column D f) reachable
    fun c => ?_
  rw [Call.synthesis, update]
  exact updateEdge_effects distinct spared

/-- A root field that updates the edge between two persons. -/
def amending (data : InputObject) : Call where
  now := 1
  isRoot := true
  selection := ⟨"edge", []⟩
  mutation := .updateEdge "Person" "knows" (.str "KnowsEdgeFromPerson/4") data

/-- The ids in a column. -/
def Store.idColumn (s : Store) (C f : String) : List (String × Option String) :=
  (s.column C f).map fun e => (e.1, e.2.bind Json.str?)

/-- An end, and a field of an exported name. -/
def knownSince : InputObject := [(Field.source, .str "Person/2"), ("since", .var "called")]

theorem updateEdge_keeps_columns_club :
    ∃ t res before after, submission? (((Request.start 1 true ["ann", "edge"]).after club
        [greeting]).call club (amending knownSince)).1 = some t ∧ (clubhouse.execute t).1 = .ok res ∧
      t.Plays club 1 true clubhouse [greeting] (amending knownSince) before after ∧
      after.store.column "KnowsEdgeFromPerson" Field.source =
        before.store.column "KnowsEdgeFromPerson" Field.source := by
  have ran : (submission? (((Request.start 1 true ["ann", "edge"]).after club
      [greeting]).call club (amending knownSince)).1).any (fun t => (clubhouse.execute t).1.toBool) = true := by
    decide +kernel
  have first : ((Request.start 1 true ["ann", "edge"]).call club greeting).1.toBool = true := by
    decide +kernel
  have second : (((Request.start 1 true ["ann", "edge"]).call club greeting).2.call club
      (amending knownSince)).1.toBool = true := by
    decide +kernel
  have heard : (Request.start 1 true ["ann", "edge"]).heard club ([greeting] ++ [amending knownSince]) =
      [greeting] ++ amending knownSince :: [] := by
    rw [List.singleton_append, Request.heard, if_pos first, Request.heard, if_pos second]
    rfl
  obtain ⟨t, submitted, ok⟩ := (Option.any_eq_true _ _).mp ran
  obtain ⟨res, committed⟩ := exists_of_toBool ok
  obtain ⟨⟨before, after, plays⟩, keeps⟩ := updateEdge_keeps_columns club 1 true ["ann", "edge"] [greeting]
    (amending knownSince) t submitted [greeting] [] (amending knownSince) heard "Person" "knows" _ knownSince
    rfl (by decide) clubhouse reachable_clubhouse res committed
  refine ⟨t, res, before, after, submitted, committed, plays, keeps before after plays _ ?_ _⟩
  exact .inr (.inr ⟨.inl rfl, by simp [knownSince, Field.source]⟩)

/-- An exported name that is given for an end is set like any other field: the edge from the first person
comes from the new one then. -/
theorem updateEdge_moves_source :
    clubhouse.store.idColumn "KnowsEdgeFromPerson" Field.source = [("4", some "Person/1")] ∧
    ((submission? (((Request.start 1 true ["ann", "edge"]).after club [greeting]).call club
        (amending [(Field.source, .var "friend")])).1).map fun t => ((clubhouse.execute t).1.toBool,
          (clubhouse.execute t).2.store.idColumn "KnowsEdgeFromPerson" Field.source)) =
      some (true, [("4", some "Person/6")]) := by
  constructor
  · decide +kernel
  · decide +kernel

end DocGraph
