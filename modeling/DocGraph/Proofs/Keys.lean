import DocGraph.Proofs.WellScoped

/-! # Keys are unique

The key of a document is checked some statements after the document is written, and other documents
of the type may be written in between. All along, two documents that agree on the key are not both
checked: `Separated` says so, with the documents that are still to be checked read off the duties. At
the end nothing is owed. So a transaction keeps keys unique: `Course.distinct`. -/

namespace DocGraph

/-! ### Equality of values -/

namespace Json

theorem compareNames_swap (xs ys : List (String × Json)) :
    compareNames ys xs = (compareNames xs ys).swap := by
  induction xs generalizing ys with
  | nil => cases ys <;> rfl
  | cons x xs ih =>
      cases ys with
      | nil => rfl
      | cons y ys =>
          rw [compareNames, compareNames, Ordering.swap_then, ih, ← Std.OrientedOrd.eq_swap]

mutual

theorem compareSorted_swap : ∀ a b : Json, compareSorted b a = (compareSorted a b).swap
  | null, null => rfl
  | bool _, bool _ => Std.OrientedOrd.eq_swap
  | num _, num _ => Std.OrientedOrd.eq_swap
  | str _, str _ => Std.OrientedOrd.eq_swap
  | arr xs, arr ys => by rw [compareSorted, compareSorted, compareItems_swap]
  | obj xs, obj ys => by
      rw [compareSorted, compareSorted, Ordering.swap_then, compareNames_swap, compareFields_swap]
  | null, bool _ | null, num _ | null, str _ | null, arr _ | null, obj _
  | bool _, null | bool _, num _ | bool _, str _ | bool _, arr _ | bool _, obj _
  | num _, null | num _, bool _ | num _, str _ | num _, arr _ | num _, obj _
  | str _, null | str _, bool _ | str _, num _ | str _, arr _ | str _, obj _
  | arr _, null | arr _, bool _ | arr _, num _ | arr _, str _ | arr _, obj _
  | obj _, null | obj _, bool _ | obj _, num _ | obj _, str _ | obj _, arr _ => rfl

theorem compareItems_swap : ∀ xs ys : List Json, compareItems ys xs = (compareItems xs ys).swap
  | [], [] | [], _ :: _ | _ :: _, [] => rfl
  | x :: xs, y :: ys => by
      rw [compareItems, compareItems, Ordering.swap_then, compareSorted_swap, compareItems_swap]

theorem compareFields_swap : ∀ xs ys : List (String × Json),
    compareFields ys xs = (compareFields xs ys).swap
  | [], [] | [], _ :: _ | _ :: _, [] => rfl
  | (_, x) :: xs, (_, y) :: ys => by
      rw [compareFields, compareFields, Ordering.swap_then, compareSorted_swap, compareFields_swap]

end

theorem alike_comm (a b : Json) : a.alike b = b.alike a := by
  unfold alike order
  rw [compareSorted_swap b.sorted a.sorted]
  cases compareSorted b.sorted a.sorted <;> rfl

theorem alike_str {a b : String} : (str a).alike (str b) = true ↔ a = b := by
  simp [alike, order, sorted, compareSorted]

end Json

theorem Document.rivals_comm (fields : List String) (a b : Document) :
    Document.rivals fields a b = Document.rivals fields b a := by
  unfold Document.rivals
  simp only [Json.alike_comm a.id b.id, fun f => Json.alike_comm (Document.read a f) (Document.read b f)]

/-! ### Collections of objects and of edges -/

theorem Text.occursIn_append (before part after : List Char) :
    Text.occursIn part (before ++ (part ++ after)) = true := by
  induction before with
  | nil =>
      rw [List.nil_append]
      cases h : part ++ after with
      | nil =>
          rw [(List.append_eq_nil_iff.mp h).1]
          rfl
      | cons c rest =>
          rw [Text.occursIn, ← h]
          simp
  | cons c before ih =>
      rw [List.cons_append, Text.occursIn, ih, Bool.or_true]

theorem contains_edgeCollection (source field : String) :
    Text.contains (edgeCollection source field) "EdgeFrom" = true := by
  unfold Text.contains edgeCollection
  rw [String.toList_append, String.toList_append, List.append_assoc]
  exact Text.occursIn_append _ _ _

/-- The collection of a stored type holds no edges. -/
theorem ne_edgeCollection {s : Schema} {type : String} (stored : type ∈ s.documentCollections)
    (source field : String) : type ≠ edgeCollection source field := by
  rintro rfl
  obtain ⟨t, ht, hn⟩ := List.mem_map.mp stored
  have hs := (List.mem_filter.mp ht).2
  unfold Schema.isStored at hs
  simp only [Bool.and_eq_true, Bool.not_eq_true'] at hs
  rw [hn, contains_edgeCollection] at hs
  cases hs.1.1.2

/-! ### Documents that are to be checked -/

variable {m : Model} {D : Demands} {c c' : Context} {ds ds' : List Duty} {ss : List Statement}
  {write : NameSet} {params : Record Json} {run run' : Run} {type : String} {fields : List String}

/-- A document of a type whose key is to be checked. -/
def Unchecked (type : String) (ds : List Duty) (vars : Record Json) (d : Document) : Prop :=
  ∃ var, .key var type ∈ ds ∧ vars.get? var = some (.obj d)

/-- Of two documents of a type that agree on the key, one is to be checked. -/
def Separated (type : String) (fields : List String) (ds : List Duty) (run : Run) : Prop :=
  ∀ a ∈ run.store.documents type, ∀ b ∈ run.store.documents type,
    Document.rivals fields a.2 b.2 = true →
      Unchecked type ds run.vars a.2 ∨ Unchecked type ds run.vars b.2

/-- New documents are to be checked, and those that were to be checked still are. -/
theorem Separated.of_entries (h : Separated type fields ds run)
    (entries : ∀ e ∈ run'.store.documents type,
      Unchecked type ds' run'.vars e.2 ∨ e ∈ run.store.documents type)
    (kept : ∀ var, .key var type ∈ ds →
      .key var type ∈ ds' ∧ run'.vars.get? var = run.vars.get? var) :
    Separated type fields ds' run' := by
  have still : ∀ {d : Document}, Unchecked type ds run.vars d → Unchecked type ds' run'.vars d := by
    rintro d ⟨var, duty, held⟩
    obtain ⟨duty', same⟩ := kept var duty
    exact ⟨var, duty', same.trans held⟩
  intro a ha b hb rivals
  rcases entries a ha with ha | ha
  · exact Or.inl ha
  · rcases entries b hb with hb | hb
    · exact Or.inr hb
    · exact (h a ha b hb rivals).imp still still

/-- Statements that put nothing into the collection. -/
theorem Separated.keep (h : Separated type fields ds run)
    (p : PerformsAll write params ss run run')
    (untouched : ∀ b ∈ partsOf ss, b.target? ≠ some type)
    (unset : ∀ var, .key var type ∈ ds → ∀ b ∈ partsOf ss, ∀ x, b.binding? = some x → x.1 ≠ var)
    (kept : ∀ var, .key var type ∈ ds → .key var type ∈ ds') : Separated type fields ds' run' :=
  h.of_entries (fun _ he => Or.inr (p.mem_documents untouched he))
    fun var duty => ⟨kept var duty, p.get?_vars_eq (unset var duty)⟩

/-- A statement that puts a document into the collection and owes its check. -/
theorem Separated.put {var key : String} {d : Document} {coll : Collection}
    (h : Separated type fields ds run) (there : run.store.collection? type = some coll)
    (store : run'.store = run.store.set type (coll.put key d))
    (vars : run'.vars = run.vars.insert var (.obj d)) (owed : .key var type ∈ ds')
    (unset : ∀ v, .key v type ∈ ds → v ≠ var) (kept : ∀ v, .key v type ∈ ds → .key v type ∈ ds') :
    Separated type fields ds' run' := by
  refine h.of_entries (fun e he => ?_) fun v duty => ⟨kept v duty, ?_⟩
  · rw [store, Store.documents_set, if_pos rfl] at he
    rcases NameMap.eq_or_mem_of_mem_insert he with rfl | he
    · refine Or.inl ⟨var, owed, ?_⟩
      rw [vars, Record.get?_insert, if_pos rfl]
    · rw [Store.documents_eq there]
      exact Or.inr he
  · rw [vars, Record.get?_insert, if_neg (unset v duty)]

/-- A document that is found to have no rival need not be checked again. -/
theorem Separated.check {var : String} {d : Document}
    (h : Separated type fields (.key var type :: ds) run) (held : run.vars.get? var = some (.obj d))
    (clean : ∀ e ∈ run.store.documents type, Document.rivals fields e.2 d = false) :
    Separated type fields ds run := by
  have settled : ∀ {a b : String × Document}, b ∈ run.store.documents type →
      Document.rivals fields a.2 b.2 = true → Unchecked type (.key var type :: ds) run.vars a.2 →
      Unchecked type ds run.vars a.2 := by
    rintro a b hb rivals ⟨v, duty, hv⟩
    rcases List.mem_cons.mp duty with duty | duty
    · cases duty
      cases held.symm.trans hv
      rw [Document.rivals_comm, clean b hb] at rivals
      cases rivals
    · exact ⟨v, duty, hv⟩
  intro a ha b hb rivals
  rcases h a ha b hb rivals with ua | ub
  · exact Or.inl (settled hb rivals ua)
  · exact Or.inr (settled ha ((Document.rivals_comm _ _ _).trans rivals) ub)

/-! ### Steps keep keys apart -/

theorem Statement.target?_eq_none {s : Statement} (h : s.binding? = none) : s.target? = none := by
  cases s with
  | insert | update => cases h
  | comment | remove | removeEdges | bind | setResult | guarded | assert | fail => rfl

/-- Statements that set no variable that is set in a context. -/
def SetsAnew (c : Context) (ss : List Statement) : Prop :=
  ∀ var held, (var, held) ∈ bindings c.statements →
    ∀ b ∈ partsOf ss, ∀ x, b.binding? = some x → x.1 ≠ var

theorem Emits.setsAnew (e : Emits m D c ds ss c' ds') (sc : Scoping c ds) : SetsAnew c ss := by
  intro var held bound b hb x hx
  have all := (e.scoping sc).statements
  have nodup := all.nodup List.nodup_nil
  rw [e.statements_eq] at all nodup
  rw [List.nil_append, bindings_append, List.map_append] at nodup
  have own : x ∈ bindings ss := by
    rw [← (scopedAll_append.mp all).2.bindings_partsOf]
    exact List.mem_filterMap.mpr ⟨b, hb, hx⟩
  exact fun same => (List.nodup_append.mp nodup).2.2 var (List.mem_map_of_mem bound) x.1
    (List.mem_map_of_mem own) same.symm

/-- A check of a key that finds nothing. -/
theorem exists_of_duplicateKey_clean {var : String}
    (h : (Check.duplicateKey (.doc var) type fields).violated run.store (run.scope params) = .ok false) :
    ∃ d, run.vars.get? var = some (.obj d) ∧
      ∀ e ∈ run.store.documents type, Document.rivals fields e.2 d = false := by
  rcases hv : run.vars.get? var with _ | v
  · simp [Check.violated, Ref.document, Ref.value, Scope.var, Run.scope, hv, bind, Except.bind] at h
  · cases v with
    | obj d =>
        refine ⟨d, rfl, fun e he => ?_⟩
        rcases hc : run.store.collection? type with _ | coll
        · rw [Store.documents, hc] at he
          cases he
        · rw [Store.documents_eq hc] at he
          simp only [Check.violated, document_of_value (value_doc hv), Store.collection, hc, bind,
            Except.bind, pure, Except.pure, Except.ok.injEq] at h
          simpa using List.any_eq_false.mp h e.2 (List.mem_map_of_mem he)
    | null | bool | num | str | arr =>
        simp [Check.violated, Ref.document, value_doc hv, bind, Except.bind, throw, throwThe,
          MonadExceptOf.throw] at h

theorem Emits.separated {k : TypeDef} (e : Emits m D c ds ss c' ds') (sc : Scoping c ds)
    (stored : type ∈ m.schema.documentCollections) (key : m.schema.keyType? type = some k)
    (p : PerformsAll write params ss run run')
    (h : Separated type (k.fields.map FieldDef.name) ds run) :
    Separated type (k.fields.map FieldDef.name) ds' run' := by
  have unset : ∀ var, .key var type ∈ ds → ∀ b ∈ partsOf ss, ∀ x, b.binding? = some x → x.1 ≠ var :=
    fun var duty => e.setsAnew sc var .document (sc.duties _ duty)
  have edges : ∀ {source field : String}, some (edgeCollection source field) ≠ some type :=
    fun same => ne_edgeCollection stored _ _ (Option.some.inj same).symm
  have bound : ∀ {var v : String} {ds : List Duty}, .key v type ∈ .bind var :: ds → .key v type ∈ ds :=
    fun duty => List.mem_of_ne_of_mem (by simp) duty
  have nowhere : (none : Option String) ≠ some type := Ne.symm (Option.some_ne_none type)
  have nothing : ∀ b ∈ partsOf [], b.target? ≠ some type := fun b hb => by cases hb
  cases e with
  | remark | abort | dropEdges | assertFree | «export» =>
      exact h.keep p (forall_partsOf_one rfl nowhere) unset fun _ duty => duty
  | param | lockWrite | lockRead => exact h.keep p nothing unset fun _ duty => duty
  | name => exact h.keep p nothing unset fun _ duty => List.mem_cons_of_mem _ duty
  | @insert ds var T =>
      by_cases hT : T = type
      · subst hT
        cases performsAll_singleton.mp p with
        | insert _ _ _ there =>
            refine h.put there rfl rfl List.mem_cons_self (fun v duty => ?_) fun v duty => ?_
            · exact Ne.symm (unset v duty _ List.mem_cons_self _ rfl)
            · exact List.mem_cons_of_mem _ (List.mem_cons_of_mem _ (bound duty))
      · have other : some T ≠ some type := fun same => hT (Option.some.inj same)
        refine h.keep p (forall_partsOf_one rfl other) unset fun v duty => ?_
        exact List.mem_cons_of_mem _ (List.mem_cons_of_mem _ (bound duty))
  | insertEdge =>
      exact h.keep p (forall_partsOf_one rfl edges) unset fun _ duty =>
        List.mem_cons_of_mem _ (bound duty)
  | @update var T =>
      by_cases hT : T = type
      · subst hT
        cases performsAll_singleton.mp p with
        | update _ _ _ there =>
            refine h.put there rfl rfl List.mem_cons_self (fun v duty => ?_) fun v duty => ?_
            · exact Ne.symm (unset v duty _ List.mem_cons_self _ rfl)
            · cases bound duty
      · have other : some T ≠ some type := fun same => hT (Option.some.inj same)
        refine h.keep p (forall_partsOf_one rfl other) unset fun v duty => ?_
        cases bound duty
  | updateEdge => exact h.keep p (forall_partsOf_one rfl edges) unset fun _ duty => by cases bound duty
  | remove | removeEdge =>
      exact h.keep p (forall_partsOf_one rfl nowhere) unset fun _ duty => by cases bound duty
  | assertExists =>
      exact h.keep p (forall_partsOf_existsCheck nowhere fun _ => nowhere) unset fun _ duty => duty
  | @assertKey _ var T k' key' locked =>
      by_cases hT : T = type
      · subst hT
        cases key.symm.trans key'
        cases performsAll_singleton.mp p with
        | assert clean =>
            obtain ⟨d, held, clean⟩ := exists_of_duplicateKey_clean clean
            exact h.check held clean
      · refine h.keep p (forall_partsOf_one rfl nowhere) unset fun v duty => ?_
        refine (List.mem_cons.mp duty).resolve_left fun same => ?_
        cases same
        exact hT rfl
  | noKey key' =>
      refine h.keep p nothing unset fun v duty => (List.mem_cons.mp duty).resolve_left fun same => ?_
      cases same
      cases key.symm.trans key'
  | clearEdges =>
      exact h.keep p (forall_partsOf_clear fun _ _ => nowhere) unset fun _ duty =>
        List.mem_of_ne_of_mem (by simp) duty
  | defer | waive | forget =>
      exact h.keep p nothing unset fun _ duty => List.mem_of_ne_of_mem (by simp) duty

/-! ### Transactions keep keys apart -/

variable {number : Nat} {remembers : Bool} {answers : List (String × String)}

/-- No two documents of a type agree on its key. -/
def Store.Distinct (schema : Schema) (s : Store) : Prop :=
  ∀ type ∈ schema.documentCollections, ∀ k, schema.keyType? type = some k →
    ∀ a ∈ s.documents type, ∀ b ∈ s.documents type,
      Document.rivals (k.fields.map FieldDef.name) a.2 b.2 = false

/-- Statements that set nothing put nothing into a collection. -/
theorem Separated.of_silent (h : Separated type fields [] run)
    (p : PerformsAll write params ss run run') (silent : ∀ b ∈ partsOf ss, b.binding? = none) :
    Separated type fields [] run' := by
  refine h.keep p (fun b hb => ?_) (fun _ duty => by cases duty) fun _ duty => by cases duty
  rw [Statement.target?_eq_none (silent b hb)]
  exact Ne.symm (Option.some_ne_none type)

theorem Course.separated {k : TypeDef} {db : Database}
    (course : Course m D number remembers c ss answers)
    (stored : type ∈ m.schema.documentCollections) (key : m.schema.keyType? type = some k)
    (start : Separated type (k.fields.map FieldDef.name) [] (Run.start db))
    (p : PerformsAll write params c.statements (Run.start db) run) :
    Separated type (k.fields.map FieldDef.name) [] run := by
  have all : Scoping c [] ∧ ∀ run, PerformsAll write params c.statements (Run.start db) run →
      Separated type (k.fields.map FieldDef.name) [] run := by
    refine course.invariant (I := fun c ds => Scoping c ds ∧
      ∀ run, PerformsAll write params c.statements (Run.start db) run →
        Separated type (k.fields.map FieldDef.name) ds run) ⟨.empty number remembers, ?_⟩ ?_ ?_
    · intro run p
      cases p
      exact start
    · rintro now c c' ds ds' ss e ⟨sc, h⟩
      refine ⟨e.scoping sc, fun run p => ?_⟩
      rw [e.statements_eq] at p
      obtain ⟨mid, p₁, p₂⟩ := performsAll_append.mp p
      exact e.separated sc stored key p₂ (h mid p₁)
    · rintro c held name var document bound ⟨sc, h⟩
      refine ⟨sc.answer name bound, fun run p => ?_⟩
      obtain ⟨mid, p₁, p₂⟩ := performsAll_append.mp p
      refine (h mid p₁).of_silent p₂ fun b hb => ?_
      rcases eq_of_mem_answerStatements hb with rfl | rfl
      · rfl
      · rfl
  exact all.2 run p

/-- What waits for the end of a script sets nothing. -/
theorem Scoping.silent_finale (sc : Scoping c []) :
    ∀ b ∈ partsOf (finale c.deferred), b.binding? = none := by
  intro b hb
  obtain ⟨s, hs, hb⟩ := mem_partsOf.mp hb
  rcases eq_or_mem_of_mem_finale hs with rfl | hs
  · rw [List.mem_singleton.mp hb]
    rfl
  · have empty := (sc.deferred s hs).bindings_parts
    rw [sc.silent s hs] at empty
    exact List.filterMap_eq_nil_iff.mp empty b hb

/-- A transaction keeps keys unique. -/
theorem Course.distinct {db : Database} (course : Course m D number remembers c ss answers)
    (h : db.store.Distinct m.schema) : (db.execute c.transaction).2.store.Distinct m.schema := by
  rcases execute_store db c.transaction with same | ⟨run, p, ran⟩
  · rw [same]
    exact h
  · rw [ran]
    intro type stored k key a ha b hb
    have start : Separated type (k.fields.map FieldDef.name) [] (Run.start db) := by
      intro a ha b hb rivals
      rw [h type stored k key a ha b hb] at rivals
      cases rivals
    rw [c.statements_transaction] at p
    obtain ⟨mid, p₁, p₂⟩ := performsAll_append.mp p
    have done := (course.separated stored key start p₁).of_silent p₂ course.scoping.silent_finale
    refine Bool.eq_false_iff.mpr fun rivals => ?_
    rcases done a ha b hb rivals with ⟨_, owed, _⟩ | ⟨_, owed, _⟩
    · cases owed
    · cases owed

end DocGraph
