import DocGraph.Proofs.Issued

/-! # Stages of a run

A stage is a point on the course of a context together with the run of the statements that the context
has by then. What holds at the first stage and is kept from each stage to the next holds when the
statements of all root fields have run: `Course.along`. A reference whose variable is set keeps its value
from then on, and the ids for which a script vouches have been given out: `Stage.vouched`. -/

namespace DocGraph

variable {m : Model} {D : Demands} {c c' : Context} {ds ds' : List Duty} {ss : List Statement}
  {write : NameSet} {params : Record Json} {db : Database} {run run' : Run} {r : Ref}

/-! ### Values that stay -/

/-- Only the variable of a reference matters for its value. -/
theorem Ref.value_congr {s s' : Scope} (params : s.params = s'.params)
    (vars : ∀ var, r.var? = some var → s.vars.get? var = s'.vars.get? var) :
    r.value s = r.value s' := by
  induction r with
  | param name => rw [Ref.value, Ref.value, params]
  | doc name | exported name =>
      rw [Ref.value, Ref.value, Scope.var, Scope.var, vars name rfl]
  | field base name ih => rw [Ref.value, Ref.value, ih vars]

/-- The variable of a reference, if it has one, is set. -/
def Context.Fixes (c : Context) (r : Ref) : Prop :=
  ∀ var, r.var? = some var → ∃ held, (var, held) ∈ bindings c.statements

theorem Context.Fixes.mono (h : c.Fixes r) (e : c.Extends c') : c'.Fixes r := by
  intro var hv
  obtain ⟨held, bound⟩ := h var hv
  exact ⟨held, e.bindings bound⟩

theorem Context.Fixes.of_reads {params : Record Json} (h : Reads params (bindings c.statements) r) :
    c.Fixes r := by
  intro var hv
  obtain ⟨⟨_, held⟩, bound, rfl⟩ := List.mem_map.mp (h.var_set hv)
  exact ⟨held, bound⟩

/-- What is set is not set again, so the value of a reference to it stays. -/
theorem Context.Fixes.value_eq (h : c.Fixes r) (anew : SetsAnew c ss)
    (p : PerformsAll write params ss run run') :
    r.value (run'.scope params) = r.value (run.scope params) := by
  refine Ref.value_congr rfl fun var hv => ?_
  obtain ⟨held, bound⟩ := h var hv
  exact p.get?_vars_eq (anew var held bound)

/-! ### Stages -/

/-- A context with duties on its course, and the run of its statements on a database. -/
structure Stage (write : NameSet) (params : Record Json) (db : Database) (c : Context)
    (ds : List Duty) (run : Run) : Prop where
  scoping : Scoping c ds
  within : ∀ {p v}, c.params.get? p = some v → params.get? p = some v
  ran : PerformsAll write params c.statements (Run.start db) run

/-- What holds at the first stage and is kept from each stage to the next, and by answers, holds when
all statements have run. -/
theorem Course.along {number : Nat} {remembers : Bool} {answers : List (String × String)}
    {J : Context → List Duty → Run → Prop} (course : Course m D number remembers c ss answers)
    (start : J (Context.empty number remembers) [] (Run.start db))
    (step : ∀ {now : Int} {c c' : Context} {ds ds' : List Duty} {ss : List Statement} {run run' : Run},
      Stage write params db c ds run → Emits { m with now := now } D c ds ss c' ds' →
        PerformsAll write params ss run run' → J c ds run → J c' ds' run')
    (answer : ∀ {c : Context} {name var : String} (run run' : Run), run'.store = run.store →
      run'.vars = run.vars → run'.lastKey = run.lastKey → J c [] run → J (c.answer name var) [] run')
    (within : ∀ {p v}, c.params.get? p = some v → params.get? p = some v)
    (p : PerformsAll write params c.statements (Run.start db) run) : J c [] run := by
  -- The parameters of the whole script are those of every context before, so they come last.
  have all : Scoping c [] ∧ ((∀ {p v}, c.params.get? p = some v → params.get? p = some v) →
      ∀ run, PerformsAll write params c.statements (Run.start db) run → J c [] run) := by
    refine course.invariant (I := fun c ds => Scoping c ds ∧
      ((∀ {p v}, c.params.get? p = some v → params.get? p = some v) →
        ∀ run, PerformsAll write params c.statements (Run.start db) run → J c ds run))
      ⟨.empty number remembers, ?_⟩ ?_ ?_
    · intro _ run p
      cases p
      exact start
    · rintro now c c' ds ds' ss e ⟨sc, h⟩
      refine ⟨e.scoping sc, fun within run p => ?_⟩
      have earlier : ∀ {p v}, c.params.get? p = some v → params.get? p = some v :=
        fun hp => within (e.extends.params hp)
      rw [e.statements_eq] at p
      obtain ⟨mid, p₁, p₂⟩ := performsAll_append.mp p
      exact step ⟨sc, earlier, p₁⟩ e p₂ (h earlier mid p₁)
    · rintro c held name var document bound ⟨sc, h⟩
      refine ⟨sc.answer name bound, fun within run p => ?_⟩
      obtain ⟨mid, p₁, p₂⟩ := performsAll_append.mp p
      cases p₂ with
      | cons first rest =>
          cases first
          cases performsAll_singleton.mp rest
          exact answer mid _ rfl rfl rfl (h within mid p₁)
  exact all.2 within run p

theorem ScopedAll.agrees {Γ : List (String × Holding)} (h : ScopedAll params Γ ss)
    (p : PerformsAll write params ss run run') (ha : Agrees Γ run.vars) :
    Agrees (Γ ++ bindings ss) run'.vars := by
  induction ss generalizing Γ run with
  | nil =>
      cases p
      simpa using ha
  | cons s ss ih =>
      obtain ⟨hs, fresh, hss⟩ := h
      have hb : Γ ++ bindings (s :: ss) = Γ ++ s.binding?.toList ++ bindings ss := by
        cases hs : s.binding? <;> simp [bindings, hs]
      cases p with
      | cons first others =>
          rw [hb]
          exact ih hss others (first.agrees hs fresh ha)

namespace Stage

theorem agrees (st : Stage write params db c ds run) : Agrees (bindings c.statements) run.vars := by
  have ha : Agrees [] (Run.start db).vars := fun b hb => by cases hb
  simpa using (st.scoping.statements.mono st.within).agrees st.ran ha

theorem keyed (st : Stage write params db c ds run) (h : db.store.Keyed) : run.store.Keyed :=
  st.ran.keyed h

theorem issued (st : Stage write params db c ds run) (h : db.store.Issued db.lastKey) :
    run.store.Issued run.lastKey :=
  st.ran.issued h

/-- A reference with a value at a stage. -/
theorem exists_value (st : Stage write params db c ds run)
    (reads : Reads c.params (bindings c.statements) r) : ∃ v, r.value (run.scope params) = .ok v :=
  (reads.mono st.within fun _ hb => hb).exists_value st.agrees

/-! ### Moments -/

/-- The moment at which a statement of a script has run, with what came before and after it. What is
set by then is not set again. -/
structure Moment (write : NameSet) (params : Record Json) (db : Database) (script : List Statement)
    (s : Statement) (run before after : Run) (Γ : List (String × Holding)) : Prop where
  earlier : ∃ ss tt, script = ss ++ s :: tt ∧ PerformsAll write params ss (Run.start db) before
  performs : Performs write params s before after
  reads : Scoped params Γ s
  known : ∀ x ∈ Γ, x ∈ bindings script
  fresh : ∀ x, s.binding? = some x → x.1 ∉ Γ.map Prod.fst
  later : ∃ ss, PerformsAll write params ss after run ∧
    ∀ b ∈ partsOf ss, ∀ x, b.binding? = some x → x.1 ∉ (Γ ++ s.binding?.toList).map Prod.fst

theorem exists_moment {s : Statement} (st : Stage write params db c ds run) (hs : s ∈ c.statements) :
    ∃ before after Γ, Moment write params db c.statements s run before after Γ := by
  obtain ⟨ss, tt, split⟩ := List.append_of_mem hs
  have ran := st.ran
  have all := st.scoping.statements.mono st.within
  have nodup := all.nodup List.nodup_nil
  rw [split] at ran all nodup
  obtain ⟨before, p, rest⟩ := performsAll_append.mp ran
  cases rest with
  | @cons _ _ _ after _ first others =>
      obtain ⟨_, own, fresh, rest⟩ := scopedAll_append.mp all
      have tail : bindings (s :: tt) = s.binding?.toList ++ bindings tt := by
        cases hb : s.binding? <;> simp [bindings, hb]
      rw [List.nil_append, bindings_append, tail, ← List.append_assoc, List.map_append] at nodup
      refine ⟨before, after, bindings ss, ⟨ss, tt, split, p⟩, first, by simpa using own,
        fun x hx => ?_, by simpa using fresh, tt, others, ?_⟩
      · rw [split, bindings_append]
        exact List.mem_append_left _ hx
      intro b hb x hx again
      have mine : x ∈ bindings tt := by
        rw [← rest.bindings_partsOf]
        exact List.mem_filterMap.mpr ⟨b, hb, hx⟩
      exact (List.nodup_append.mp nodup).2.2 x.1 again x.1 (List.mem_map_of_mem mine) rfl

namespace Moment

variable {script : List Statement} {s : Statement} {before after : Run} {Γ : List (String × Holding)}

theorem lastKey_le (h : Moment write params db script s run before after Γ) :
    before.lastKey ≤ run.lastKey := by
  obtain ⟨ss, p, _⟩ := h.later
  exact Nat.le_trans (performsAll_singleton.mpr h.performs).lastKey_le p.lastKey_le

/-- The variable that the statement has set is not set again. -/
theorem get?_vars_eq {x : String × Holding} (h : Moment write params db script s run before after Γ)
    (sets : s.binding? = some x) : run.vars.get? x.1 = after.vars.get? x.1 := by
  obtain ⟨ss, p, anew⟩ := h.later
  refine p.get?_vars_eq fun b hb y hy same => anew b hb y hy ?_
  rw [same, sets, Option.toList_some, List.map_append]
  exact List.mem_append_right _ List.mem_cons_self

/-- A reference that the statement reads keeps its value. -/
theorem value_eq (h : Moment write params db script s run before after Γ) (hr : r ∈ s.refs) :
    r.value (run.scope params) = r.value (before.scope params) := by
  obtain ⟨ss, p, anew⟩ := h.later
  refine Ref.value_congr rfl fun var hv => ?_
  have bound := (h.reads.refs_named hr).2 var hv
  have own := h.performs.vars_eq h.reads
  have kept : run.vars.get? var = after.vars.get? var := by
    refine p.get?_vars_eq fun b hb x hx e => anew b hb x hx ?_
    rw [e, List.map_append]
    exact List.mem_append_left _ bound
  rcases sets : s.binding? with _ | x
  · rw [sets] at own
    exact kept.trans (congrArg (Record.get? · var) own)
  · rw [sets] at own
    obtain ⟨v, _, same⟩ := own
    have other : var ≠ x.1 := fun e => h.fresh x sets (e ▸ bound)
    rw [same, Record.get?_insert, if_neg other] at kept
    exact kept

end Moment

/-! ### Ids of documents -/

theorem value_field_doc {var field : String} {d : Document}
    (held : run.vars.get? var = some (.obj d)) :
    (Ref.field (.doc var) field).value (run.scope params) = .ok (d.read field) := by
  have value : (Ref.doc var).value (run.scope params) = .ok (.obj d) := value_doc held
  simp only [Ref.value] at value ⊢
  rw [value]
  rfl

theorem value_id_doc {var i : String} {d : Document} (held : run.vars.get? var = some (.obj d))
    (id : Record.get? d Field.id = some (.str i)) :
    (Ref.doc var).id.value (run.scope params) = .ok (.str i) := by
  rw [Ref.id, value_field_doc held, Document.read_of_get? id]

/-- A document that has been written has an id of its collection, and the id has been given out. -/
theorem wrote {var C : String} (st : Stage write params db c ds run) (keyed : db.store.Keyed)
    (issued : db.store.Issued db.lastKey) (h : c.Wrote var C) :
    ∃ i, (Ref.doc var).id.value (run.scope params) = .ok (.str i) ∧ IssuedIn run.lastKey C i := by
  obtain ⟨s, hs, binds, target⟩ := h
  obtain ⟨before, after, Γ, moment⟩ := st.exists_moment hs
  obtain ⟨ss, _, _, p⟩ := moment.earlier
  obtain ⟨_, later, _⟩ := moment.later
  -- Both an insertion and an update leave a document in the variable, under a key that was given out.
  obtain ⟨d, n, held, hn, id⟩ : ∃ d n, after.vars.get? var = some (.obj d) ∧ n ≤ after.lastKey ∧
      Record.get? d Field.id = some (.str (DocumentId.ofKey C (toString n)).text) := by
    cases moment.performs with
    | insert =>
        cases binds
        cases target
        exact ⟨_, before.lastKey + 1, (Record.get?_insert ..).trans (if_pos rfl), Nat.le_refl _,
          get?_id_keyed _ _ _⟩
    | update _ _ _ there _ found =>
        cases binds
        cases target
        have old := NameMap.mem_of_get? found
        rw [← Store.documents_eq there] at old
        obtain ⟨n, hn, key⟩ := p.issued issued _ _ old
        refine ⟨_, n, (Record.get?_insert ..).trans (if_pos rfl), hn, ?_⟩
        rw [get?_id_merge, ← key]
        exact p.keyed keyed _ _ old
    | comment | remove | miss | removeEdges | bind | setResult | pass | enter | assert => cases target
  refine ⟨_, value_id_doc (d := d) ?_ id, n, Nat.le_trans hn later.lastKey_le, rfl⟩
  rw [← held]
  exact moment.get?_vars_eq binds

/-- An id that has been looked for has been given out in one of the collections. -/
theorem asserted {collections : List String} {message : Message}
    (st : Stage write params db c ds run) (keyed : db.store.Keyed)
    (issued : db.store.Issued db.lastKey)
    (h : .assert (.missing r collections) message ∈ c.statements) :
    ∃ i, r.value (run.scope params) = .ok (.str i) ∧ ∃ C ∈ collections, IssuedIn run.lastKey C i := by
  obtain ⟨before, after, Γ, moment⟩ := st.exists_moment h
  obtain ⟨ss, _, _, p⟩ := moment.earlier
  cases moment.performs with
  | assert clean =>
      obtain ⟨i, value, _, C, hC, has⟩ := exists_of_missing_clean clean
      obtain ⟨key, rfl, d, stored⟩ := (p.keyed keyed).hasId_iff.mp has
      obtain ⟨n, hn, rfl⟩ := p.issued issued C _ stored
      refine ⟨_, ?_, C, hC, n, Nat.le_trans hn moment.lastKey_le, rfl⟩
      rw [← value]
      exact moment.value_eq (List.mem_append_left _ List.mem_cons_self)

/-- The ids for which a script vouches have been given out in one of the collections. -/
theorem vouched {collections : List String} (st : Stage write params db c ds run)
    (keyed : db.store.Keyed) (issued : db.store.Issued db.lastKey) (h : c.Vouches collections r) :
    ∃ i, r.value (run.scope params) = .ok (.str i) ∧ ∃ C ∈ collections, IssuedIn run.lastKey C i := by
  cases h with
  | written wrote possible =>
      obtain ⟨i, value, given⟩ := st.wrote keyed issued wrote
      exact ⟨i, value, _, possible, given⟩
  | checked given given' alike asserted =>
      obtain ⟨i, value, found⟩ := st.asserted keyed issued asserted
      refine ⟨i, ?_, found⟩
      rw [← value]
      exact st.scoping.value_eq given given' (alike c (.refl c)) st.within

end Stage

end DocGraph
