import DocGraph.Proofs.Request
import DocGraph.Proofs.Scope

/-! # Scripts of requests are well scoped

Along the course of a context, all its statements are scoped, those that wait for the end included
(`Scoping`). The names that are set are the document variables taken so far and the exported names, and
these never meet. Each duty refers to names that are set, apart from those that are still to be bound.

The main statement is `submitted_wellScoped`: whatever calls a request has taken, the transaction that
it hands over is well scoped and never stumbles over a name when it runs. -/

namespace DocGraph

variable {m : Model} {D : Demands} {c c' : Context} {d : Duty} {ds ds' : List Duty}
  {s : Statement} {ss : List Statement}

/-! ### Names in a context -/

/-- A document variable that has been given out. -/
def Context.Taken (c : Context) (name : String) : Prop :=
  ∃ k, k < c.nextVar ∧ name = varName k

/-- The name that a duty is to bind. -/
def Duty.var? : Duty → Option String
  | .bind var => some var
  | _ => none

/-- The names of a duty are set, or taken and not yet set. -/
def Duty.Scoped (c : Context) : Duty → Prop
  | .bind var => c.Taken var ∧ var ∉ (bindings c.statements).map Prod.fst
  | .key var _ => (var, .document) ∈ bindings c.statements
  | .edges var _ => (var, .removed) ∈ bindings c.statements
  | .directives _ id none => Reads c.params (bindings c.statements) id
  | .directives _ id (some condition) => ∃ var, condition = .doc var ∧
      (var, .removed) ∈ bindings c.statements ∧
      Reads c.params ((var, .document) :: bindings c.statements) id
  | .forget id => c.Given id

/-- A context all of whose statements are scoped. -/
structure Scoping (c : Context) (ds : List Duty) : Prop where
  statements : ScopedAll c.params [] c.statements
  silent : ∀ s ∈ c.deferred, s.binding? = none
  deferred : ∀ s ∈ c.deferred, Scoped c.params (bindings c.statements) s
  names : ∀ b ∈ bindings c.statements,
    c.Taken b.1 ∨ isExportName b.1 = true ∧ c.exports.contains b.1 = true
  exports : ∀ {n r}, c.exports.get? n = some r →
    r = .exported n ∧ (n, .value) ∈ bindings c.statements
  duties : ∀ d ∈ ds, d.Scoped c
  nodup : (ds.filterMap Duty.var?).Nodup

theorem Scoping.empty (number : Nat) (remembers : Bool) :
    Scoping (Context.empty number remembers) [] where
  statements := trivial
  silent _ h := by cases h
  deferred _ h := by cases h
  names _ h := by cases h
  exports h := by cases h
  duties _ h := by cases h
  nodup := List.nodup_nil

/-- Duties other than binding a name stay scoped. -/
theorem Duty.Scoped.mono (h : d.Scoped c) (e : c.Extends c') (hd : d.var? = none) :
    d.Scoped c' := by
  cases d with
  | bind var => cases hd
  | key var type => exact e.bindings h
  | edges var type => exact e.bindings h
  | directives type id condition =>
      cases condition with
      | none => exact Reads.mono h e.params fun _ => e.bindings
      | some condition =>
          obtain ⟨var, hc, hv, hr⟩ := h
          refine ⟨var, hc, e.bindings hv, hr.mono e.params fun b hb => ?_⟩
          rcases List.mem_cons.mp hb with rfl | hb
          · exact List.mem_cons_self
          · exact List.mem_cons_of_mem _ (e.bindings hb)
  | forget id => exact Context.Given.mono h e

/-- A change that adds no statement keeps all duties scoped. -/
theorem Duty.Scoped.keep (h : d.Scoped c) (e : c.Extends c') (hs : c'.statements = c.statements)
    (hn : c.nextVar ≤ c'.nextVar) : d.Scoped c' := by
  by_cases hv : d.var? = none
  · exact h.mono e hv
  · cases d with
    | bind var =>
        obtain ⟨⟨k, hk, hb⟩, hu⟩ := h
        exact ⟨⟨k, Nat.lt_of_lt_of_le hk hn, hb⟩, by rw [hs]; exact hu⟩
    | key | edges | directives | forget => exact absurd rfl hv

namespace Scoping

theorem tail (h : Scoping c (d :: ds)) : Scoping c ds where
  statements := h.statements
  silent := h.silent
  deferred := h.deferred
  names := h.names
  exports := h.exports
  duties d hd := h.duties d (List.mem_cons_of_mem _ hd)
  nodup := by
    have hn := h.nodup
    rw [List.filterMap_cons] at hn
    split at hn
    · exact hn
    · exact (List.nodup_cons.mp hn).2

/-- A change that adds no statement. -/
theorem keep (h : Scoping c ds) (e : c.Extends c') (hs : c'.statements = c.statements)
    (hd : c'.deferred = c.deferred) (hn : c.nextVar ≤ c'.nextVar) (hx : c'.exports = c.exports) :
    Scoping c' ds where
  statements := by
    rw [hs]
    exact h.statements.mono e.params
  silent := by
    rw [hd]
    exact h.silent
  deferred := by
    rw [hd, hs]
    exact fun s hm => (h.deferred s hm).mono e.params fun _ hb => hb
  names := by
    rw [hs, hx]
    intro b hb
    rcases h.names b hb with ⟨k, hk, hb⟩ | hb
    · exact Or.inl ⟨k, Nat.lt_of_lt_of_le hk hn, hb⟩
    · exact Or.inr hb
  exports := by
    rw [hs, hx]
    exact h.exports
  duties d hm := (h.duties d hm).keep e hs hn
  nodup := h.nodup

theorem reads_given (h : Scoping c ds) {r : Ref} (given : c.Given r) :
    Reads c.params (bindings c.statements) r := by
  cases given with
  | param given => exact .param given
  | exported given =>
      obtain ⟨rfl, set⟩ := h.exports given
      exact .exported set

theorem reads_known (h : Scoping c ds) {r : Ref} (known : c.Known r) :
    Reads c.params (bindings c.statements) r := by
  cases known with
  | given given => exact h.reads_given given
  | document bound => exact .field bound

theorem reads_imported (h : Scoping c ds) {imports : List (String × Ref)}
    (imported : c.Imported imports) : ∀ e ∈ imports, Reads c.params (bindings c.statements) e.2 := by
  intro e he
  obtain ⟨name, hn⟩ := imported e he
  exact h.reads_given (.exported hn)

/-- Statements that set nothing. -/
theorem say (h : Scoping c ds) (silent : ∀ s ∈ ss, s.binding? = none)
    (hs : ∀ s ∈ ss, Scoped c.params (bindings c.statements) s) : Scoping (c.add ss) ds := by
  have hb : bindings (c.add ss).statements = bindings c.statements := by
    have : bindings ss = [] := List.filterMap_eq_nil_iff.mpr silent
    simp [Context.add, this]
  refine ⟨?_, h.silent, ?_, ?_, ?_, ?_, h.nodup⟩
  · exact scopedAll_append.mpr ⟨h.statements, scopedAll_of_silent silent (by rw [List.nil_append]; exact hs)⟩
  · rw [hb]
    exact h.deferred
  · rw [hb]
    exact h.names
  · rw [hb]
    exact h.exports
  · intro d hd
    by_cases hv : d.var? = none
    · exact (h.duties d hd).mono (c.extends_add ss) hv
    · cases d with
      | bind var =>
          obtain ⟨taken, hu⟩ := h.duties _ hd
          exact ⟨taken, by rw [hb]; exact hu⟩
      | key | edges | directives | forget => exact absurd rfl hv

theorem say_one (h : Scoping c ds) (silent : s.binding? = none)
    (hs : Scoped c.params (bindings c.statements) s) : Scoping (c.add [s]) ds :=
  h.say (fun _ ht => List.mem_singleton.mp ht ▸ silent) fun _ ht => List.mem_singleton.mp ht ▸ hs

/-- A statement that sets the name on top of the duties, and owes something else instead. -/
theorem set {var : String} {held : Holding} (owed : List Duty) (h : Scoping c (.bind var :: ds))
    (hs : Scoped c.params (bindings c.statements) s) (hb : s.binding? = some (var, held))
    (ho : ∀ d ∈ owed, d.var? = none ∧ d.Scoped (c.add [s])) : Scoping (c.add [s]) (owed ++ ds) := by
  obtain ⟨taken, fresh⟩ := h.duties _ List.mem_cons_self
  have hbs : bindings (c.add [s]).statements = bindings c.statements ++ [(var, held)] := by
    simp [Context.add, bindings, hb]
  have hn := h.nodup
  rw [List.filterMap_cons] at hn
  obtain ⟨hvar, hn⟩ := List.nodup_cons.mp hn
  refine ⟨?_, h.silent, ?_, ?_, ?_, ?_, ?_⟩
  · refine scopedAll_append.mpr ⟨h.statements, by rw [List.nil_append]; exact hs, fun b hb' => ?_,
      trivial⟩
    rw [hb] at hb'
    cases hb'
    simpa using fresh
  · intro t ht
    exact (h.deferred t ht).mono (fun hp => hp) fun b => (c.extends_add [s]).bindings
  · rw [hbs]
    intro b hb'
    rcases List.mem_append.mp hb' with hb' | hb'
    · exact h.names b hb'
    · rw [List.mem_singleton.mp hb']
      exact Or.inl taken
  · intro n r hx
    obtain ⟨hr, hx⟩ := h.exports hx
    exact ⟨hr, (c.extends_add [s]).bindings hx⟩
  · intro d hd
    rcases List.mem_append.mp hd with hd | hd
    · exact (ho d hd).2
    · have hd' := h.duties d (List.mem_cons_of_mem _ hd)
      by_cases hv : d.var? = none
      · exact hd'.mono (c.extends_add [s]) hv
      · cases d with
        | bind other =>
            refine ⟨hd'.1, ?_⟩
            rw [hbs]
            intro hmem
            rw [List.map_append, List.mem_append] at hmem
            rcases hmem with hmem | hmem
            · exact hd'.2 hmem
            · have heq : other = var := by simpa using hmem
              subst heq
              exact hvar (List.mem_filterMap.mpr ⟨_, hd, rfl⟩)
        | key | edges | directives | forget => exact absurd rfl hv
  · have hnil : owed.filterMap Duty.var? = [] :=
      List.filterMap_eq_nil_iff.mpr fun d hd => (ho d hd).1
    rw [List.filterMap_append, hnil, List.nil_append]
    exact hn

/-- An export sets a name that is no document variable and has not been exported. -/
theorem exportName {name : String} {r : Ref} (h : Scoping c ds) (legal : isExportName name = true)
    (free : c.exports.contains name = false) (reads : Reads c.params (bindings c.statements) r) :
    Scoping ((c.addExport name).add [.bind name r]) ds := by
  have not_taken : ¬ c.Taken name := by
    rintro ⟨k, _, rfl⟩
    rw [isExportName_varName] at legal
    cases legal
  have fresh : name ∉ (bindings c.statements).map Prod.fst := by
    intro hm
    obtain ⟨b, hb, rfl⟩ := List.mem_map.mp hm
    rcases h.names b hb with taken | ⟨_, exported⟩
    · exact not_taken taken
    · rw [free] at exported
      cases exported
  have e : c.Extends ((c.addExport name).add [.bind name r]) :=
    (Context.extends_addExport free).trans (Context.extends_add _ _)
  have hbs : bindings ((c.addExport name).add [.bind name r]).statements =
      bindings c.statements ++ [(name, .value)] := by
    simp [Context.add, Context.addExport, bindings, Statement.binding?]
  refine ⟨?_, h.silent, fun t ht => (h.deferred t ht).mono e.params fun b => e.bindings, ?_, ?_,
    ?_, h.nodup⟩
  · refine scopedAll_append.mpr ⟨h.statements, ?_, fun b hb => ?_, trivial⟩
    · rw [List.nil_append]
      exact .bind reads
    · cases hb
      rw [List.nil_append]
      exact fresh
  · rw [hbs]
    intro b hb
    rcases List.mem_append.mp hb with hb | hb
    · rcases h.names b hb with taken | ⟨hl, hx⟩
      · exact Or.inl taken
      · refine Or.inr ⟨hl, ?_⟩
        unfold Record.contains at hx ⊢
        obtain ⟨r, hr⟩ := Option.isSome_iff_exists.mp hx
        rw [e.exports hr]
        rfl
    · rw [List.mem_singleton.mp hb]
      refine Or.inr ⟨legal, ?_⟩
      simp [Record.contains, Context.add, Context.addExport, Record.get?_insert]
  · intro n r' hx
    rw [hbs]
    simp only [Context.add, Context.addExport, Record.get?_insert] at hx
    split at hx
    · rename_i hn
      cases hx
      exact ⟨by rw [hn], List.mem_append_right _ (by rw [hn]; exact List.mem_singleton.mpr rfl)⟩
    · obtain ⟨hr, hb⟩ := h.exports hx
      exact ⟨hr, List.mem_append_left _ hb⟩
  · intro d hd
    by_cases hv : d.var? = none
    · exact (h.duties d hd).mono e hv
    · cases d with
      | bind var =>
          obtain ⟨taken, hu⟩ := h.duties _ hd
          refine ⟨taken, ?_⟩
          rw [hbs]
          intro hm
          rw [List.map_append, List.mem_append] at hm
          rcases hm with hm | hm
          · exact hu hm
          · have heq : var = name := by simpa using hm
            exact not_taken (heq ▸ taken)
      | key | edges | directives | forget => exact absurd rfl hv

/-- The next document variable is no name that is set or owed. -/
theorem name (h : Scoping c ds) : Scoping c.addVar (.bind (varName c.nextVar) :: ds) := by
  have hk : Scoping c.addVar ds :=
    h.keep ⟨id, id, id, id, id⟩ rfl rfl (Nat.le_succ c.nextVar) rfl
  have not_taken : ¬ c.Taken (varName c.nextVar) := by
    rintro ⟨k, hk, e⟩
    rw [append_toString_injective e] at hk
    exact Nat.lt_irrefl k hk
  refine ⟨hk.statements, hk.silent, hk.deferred, hk.names, hk.exports, ?_, ?_⟩
  · intro d hd
    rcases List.mem_cons.mp hd with rfl | hd
    · refine ⟨⟨c.nextVar, Nat.lt_succ_self c.nextVar, rfl⟩, fun hm => ?_⟩
      obtain ⟨b, hb, e⟩ := List.mem_map.mp hm
      rcases h.names b hb with taken | ⟨legal, _⟩
      · exact not_taken (e ▸ taken)
      · rw [e, isExportName_varName] at legal
        cases legal
    · exact hk.duties d hd
  · rw [List.filterMap_cons]
    refine List.nodup_cons.mpr ⟨fun hm => ?_, h.nodup⟩
    obtain ⟨d, hd, e⟩ := List.mem_filterMap.mp hm
    cases d with
    | bind var =>
        cases e
        exact not_taken (h.duties _ hd).1
    | key | edges | directives | forget => cases e

end Scoping

/-! ### Steps keep the scoping -/

/-- The check of a directive is about the document alone and compares no keys. -/
theorem refs_of_check? {schema : Schema} {type : String} {f : FieldDef} {id : Ref} {d : Directive}
    {check : Check} {message : String}
    (h : d.check? schema type f id = .ok (some (check, message))) :
    (∀ r ∈ check.refs, r = id) ∧ ∀ r C fields, check ≠ .duplicateKey r C fields := by
  have one : ∀ {r : Ref}, r ∈ [id] → r = id := fun h => List.mem_singleton.mp h
  cases d with
  | noLoops | distinct | uniqueForTarget =>
      cases h
      exact ⟨fun r => one, fun _ _ _ h => by cases h⟩
  | uniqueForInterface interface =>
      simp only [Directive.check?, bind, Except.bind, pure, Except.pure] at h
      split at h
      · cases h
      · cases h
        exact ⟨fun r => one, fun _ _ _ h => by cases h⟩
  | requiredForTarget =>
      simp only [Directive.check?, bind, Except.bind, pure, Except.pure] at h
      split at h
      · cases h
      · cases h
        exact ⟨fun r hr => (by cases hr), fun _ _ _ h => by cases h⟩
  | requiredForInterface interface =>
      simp only [Directive.check?, bind, Except.bind, pure, Except.pure] at h
      split at h
      · cases h
      · split at h
        · cases h
        · cases h
          exact ⟨fun r hr => (by cases hr), fun _ _ _ h => by cases h⟩
  | required =>
      simp only [Directive.check?, bind, Except.bind, pure, Except.pure] at h
      split at h
      · cases h
      · split at h
        · cases h
        · cases h
          exact ⟨fun r => one, fun _ _ _ h => by cases h⟩
  | exported name => cases h

theorem IsDirectiveAssertion.parts_eq {schema : Schema} {t : TypeDef} {type : String} {id : Ref}
    (h : IsDirectiveAssertion schema t type id s) : s.parts = [s] := by
  obtain ⟨_, _, _, _, _, _, _, _, _, rfl⟩ := h
  rfl

theorem IsDirectiveAssertion.scoped {schema : Schema} {t : TypeDef} {type : String} {id : Ref}
    {params : Record Json} {Γ : List (String × Holding)} (h : IsDirectiveAssertion schema t type id s)
    (reads : Reads params Γ id) : Scoped params Γ s ∧ s.binding? = none := by
  obtain ⟨f, _, rules, _, d, _, check, message, hc, rfl⟩ := h
  obtain ⟨refs, keys⟩ := refs_of_check? hc
  refine ⟨.assert (fun r hr => ?_) fun r C fields e => absurd e (keys r C fields), rfl⟩
  rcases List.mem_append.mp hr with hr | hr
  · rw [refs r hr]
    exact reads
  · cases hr

/-- What is deferred for a document is scoped. -/
theorem scoped_deferral {schema : Schema} {t : TypeDef} {type : String} {id : Ref}
    {condition : Option Ref} {assertions : List Statement}
    (hd : (Duty.directives type id condition).Scoped c)
    (ha : ∀ a, a ∈ assertions ↔ IsDirectiveAssertion schema t type id a) :
    ∀ s ∈ deferral assertions condition,
      Scoped c.params (bindings c.statements) s ∧ s.binding? = none := by
  cases condition with
  | none => exact fun s hs => ((ha s).mp hs).scoped hd
  | some condition =>
      obtain ⟨var, rfl, removed, reads⟩ := hd
      intro s hs
      simp only [deferral] at hs
      split at hs
      · cases hs
      · rw [List.mem_singleton.mp hs]
        exact ⟨.guarded removed (fun a h => (((ha a).mp h).scoped reads).2)
          fun a h => (((ha a).mp h).scoped reads).1, rfl⟩

theorem Emits.scoping (h : Emits m D c ds ss c' ds') (sc : Scoping c ds) : Scoping c' ds' := by
  have e := h.extends
  cases h with
  | remark text => exact sc.say_one rfl (.comment text)
  | abort text => exact sc.say_one rfl (.fail fun r hr => by cases hr)
  | param v free => exact sc.keep e rfl rfl (Nat.le_refl _) rfl
  | name => exact sc.name
  | lockWrite C => exact sc.keep e rfl rfl (Nat.le_refl _) rfl
  | lockRead C =>
      obtain ⟨read, hc⟩ : ∃ read, c.lockRead C = { c with read := read } := by
        unfold Context.lockRead
        split
        · exact ⟨c.read, rfl⟩
        · exact ⟨_, rfl⟩
      rw [hc] at e ⊢
      exact sc.keep e rfl rfl (Nat.le_refl _) rfl
  | @insert _ var type p fields imports document imported locked =>
      have hs : Scoped c.params (bindings c.statements) (.insert var type (.param p) imports none) :=
        .insert document (sc.reads_imported imported) fun r hr => by cases hr
      refine sc.set [.key var type, .directives type (Ref.doc var).id none] hs rfl fun d hd => ?_
      rcases List.mem_cons.mp hd with rfl | hd
      · exact ⟨rfl, Context.mem_bindings_add rfl⟩
      · rw [List.mem_singleton.mp hd]
        exact ⟨rfl, .field (Context.mem_bindings_add rfl)⟩
  | @insertEdge _ var type field p fields imports source target document imported hsource htarget
      locked =>
      have hs : Scoped c.params (bindings c.statements)
          (.insert var (edgeCollection type field) (.param p) imports (some (source, target))) := by
        refine .insert document (sc.reads_imported imported) fun r hr => ?_
        rcases List.mem_cons.mp hr with rfl | hr
        · exact sc.reads_known hsource
        · rw [List.mem_singleton.mp hr]
          exact sc.reads_known htarget
      refine sc.set [.directives type source none] hs rfl fun d hd => ?_
      rw [List.mem_singleton.mp hd]
      exact ⟨rfl, (sc.reads_known hsource).mono e.params fun _ => e.bindings⟩
  | @update var type p fields imports id document imported given locked =>
      have hs : Scoped c.params (bindings c.statements) (.update var type id (.param p) imports) :=
        .update document (sc.reads_imported imported) (sc.reads_given given)
      refine sc.set [.key var type, .directives type (Ref.doc var).id none] hs rfl fun d hd => ?_
      rcases List.mem_cons.mp hd with rfl | hd
      · exact ⟨rfl, Context.mem_bindings_add rfl⟩
      · rw [List.mem_singleton.mp hd]
        exact ⟨rfl, .field (Context.mem_bindings_add rfl)⟩
  | @updateEdge var type field p fields imports id document imported given locked =>
      have hs : Scoped c.params (bindings c.statements)
          (.update var (edgeCollection type field) id (.param p) imports) :=
        .update document (sc.reads_imported imported) (sc.reads_given given)
      exact sc.set [] hs rfl fun d hd => by cases hd
  | @remove var type id given locked rule =>
      have hs : Scoped c.params (bindings c.statements) (.remove var type id) :=
        .remove (sc.reads_given given)
      refine sc.set [.edges var type, .directives type (Ref.doc var).id (some (.doc var)), .forget id]
        hs rfl fun d hd => ?_
      simp only [List.mem_cons, List.not_mem_nil, or_false] at hd
      rcases hd with rfl | rfl | rfl
      · exact ⟨rfl, Context.mem_bindings_add rfl⟩
      · exact ⟨rfl, var, rfl, Context.mem_bindings_add rfl, .field List.mem_cons_self⟩
      · exact ⟨rfl, given.mono e⟩
  | @removeEdge var type field id given locked =>
      have hs : Scoped c.params (bindings c.statements)
          (.remove var (edgeCollection type field) id) := .remove (sc.reads_given given)
      refine sc.set [.directives type (.field (.doc var) Field.source) (some (.doc var))] hs rfl
        fun d hd => ?_
      rw [List.mem_singleton.mp hd]
      exact ⟨rfl, var, rfl, Context.mem_bindings_add rfl, .field List.mem_cons_self⟩
  | dropEdges given locked => exact sc.say_one rfl (.removeEdges (sc.reads_given given))
  | @assertExists _ id type label collections given possible locked =>
      have hm : Scoping (c.memoize (Synthesis.idKey c id, type)) ds :=
        sc.keep (c.extends_memoize _) rfl rfl (Nat.le_refl _) rfl
      have reads : ∀ r ∈ [id], Reads c.params (bindings c.statements) r :=
        fun r hr => List.mem_singleton.mp hr ▸ sc.reads_given given
      refine hm.say (fun s hs => ?_) fun s hs => ?_
      all_goals
        simp only [existsCheck, List.mem_cons, List.not_mem_nil, or_false] at hs
        rcases hs with rfl | rfl
      · rfl
      · rfl
      · exact .comment label
      · refine .assert (fun r hr => ?_) fun _ _ _ h => by cases h
        rcases List.mem_append.mp hr with hr | hr
        · exact reads r hr
        · exact reads r hr
  | @assertFree _ source collection field known locked =>
      have reads : ∀ r ∈ [source], Reads c.params (bindings c.statements) r :=
        fun r hr => List.mem_singleton.mp hr ▸ sc.reads_known known
      refine sc.say_one rfl (.assert (fun r hr => ?_) fun _ _ _ h => by cases h)
      rcases List.mem_append.mp hr with hr | hr
      · exact reads r hr
      · exact reads r hr
  | «export» legal free bound => exact sc.exportName legal free (.field bound)
  | @assertKey _ var type k key locked =>
      have document := sc.duties _ List.mem_cons_self
      refine sc.tail.say_one rfl (.assert (fun r hr => ?_) fun r C fields h => ?_)
      · rcases List.mem_append.mp hr with hr | hr
        · rw [List.mem_singleton.mp hr]
          exact .doc document
        · cases hr
      · cases h
        exact ⟨var, rfl, document⟩
  | noKey key => exact sc.tail
  | @clearEdges _ var type collections edges locked =>
      have removed := sc.duties _ List.mem_cons_self
      refine sc.tail.say_one rfl (.guarded removed (fun s hs => ?_) fun s hs => ?_)
      all_goals obtain ⟨C, _, rfl⟩ := List.mem_map.mp hs
      · rfl
      · exact .removeEdges (.field List.mem_cons_self)
  | @defer _ type id condition t assertions type_def directives locked =>
      have hd := scoped_deferral (sc.duties _ List.mem_cons_self) directives
      refine ⟨sc.statements, fun s hs => ?_, fun s hs => ?_, sc.names, sc.exports,
        fun d hd => (sc.tail.duties d hd).keep e rfl (Nat.le_refl _), sc.tail.nodup⟩
      · rcases List.mem_append.mp hs with hs | hs
        · exact sc.silent s hs
        · exact (hd s hs).2
      · rcases List.mem_append.mp hs with hs | hs
        · exact sc.deferred s hs
        · exact (hd s hs).1
  | waive skipped => exact sc.tail
  | @forget _ id =>
      obtain ⟨memo, hc⟩ := c.forget_eq id
      rw [hc] at e ⊢
      exact sc.tail.keep e rfl rfl (Nat.le_refl _) rfl

/-! ### Transactions -/

variable {number : Nat} {remembers : Bool} {answers : List (String × String)}

theorem eq_of_mem_answerStatements {b : Statement} {name var : String}
    (h : b ∈ partsOf (answerStatements name var)) :
    b = .comment "bind result for mutation field" ∨ b = .setResult name (.doc var) := by
  rcases List.mem_cons.mp h with h | h
  · exact Or.inl h
  · exact Or.inr (List.mem_singleton.mp h)

theorem Scoping.answer {held : Holding} {var : String} (h : Scoping c []) (name : String)
    (bound : (var, held) ∈ bindings c.statements) : Scoping (c.answer name var) [] := by
  refine h.say (fun s hs => ?_) fun s hs => ?_
  all_goals
    simp only [answerStatements, List.mem_cons, List.not_mem_nil, or_false] at hs
    rcases hs with rfl | rfl
  · rfl
  · rfl
  · exact .comment _
  · exact .setResult (.doc bound)

theorem Course.scoping (course : Course m D number remembers c ss answers) : Scoping c [] :=
  course.invariant (.empty number remembers) (fun e h => e.scoping h)
    fun _ bound h => h.answer _ bound

/-- The whole script, with what has waited for its end. -/
theorem Scoping.transaction (h : Scoping c []) :
    ScopedAll c.transaction.params [] c.transaction.statements ∧
      bindings c.transaction.statements = bindings c.statements := by
  have silent : ∀ s ∈ finale c.deferred, s.binding? = none := by
    intro s hs
    rcases eq_or_mem_of_mem_finale hs with rfl | hs
    · rfl
    · exact h.silent s hs
  have all : ∀ s ∈ finale c.deferred, Scoped c.params (bindings c.statements) s := by
    intro s hs
    rcases eq_or_mem_of_mem_finale hs with rfl | hs
    · exact .comment _
    · exact h.deferred s hs
  have empty : bindings (finale c.deferred) = [] := List.filterMap_eq_nil_iff.mpr silent
  rw [c.statements_transaction, bindings_append, empty, List.append_nil]
  exact ⟨scopedAll_append.mpr ⟨h.statements, scopedAll_of_silent silent all⟩, rfl⟩

/-- Scoped statements set different names. -/
theorem ScopedAll.nodup {params : Record Json} {Γ : List (String × Holding)}
    (h : ScopedAll params Γ ss) (hn : (Γ.map Prod.fst).Nodup) :
    ((Γ ++ bindings ss).map Prod.fst).Nodup := by
  induction ss generalizing Γ with
  | nil => simpa using hn
  | cons s ss ih =>
      obtain ⟨_, fresh, hss⟩ := h
      have hb : Γ ++ bindings (s :: ss) = Γ ++ s.binding?.toList ++ bindings ss := by
        cases hs : s.binding? <;> simp [bindings, hs]
      rw [hb]
      refine ih hss ?_
      cases hs : s.binding? with
      | none => simpa using hn
      | some b =>
          have hf := fresh b hs
          rw [Option.toList_some, List.map_append, List.nodup_append]
          refine ⟨hn, by simp, fun x hx y hy => ?_⟩
          rw [List.mem_singleton.mp hy]
          exact fun e => hf (e ▸ hx)

/-- A transaction in which every name that occurs is there. -/
structure Transaction.WellScoped (t : Transaction) : Prop where
  /-- Every parameter that is mentioned is bound. -/
  params : ∀ s ∈ t.statements, ∀ r ∈ s.refs, ∀ p, r.param? = some p → t.params.contains p = true
  /-- Every variable that is mentioned is set by an earlier statement that stands under no guard. -/
  vars : ∀ before s after, t.statements = before ++ s :: after → ∀ r ∈ s.refs, ∀ v,
    r.var? = some v → ∃ b ∈ before, ∃ held, b.binding? = some (v, held)
  /-- No two statements set the same variable, under guards or not. -/
  nodup : (bindersOf t.statements).Nodup
  /-- No variable has a name that a script uses itself. -/
  legal : ∀ v ∈ bindersOf t.statements, v ∉ reservedNames

theorem Scoping.wellScoped (h : Scoping c []) : c.transaction.WellScoped := by
  obtain ⟨hs, hb⟩ := h.transaction
  have placed : ∀ before s after, c.transaction.statements = before ++ s :: after →
      Scoped c.params (bindings before) s := by
    intro before s after e
    rw [e] at hs
    have := (scopedAll_append.mp hs).2.1
    rwa [List.nil_append] at this
  refine ⟨fun s hm r hr p hp => ?_, fun before s after e r hr v hv => ?_, ?_, fun v hv => ?_⟩
  · obtain ⟨before, after, e⟩ := List.append_of_mem hm
    exact ((placed before s after e).refs_named hr).1 p hp
  · have hv := ((placed before s after e).refs_named hr).2 v hv
    obtain ⟨b, hb, rfl⟩ := List.mem_map.mp hv
    obtain ⟨t, ht, hb⟩ := List.mem_filterMap.mp hb
    exact ⟨t, ht, b.2, hb⟩
  · rw [bindersOf, hs.bindings_partsOf]
    simpa using hs.nodup List.nodup_nil
  · rw [bindersOf, hs.bindings_partsOf, hb] at hv
    obtain ⟨b, hb, rfl⟩ := List.mem_map.mp hv
    rcases h.names b hb with ⟨k, _, e⟩ | ⟨legal, _⟩
    · rw [e]
      exact varName_not_reserved k
    · exact not_reserved_of_isExportName legal

/-- Running the transaction of a context on course never stumbles over a name. -/
theorem Scoping.not_scopeFault (h : Scoping c []) {db : Database} {e : Error}
    (he : (db.execute c.transaction).1 = .error e) : e.isScopeFault = false := by
  rw [execute_eq] at he
  rcases ho : outcome (Run.performAll c.transaction.write c.transaction.params
    c.transaction.statements) (Run.start db) with ⟨e' | _, run⟩
  · rw [ho] at he
    cases he
    exact h.transaction.1.not_scopeFault (fun b hb => nomatch hb) ho
  · rw [ho] at he
    cases he

/-- Whatever calls a request has taken, the transaction it hands over is well scoped, and on no
database does it fail because a variable is not set, a field is read of null, or a document is
missing where one is meant. -/
theorem submitted_wellScoped (m : Model) (number : Nat) (remembers : Bool) (names : List String)
    (calls : List Call) (call : Call) (t : Transaction)
    (h : submission? (((Request.start number remembers names).after m calls).call m call).1 = some t) :
    t.WellScoped ∧
      ∀ (db : Database) (e : Error), (db.execute t).1 = .error e → e.isScopeFault = false := by
  have on := (Request.onCourse_start m number remembers names).after calls
  obtain ⟨c, _, _, _, _, course, rfl⟩ := ((call_turn m _ call).onCourse on).2 t h
  exact ⟨course.scoping.wellScoped, fun db e he => course.scoping.not_scopeFault he⟩

/-- Persons who know each other. -/
def acquaintances : Model where
  schema := .ofTypes [
    ⟨"Person", .object, [⟨"name", .named "String", []⟩,
      ⟨"knows", .list (.named "Person"), [⟨"noloops", []⟩]⟩], [], [], []⟩]
  settings := .default
  now := 0

/-- A root field that creates a person who knows a new one, and exports the id of the first. -/
def creation : Call where
  now := 0
  isRoot := true
  selection := ⟨"new", [.field "id" (some "person") []]⟩
  mutation := .create "Person" [("knows", .list [.obj [("create", .obj [])]])]

/-- A root field that deletes the person whose id was exported. -/
def deletion : Call where
  now := 1
  isRoot := true
  selection := ⟨"gone", []⟩
  mutation := .delete "Person" (.var "person")

theorem submitted_wellScoped_acquaintances :
    ∃ t, submission? (((Request.start 1 true ["new", "gone"]).after acquaintances [creation]).call
        acquaintances deletion).1 = some t ∧
      t.WellScoped ∧
        ∀ (db : Database) (e : Error), (db.execute t).1 = .error e → e.isScopeFault = false := by
  have h : (submission? (((Request.start 1 true ["new", "gone"]).after acquaintances
    [creation]).call acquaintances deletion).1).isSome = true := by decide +kernel
  obtain ⟨t, ht⟩ := Option.isSome_iff_exists.mp h
  exact ⟨t, ht, submitted_wellScoped _ _ _ _ _ _ t ht⟩

end DocGraph
