import DocGraph.Proofs.Emission
import DocGraph.Proofs.Parts

/-! # Mutations keep to the steps

`Conforms m D x c ds post` says of a part `x` of a mutation, begun in the context `c` with the duties
`ds`: if it succeeds, it has gone through a trace of steps to a context for which `post` holds, and
without memory it adds the statements of that trace; if it fails, it fails without memory too, and with
the same error. Sequences are put together by `Conforms.bind`. The rest is about the small parts that
all mutations share: names, locks, variables in the input, and exports. -/

namespace DocGraph

variable {m : Model} {D : Demands} {α β : Type} {c : Context} {ds : List Duty}

/-- Keeps to the steps, with and without memory. -/
def Conforms (m : Model) (D : Demands) (x : Synthesis α) (c : Context) (ds : List Duty)
    (post : α → Context → List Duty → Prop) : Prop :=
  c.Tidy m.schema →
    match outcome x c with
    | (.ok a, c') => ∃ ss ds', Trace m D c ds ss c' ds' ∧ post a c' ds' ∧
        ∀ base, outcome x (c.plain base) = (.ok a, c'.plain (base ++ ss))
    | (.error e, _) => ∀ base, (outcome x (c.plain base)).1 = .error e

/-- Neither duties nor remembered checks change. -/
def Quiet (c : Context) (ds : List Duty) (c' : Context) (ds' : List Duty) : Prop :=
  ds' = ds ∧ c'.memo = c.memo

theorem Quiet.refl (c : Context) (ds : List Duty) : Quiet c ds c ds :=
  ⟨rfl, rfl⟩

theorem Quiet.trans {c₁ c₂ c₃ : Context} {ds₁ ds₂ ds₃ : List Duty} (h : Quiet c₁ ds₁ c₂ ds₂)
    (h' : Quiet c₂ ds₂ c₃ ds₃) : Quiet c₁ ds₁ c₃ ds₃ :=
  ⟨h'.1.trans h.1, h'.2.trans h.2⟩

namespace Conforms

theorem of_ok {x : Synthesis α} {post : α → Context → List Duty → Prop} {a : α} {c' : Context}
    {ds' : List Duty} {ss : List Statement} (h : outcome x c = (.ok a, c'))
    (tr : Trace m D c ds ss c' ds') (hp : post a c' ds')
    (twin : ∀ base, outcome x (c.plain base) = (.ok a, c'.plain (base ++ ss))) :
    Conforms m D x c ds post := by
  intro _
  rw [h]
  exact ⟨ss, ds', tr, hp, twin⟩

theorem of_error {x : Synthesis α} {post : α → Context → List Duty → Prop} {e : Error}
    {c' : Context} (h : outcome x c = (.error e, c'))
    (twin : ∀ base, (outcome x (c.plain base)).1 = .error e) : Conforms m D x c ds post := by
  intro _
  rw [h]
  exact twin

theorem of_pure {post : α → Context → List Duty → Prop} (a : α) (hp : post a c ds) :
    Conforms m D (pure a) c ds post :=
  of_ok (outcome_pure a c) .refl hp fun base => by simp

theorem of_throw {post : α → Context → List Duty → Prop} (e : Error) :
    Conforms m D (throw e) c ds post :=
  of_error (outcome_throw e c) fun _ => rfl

theorem of_tidy {x : Synthesis α} {post : α → Context → List Duty → Prop}
    (h : c.Tidy m.schema → Conforms m D x c ds post) : Conforms m D x c ds post :=
  fun tidy => h tidy tidy

/-- A single step that adds the statements `ss`. -/
theorem of_emits {x : Synthesis α} {post : α → Context → List Duty → Prop} {a : α} {c' : Context}
    {ds' : List Duty} {ss : List Statement} (h : outcome x c = (.ok a, c'))
    (e : Emits m D c ds ss c' ds') (hp : post a c' ds')
    (twin : ∀ base, outcome x (c.plain base) = (.ok a, c'.plain (base ++ ss))) :
    Conforms m D x c ds post :=
  of_ok h (Trace.refl.step e) hp twin

theorem mono {x : Synthesis α} {P Q : α → Context → List Duty → Prop}
    (h : Conforms m D x c ds P) (hPQ : ∀ a c' ds', c.Extends c' → P a c' ds' → Q a c' ds') :
    Conforms m D x c ds Q := by
  intro tidy
  have h := h tidy
  rcases hx : outcome x c with ⟨e | a, c'⟩
  · rw [hx] at h
    exact h
  · rw [hx] at h
    obtain ⟨ss, ds', tr, hp, twin⟩ := h
    exact ⟨ss, ds', tr, hPQ a c' ds' tr.extends hp, twin⟩

/-- Two parts one after the other. -/
theorem bind {x : Synthesis α} {f : α → Synthesis β} {P : α → Context → List Duty → Prop}
    {Q : β → Context → List Duty → Prop} (hx : Conforms m D x c ds P)
    (hf : ∀ a c' ds', c.Extends c' → P a c' ds' → Conforms m D (f a) c' ds' Q) :
    Conforms m D (x >>= f) c ds Q := by
  intro tidy
  have hx := hx tidy
  rcases ho : outcome x c with ⟨e | a, c'⟩
  · rw [ho] at hx
    rw [outcome_bind_of_error ho]
    intro base
    rcases ho' : outcome x (c.plain base) with ⟨e' | a', c''⟩
    · rw [outcome_bind_of_error ho']
      have ht := hx base
      rw [ho'] at ht
      exact congrArg Except.error (Except.error.inj ht)
    · have ht := hx base
      rw [ho'] at ht
      cases ht
  · rw [ho] at hx
    obtain ⟨ss, ds', tr, hp, twin⟩ := hx
    have hf := hf a c' ds' tr.extends hp (tr.tidy tidy)
    rw [outcome_bind_of_ok ho]
    rcases ho' : outcome (f a) c' with ⟨e | b, c''⟩
    · rw [ho'] at hf
      intro base
      rw [outcome_bind_of_ok (twin base)]
      exact hf (base ++ ss)
    · rw [ho'] at hf
      obtain ⟨tt, ds'', tr', hq, twin'⟩ := hf
      refine ⟨ss ++ tt, ds'', tr.trans tr', hq, fun base => ?_⟩
      rw [outcome_bind_of_ok (twin base), ← List.append_assoc]
      exact twin' (base ++ ss)

/-- A part that is left out unless a condition holds, and what follows. -/
theorem ite_bind {p : Prop} [Decidable p] {x : Synthesis Unit} {f : Unit → Synthesis β}
    {P : Context → List Duty → Prop} {Q : β → Context → List Duty → Prop}
    (hx : p → Conforms m D x c ds fun _ => P) (hn : ¬ p → P c ds)
    (hf : ∀ c' ds', c.Extends c' → P c' ds' → Conforms m D (f ()) c' ds' Q) :
    Conforms m D (if p then x >>= f else f ()) c ds Q := by
  by_cases h : p
  · rw [if_pos h]
    exact (hx h).bind fun _ => hf
  · rw [if_neg h]
    exact hf c ds (.refl c) (hn h)

/-- A part that looks at the context, but neither at its memory nor at its statements. -/
theorem of_get {f : Context → Synthesis α} {post : α → Context → List Duty → Prop}
    (hf : ∀ base, f (c.plain base) = f c) (h : Conforms m D (f c) c ds post) :
    Conforms m D (get >>= f) c ds post := by
  have ho : ∀ b, outcome (get >>= f) b = outcome (f b) b := fun b => by
    rw [outcome_bind, outcome_get]
  intro tidy
  have h := h tidy
  rw [ho]
  rcases hx : outcome (f c) c with ⟨e | a, c'⟩
  · rw [hx] at h
    intro base
    rw [ho, hf]
    exact h base
  · rw [hx] at h
    obtain ⟨ss, ds', tr, hp, twin⟩ := h
    refine ⟨ss, ds', tr, hp, fun base => ?_⟩
    rw [ho, hf]
    exact twin base

end Conforms

/-! ### Names, locks and single statements -/

namespace Synthesis

theorem ensureOpen_conforms :
    Conforms m D ensureOpen c ds fun _ c' ds' => c' = c ∧ ds' = ds := by
  by_cases h : c.isOpen = true
  · have ho : ∀ b : Context, b.isOpen = c.isOpen → outcome ensureOpen b = (.ok ⟨⟩, b) := by
      intro b hb
      simp [ensureOpen, outcome_bind, hb, h]
    exact .of_ok (ho c rfl) .refl ⟨rfl, rfl⟩ fun base => by
      rw [ho (c.plain base) rfl, List.append_nil]
  · have ho : ∀ b : Context, b.isOpen = c.isOpen →
        outcome ensureOpen b = (.error (.synthesis (.closed b.number)), b) := by
      intro b hb
      simp [ensureOpen, outcome_bind, hb, h]
    exact .of_error (ho c rfl) fun base => by rw [ho (c.plain base) rfl]; rfl

theorem ofExcept_conforms (e : Except Error α) :
    Conforms m D (Synthesis.ofExcept e) c ds fun a c' ds' => e = .ok a ∧ c' = c ∧ ds' = ds := by
  cases e with
  | error e => exact .of_throw e
  | ok a => exact .of_pure a ⟨rfl, rfl, rfl⟩

theorem push_conforms {s : Statement} {ds' : List Duty} {post : Unit → Context → List Duty → Prop}
    (e : Emits m D c ds [s] (c.add [s]) ds') (hp : post ⟨⟩ (c.add [s]) ds') :
    Conforms m D (push s) c ds post :=
  .of_emits rfl e hp fun _ => rfl

theorem push_bind_conforms {s : Statement} {ds' : List Duty} {f : Unit → Synthesis β}
    {post : β → Context → List Duty → Prop} (e : Emits m D c ds [s] (c.add [s]) ds')
    (hf : (∀ b, s.binding? = some b → b ∈ bindings (c.add [s]).statements) →
      Conforms m D (f ()) (c.add [s]) ds' post) : Conforms m D (push s >>= f) c ds post := by
  have h : Conforms m D (push s) c ds fun _ c₁ ds₁ => c₁ = c.add [s] ∧ ds₁ = ds' :=
    push_conforms e ⟨rfl, rfl⟩
  refine h.bind fun _ c₁ ds₁ _ h => ?_
  obtain ⟨rfl, rfl⟩ := h
  exact hf fun b => Context.mem_bindings_add

theorem comment_conforms (text : String) :
    Conforms m D (comment text) c ds fun _ => Quiet c ds :=
  push_conforms (.remark text) ⟨rfl, rfl⟩

theorem fail_conforms (text : String) :
    Conforms m D (fail text) c ds fun _ => Quiet c ds :=
  push_conforms (.abort text) ⟨rfl, rfl⟩

theorem freshVar_conforms :
    Conforms m D freshVar c ds fun var c' ds' => ds' = .bind var :: ds ∧ c'.memo = c.memo :=
  .of_emits rfl .name ⟨rfl, rfl⟩ fun base => by rw [List.append_nil]; rfl

theorem lockWrite_conforms (collection : String) :
    Conforms m D (lockWrite collection) c ds fun _ c' ds' =>
      Quiet c ds c' ds' ∧ collection ∈ c'.write :=
  .of_emits rfl (.lockWrite collection) ⟨⟨rfl, rfl⟩, NameSet.mem_insert.mpr (Or.inl rfl)⟩
    fun base => by rw [List.append_nil]; rfl

theorem freshParam_conforms (v : Json) :
    Conforms m D (freshParam v) c ds fun r c' ds' =>
      Quiet c ds c' ds' ∧ ∃ p, r = .param p ∧ c'.params.get? p = some v := by
  by_cases h : c.params.contains (paramName c.nextParam) = true
  · have ho : ∀ b : Context, b.params = c.params → b.nextParam = c.nextParam →
        (outcome (freshParam v) b).1 =
          .error (.synthesis (.parameterTaken (paramName c.nextParam))) := by
      intro b hp hn
      simp only [freshParam, addParam, outcome_bind, outcome_get, outcome_modify]
      have : b.params.contains (toString "_" ++ toString b.nextParam) = true := by
        rw [hp, hn]
        exact h
      rw [if_pos this, hn]
      rfl
    exact .of_error (Prod.ext (ho c rfl rfl) rfl) fun base => ho (c.plain base) rfl rfl
  · have ho : ∀ b : Context, b.params = c.params → b.nextParam = c.nextParam →
        outcome (freshParam v) b = (.ok (.param (paramName c.nextParam)), b.addParam v) := by
      intro b hp hn
      simp only [freshParam, addParam, outcome_bind, outcome_get, outcome_modify]
      have : ¬ b.params.contains (toString "_" ++ toString b.nextParam) = true := by
        rw [hp, hn]
        exact h
      rw [if_neg this, ← hn]
      rfl
    exact .of_emits (ho c rfl rfl) (.param v (by simpa using h))
      ⟨⟨rfl, rfl⟩, paramName c.nextParam, rfl, c.get?_addParam v⟩
      fun base => by rw [ho (c.plain base) rfl rfl, List.append_nil]; rfl

end Synthesis

/-! ### Locks on several collections -/

namespace Context

/-- Locks collections for reading, one after another. -/
def lockReads (c : Context) (collections : List String) : Context :=
  collections.foldl lockRead c

/-- Locks collections for writing, one after another. -/
def lockWrites (c : Context) (collections : List String) : Context :=
  collections.foldl lockWrite c

theorem lockRead_plain (c : Context) (collection : String) (ss : List Statement) :
    (c.plain ss).lockRead collection = (c.lockRead collection).plain ss := by
  have hw : (c.plain ss).write = c.write := rfl
  unfold lockRead
  rw [hw]
  split <;> rfl

theorem lockReads_plain (c : Context) (collections : List String) (ss : List Statement) :
    (c.plain ss).lockReads collections = (c.lockReads collections).plain ss := by
  induction collections generalizing c with
  | nil => rfl
  | cons C cs ih =>
      show ((c.plain ss).lockRead C).lockReads cs = _
      rw [lockRead_plain, ih]
      rfl

theorem lockWrites_plain (c : Context) (collections : List String) (ss : List Statement) :
    (c.plain ss).lockWrites collections = (c.lockWrites collections).plain ss := by
  induction collections generalizing c with
  | nil => rfl
  | cons C cs ih => exact ih (c.lockWrite C)

theorem lockReads_memoize (c : Context) (collections : List String) (entry : IdKey × String) :
    (c.memoize entry).lockReads collections = (c.lockReads collections).memoize entry := by
  induction collections generalizing c with
  | nil => rfl
  | cons C cs ih =>
      have h : (c.memoize entry).lockRead C = (c.lockRead C).memoize entry := by
        have hw : (c.memoize entry).write = c.write := rfl
        unfold lockRead
        rw [hw]
        split <;> rfl
      show ((c.memoize entry).lockRead C).lockReads cs = _
      rw [h, ih]
      rfl

/-- What locking for reading leaves alone. -/
theorem lockReads_eq (c : Context) (collections : List String) :
    ∃ read, c.lockReads collections = { c with read := read } := by
  induction collections generalizing c with
  | nil => exact ⟨c.read, rfl⟩
  | cons C cs ih =>
      obtain ⟨read, h⟩ := ih (c.lockRead C)
      refine ⟨read, ?_⟩
      show (c.lockRead C).lockReads cs = _
      rw [h]
      unfold lockRead
      split <;> rfl

theorem trace_lockReads (c : Context) (ds : List Duty) (collections : List String) :
    Trace m D c ds [] (c.lockReads collections) ds := by
  induction collections generalizing c with
  | nil => exact .refl
  | cons C cs ih => exact (Trace.refl.step (.lockRead C)).trans (ih (c.lockRead C))

theorem trace_lockWrites (c : Context) (ds : List Duty) (collections : List String) :
    Trace m D c ds [] (c.lockWrites collections) ds := by
  induction collections generalizing c with
  | nil => exact .refl
  | cons C cs ih => exact (Trace.refl.step (.lockWrite C)).trans (ih (c.lockWrite C))

theorem lockReads_extends (c : Context) (collections : List String) :
    c.Extends (c.lockReads collections) := by
  induction collections generalizing c with
  | nil => exact .refl c
  | cons C cs ih => exact (c.extends_lockRead C).trans (ih (c.lockRead C))

theorem locked_lockReads (c : Context) (collections : List String) :
    ∀ C ∈ collections, (c.lockReads collections).Locked C := by
  induction collections generalizing c with
  | nil => intro C hC; cases hC
  | cons A cs ih =>
      intro C hC
      rcases List.mem_cons.mp hC with rfl | hC
      · exact ((c.lockRead C).lockReads_extends cs).locked (c.locked_lockRead C)
      · exact ih (c.lockRead A) C hC

theorem mem_write_lockWrites (c : Context) (collections : List String) {C : String}
    (h : C ∈ collections ∨ C ∈ c.write) : C ∈ (c.lockWrites collections).write := by
  induction collections generalizing c with
  | nil =>
      rcases h with h | h
      · cases h
      · exact h
  | cons A cs ih =>
      apply ih (c.lockWrite A)
      rcases h with h | h
      · rcases List.mem_cons.mp h with rfl | h
        · exact Or.inr (NameSet.mem_insert.mpr (Or.inl rfl))
        · exact Or.inl h
      · exact Or.inr (NameSet.mem_insert.mpr (Or.inr h))

/-- Locking for reading what is locked changes nothing. -/
theorem lockReads_of_locked {c : Context} (hs : NameSet.Sorted c.read) {collections : List String}
    (h : ∀ C ∈ collections, c.Locked C) : c.lockReads collections = c := by
  induction collections with
  | nil => rfl
  | cons C cs ih =>
      have hC : c.lockRead C = c := by
        unfold lockRead
        by_cases hw : c.write.contains C = true
        · rw [if_pos hw]
        · rw [if_neg hw]
          have hr : C ∈ c.read := by
            rcases h C List.mem_cons_self with hr | hr
            · exact absurd (List.contains_iff_mem.mpr hr) hw
            · exact hr
          rw [NameSet.insert_of_mem hs hr]
      show (c.lockRead C).lockReads cs = c
      rw [hC]
      exact ih fun A hA => h A (List.mem_cons_of_mem C hA)

end Context

namespace Synthesis

theorem outcome_lockReads (c : Context) (collections : List String) :
    outcome (collections.forM lockRead) c = (.ok ⟨⟩, c.lockReads collections) :=
  outcome_forM_modify (fun C (c : Context) => c.lockRead C) collections c

theorem outcome_lockWrites (c : Context) (collections : List String) :
    outcome (collections.forM lockWrite) c = (.ok ⟨⟩, c.lockWrites collections) :=
  outcome_forM_modify (fun C (c : Context) => c.lockWrite C) collections c

theorem lockReads_conforms (collections : List String) :
    Conforms m D (collections.forM lockRead) c ds fun _ c' ds' =>
      Quiet c ds c' ds' ∧ ∀ C ∈ collections, c'.Locked C := by
  refine .of_ok (outcome_lockReads c collections) (c.trace_lockReads ds collections) ?_ ?_
  · obtain ⟨read, h⟩ := c.lockReads_eq collections
    exact ⟨⟨rfl, by rw [h]⟩, c.locked_lockReads collections⟩
  · intro base
    rw [outcome_lockReads, c.lockReads_plain, List.append_nil]

theorem lockRead_conforms (collection : String) :
    Conforms m D (lockRead collection) c ds fun _ c' ds' =>
      Quiet c ds c' ds' ∧ c'.Locked collection := by
  refine (lockReads_conforms [collection]).mono fun _ c' ds' _ h => ?_
  exact ⟨h.1, h.2 collection (List.mem_singleton.mpr rfl)⟩

theorem lockWrites_conforms (collections : List String) :
    Conforms m D (collections.forM lockWrite) c ds fun _ c' ds' =>
      ds' = ds ∧ ∀ C ∈ collections, C ∈ c'.write := by
  refine .of_ok (outcome_lockWrites c collections) (c.trace_lockWrites ds collections) ?_ ?_
  · exact ⟨rfl, fun C hC => c.mem_write_lockWrites collections (Or.inl hC)⟩
  · intro base
    rw [outcome_lockWrites, c.lockWrites_plain, List.append_nil]

/-! ### Variables in the input -/

theorem imports_conforms (data : InputObject) :
    Conforms m D (imports data) c ds fun a c' ds' => Quiet c ds c' ds' ∧ c'.Imported a := by
  induction data generalizing c ds with
  | nil => exact .of_pure [] ⟨⟨rfl, rfl⟩, fun e he => by cases he⟩
  | cons entry rest ih =>
      obtain ⟨field, v⟩ := entry
      cases v with
      | var name =>
          rw [imports]
          refine .of_get (fun _ => rfl) ?_
          cases hr : c.exports.get? name with
          | none =>
              refine .bind (fail_conforms _) fun _ c₁ ds₁ _ q => ?_
              exact ih.mono fun a c' ds' _ h => ⟨q.trans h.1, h.2⟩
          | some r =>
              refine .bind ih fun a c₁ ds₁ e h => .of_pure _ ⟨h.1, ?_⟩
              intro i hi
              rcases List.mem_cons.mp hi with rfl | hi
              · exact ⟨name, e.exports hr⟩
              · exact h.2 i hi
      | null | bool | num | str | list | obj => exact ih

theorem idKey_param {p : String} {v : Json} (h : c.params.get? p = some v) {i : String} :
    idKey c (.param p) = .literal i ↔ v = .str i := by
  simp only [idKey, h]
  cases v <;> simp

/-- An id argument resolves to a parameter or an export, and to a known id only if it is that id. -/
theorem resolveId_conforms (id : Input) :
    Conforms m D (resolveId id) c ds fun r c' ds' =>
      Quiet c ds c' ds' ∧ c'.Given r ∧
        ∀ c'' i, c'.Extends c'' → idKey c'' r = .literal i → id = .str i := by
  cases id with
  | str text =>
      refine (freshParam_conforms (.str text)).mono fun r c' ds' _ h => ?_
      obtain ⟨q, p, rfl, hp⟩ := h
      refine ⟨q, .param hp, fun c'' i e hi => ?_⟩
      rw [Json.str.inj ((idKey_param (e.params hp)).mp hi)]
  | var name =>
      rw [resolveId]
      refine .of_get (fun _ => rfl) ?_
      cases hr : c.exports.get? name with
      | none =>
          refine .bind (fail_conforms _) fun _ c₁ ds₁ _ q => ?_
          refine (freshParam_conforms .null).mono fun r c' ds' _ h => ?_
          obtain ⟨q', p, rfl, hp⟩ := h
          refine ⟨q.trans q', .param hp, fun c'' i e hi => ?_⟩
          cases (idKey_param (e.params hp)).mp hi
      | some r =>
          refine .of_tidy fun tidy => ?_
          have hx : r = .exported name := tidy.exported hr
          subst hx
          exact .of_pure _ ⟨⟨rfl, rfl⟩, .exported hr, fun _ i _ hi => by cases hi⟩
  | null | bool | num | list | obj => exact .of_throw _

/-! ### Exports -/

theorem exportVar_conforms {name : String} {var field : String} (legal : isExportName name = true)
    (bound : (var, .document) ∈ bindings c.statements) :
    Conforms m D (do exportVar name (.exported name); push (.bind name (.field (.doc var) field)))
      c ds fun _ => Quiet c ds := by
  by_cases h : c.exports.contains name = true
  · have ho : ∀ b : Context, b.exports = c.exports →
        (outcome (do exportVar name (.exported name); push (.bind name (.field (.doc var) field))) b).1 =
          .error (.input (.exportedTwice name)) := by
      intro b hb
      simp [exportVar, outcome_bind, hb, h]
    exact .of_error (Prod.ext (ho c rfl) rfl) fun base => ho (c.plain base) rfl
  · have ho : ∀ b : Context, b.exports = c.exports →
        outcome (do exportVar name (.exported name); push (.bind name (.field (.doc var) field))) b =
          (.ok ⟨⟩, (b.addExport name).add [.bind name (.field (.doc var) field)]) := by
      intro b hb
      have hn : b.exports.contains name = false := by simpa [hb] using h
      simp only [exportVar, outcome_bind, outcome_get, hn]
      rfl
    exact .of_emits (ho c rfl) (.export legal (by simpa using h) bound) ⟨rfl, rfl⟩
      fun base => ho (c.plain base) rfl

theorem exportField_conforms {var : String} (field : String) (name? : Option String)
    (bound : (var, .document) ∈ bindings c.statements) :
    Conforms m D (exportField var field name?) c ds fun _ => Quiet c ds := by
  cases name? with
  | none => exact .of_pure _ (Quiet.refl c ds)
  | some name =>
      unfold exportField
      by_cases legal : isExportName name = true
      · simp only [legal, Bool.not_true, Bool.false_eq_true, if_false]
        exact exportVar_conforms legal bound
      · simp only [legal]
        exact .of_throw _

/-- Adding nothing to do passes on, in a script that has a document in `var`. -/
theorem composes_quiet (m : Model) (D : Demands) (var : String) :
    Composes fun {α} (x : Synthesis α) => ∀ c ds, (var, .document) ∈ bindings c.statements →
      Conforms m D x c ds fun _ => Quiet c ds where
  pure a c ds _ := .of_pure a (Quiet.refl c ds)
  throw e _ _ _ := .of_throw e
  bind first later c ds bound := by
    refine .bind (first c ds bound) fun a c₁ ds₁ e₁ q₁ => ?_
    exact (later a c₁ ds₁ (e₁.bindings bound)).mono fun _ _ _ _ q => q₁.trans q

theorem exportSelection_conforms {var : String} (exports : Option Selection)
    (bound : (var, .document) ∈ bindings c.statements) :
    Conforms m D (exportSelection var exports) c ds fun _ => Quiet c ds :=
  (composes_quiet m D var).exportSelection (fun text _ _ _ => fail_conforms text)
    (fun name exportAs _ _ bound => exportField_conforms name exportAs bound) exports c ds bound

end Synthesis

end DocGraph
