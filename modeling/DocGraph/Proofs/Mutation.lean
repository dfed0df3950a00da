import DocGraph.Proofs.Synthesis
import DocGraph.Proofs.Walks

/-! # The six mutations keep to the steps

One lemma for each part of a mutation, in the order of their definitions. A part that takes the name of
its document starts with the duty to bind that name on top, and the duties below it do not change. The
main statement is `synthesize_conforms`. -/

namespace DocGraph

variable {m : Model} {D : Demands} {c : Context} {ds : List Duty}

open Synthesis

/-! ### Directives -/

/-- The statements are those with a property, and what the assertions among them read is locked. -/
def Asserts (c : Context) (P : Statement → Prop) (statements : List Statement) : Prop :=
  (∀ a, a ∈ statements ↔ P a) ∧
    ∀ check message, .assert check message ∈ statements → ∀ C ∈ check.collections, c.Locked C

theorem Asserts.append {c c' : Context} {P Q R : Statement → Prop} {ss tt : List Statement}
    (h : Asserts c P ss) (e : c.Extends c') (h' : Asserts c' Q tt) (hR : ∀ a, R a ↔ P a ∨ Q a) :
    Asserts c' R (ss ++ tt) := by
  refine ⟨fun a => ?_, fun check message ha C hC => ?_⟩
  · rw [List.mem_append, h.1, h'.1, hR]
  · rcases List.mem_append.mp ha with ha | ha
    · exact e.locked (h.2 check message ha C hC)
    · exact h'.2 check message ha C hC

namespace Model

theorem assertion_conforms (check : Check) (message : String) :
    Conforms m D (assertion check message) c ds fun a c' ds' =>
      Quiet c ds c' ds' ∧ Asserts c' (· = .assert check (.ofText message)) [a] := by
  refine .bind (lockReads_conforms check.collections) fun _ c₁ ds₁ _ h => .of_pure _ ⟨h.1, ?_⟩
  refine ⟨fun a => List.mem_singleton, fun check' message' ha C hC => ?_⟩
  cases List.mem_singleton.mp ha
  exact h.2 C hC

theorem fieldAssertions_conforms (type : String) (id : Ref) (f : FieldDef) (rules : List Directive) :
    Conforms m D (m.fieldAssertions type id f rules) c ds fun as c' ds' =>
      Quiet c ds c' ds' ∧ Asserts c' (fun a => ∃ d ∈ rules, ∃ check message,
        d.check? m.schema type f id = .ok (some (check, message)) ∧
          a = .assert check (.ofText message)) as := by
  induction rules generalizing c ds with
  | nil => exact .of_pure [] ⟨.refl c ds, by simp [Asserts]⟩
  | cons d rest ih =>
      rw [fieldAssertions]
      refine .bind (ofExcept_conforms _) fun o c₁ ds₁ _ h => ?_
      obtain ⟨ho, rfl, rfl⟩ := h
      rcases o with _ | ⟨check, message⟩
      · refine ih.mono fun as c' ds' _ h => ⟨h.1, ?_⟩
        have hn : Asserts c₁ (fun _ => False) [] := by simp [Asserts]
        refine hn.append ‹_› h.2 fun a => ?_
        simp [ho]
      · refine .bind (assertion_conforms check message) fun a c₂ ds₂ _ h => ?_
        refine .bind ih fun as c₃ ds₃ e h' => .of_pure _ ⟨h.1.trans h'.1, ?_⟩
        refine h.2.append e h'.2 fun b => ?_
        simp [ho, and_assoc]

theorem typeAssertions_conforms (type : String) (id : Ref) (fields : List FieldDef) :
    Conforms m D (m.typeAssertions type id fields) c ds fun as c' ds' =>
      Quiet c ds c' ds' ∧ Asserts c' (fun a => ∃ f ∈ fields, ∃ rules, f.constraints = .ok rules ∧
        ∃ d ∈ rules, ∃ check message, d.check? m.schema type f id = .ok (some (check, message)) ∧
          a = .assert check (.ofText message)) as ∧
        ∀ f ∈ fields, ∃ rules, f.constraints = .ok rules := by
  induction fields generalizing c ds with
  | nil => exact .of_pure [] ⟨.refl c ds, by simp [Asserts], fun f hf => by cases hf⟩
  | cons f rest ih =>
      rw [typeAssertions]
      refine .bind (ofExcept_conforms _) fun rules c₁ ds₁ _ h => ?_
      obtain ⟨hr, rfl, rfl⟩ := h
      refine .bind (fieldAssertions_conforms type id f rules) fun own c₂ ds₂ _ h => ?_
      refine .bind ih fun others c₃ ds₃ e h' => .of_pure _ ⟨h.1.trans h'.1, ?_, fun g hg => ?_⟩
      · refine h.2.append e h'.2.1 fun a => ?_
        simp [hr]
      · rcases List.mem_cons.mp hg with rfl | hg
        · exact ⟨rules, hr⟩
        · exact h'.2.2 g hg

theorem outcome_defers (c : Context) (ss : List Statement) :
    outcome (ss.forM defer) c = (.ok ⟨⟩, c.addDeferred ss) := by
  refine (outcome_forM_modify (fun s (c : Context) => c.addDeferred [s]) ss c).trans ?_
  congr 1
  induction ss generalizing c with
  | nil => simp [Context.addDeferred]
  | cons s ss ih =>
      refine (ih (c.addDeferred [s])).trans ?_
      simp [Context.addDeferred]

/-- Deferring what there is to defer. -/
theorem outcome_deferral (c : Context) (assertions : List Statement) (guard? : Option Ref) :
    outcome (if assertions.isEmpty then pure () else
        match guard? with
        | some condition => defer (.guarded condition assertions)
        | none => assertions.forM defer) c =
      (.ok ⟨⟩, c.addDeferred (deferral assertions guard?)) := by
  by_cases h : assertions.isEmpty = true
  · have hd : deferral assertions guard? = [] := by
      cases guard? with
      | none => exact List.isEmpty_iff.mp h
      | some condition => exact if_pos h
    rw [if_pos h, hd]
    simp [Context.addDeferred]
  · rw [if_neg h]
    cases guard? with
    | none => exact outcome_defers c assertions
    | some condition =>
        have hd : deferral assertions (some condition) = [.guarded condition assertions] := if_neg h
        rw [hd]
        rfl

theorem deferChecks_conforms (type : String) (id : Ref) (guard? : Option Ref) :
    Conforms m D (m.deferChecks type id guard?) c (.directives type id guard? :: ds)
      fun _ c' ds' => ds' = ds ∧ c'.memo = c.memo := by
  unfold deferChecks
  by_cases skipped : m.settings.skipDirectives = true
  · rw [if_pos skipped]
    exact .of_emits rfl (.waive skipped) ⟨rfl, rfl⟩ fun base => by rw [List.append_nil]; rfl
  · rw [if_neg skipped]
    refine .bind (ofExcept_conforms _) fun _ c₁ ds₁ _ h => ?_
    obtain ⟨_, rfl, rfl⟩ := h
    refine .bind (ofExcept_conforms _) fun t c₁ ds₁ _ h => ?_
    obtain ⟨ht, rfl, rfl⟩ := h
    refine .bind (typeAssertions_conforms type id t.fields) fun as c₂ ds₂ _ h => ?_
    obtain ⟨⟨rfl, hm⟩, ⟨ha, hl⟩, legible⟩ := h
    exact .of_emits (outcome_deferral c₂ as guard?) (.defer ht ha hl legible) ⟨rfl, hm⟩ fun base => by
      rw [List.append_nil]
      exact outcome_deferral (c₂.plain base) as guard?

/-! ### Keys -/

theorem checkKey_conforms (var type : String) :
    Conforms m D (m.checkKey var type) c (.key var type :: ds)
      fun _ c' ds' => ds' = ds ∧ c'.memo = c.memo := by
  unfold checkKey
  cases hk : m.schema.keyType? type with
  | none => exact .of_emits rfl (.noKey hk) ⟨rfl, rfl⟩ fun base => by rw [List.append_nil]; rfl
  | some k =>
      refine .bind (lockRead_conforms type) fun _ c₁ ds₁ _ h => ?_
      obtain ⟨⟨rfl, hm₁⟩, hl⟩ := h
      refine .bind (comment_conforms _) fun _ c₂ ds₂ e q => ?_
      obtain ⟨rfl, hm₂⟩ := q
      exact push_conforms (.assertKey hk (e.locked hl)) ⟨rfl, hm₂.trans hm₁⟩

/-! ### Existence checks -/

/-- The check of an id, once it is known to be needed. -/
theorem outcome_existsCheck (c : Context) (id : Ref) (type label : String)
    (collections : List String) :
    outcome (do
        collections.forM lockRead
        comment label
        push (.assert (.missing id collections)
          ⟨[.text "Object '", .value id, .text s!"' does not exist as instance of {type}"]⟩)) c =
      (.ok ⟨⟩, (c.lockReads collections).add (existsCheck id type label collections)) := by
  rw [outcome_bind_of_ok (outcome_lockReads c collections)]
  show (_, _) = _
  simp [existsCheck, Context.add]

/-- A check that is not remembered is needed, and noted. -/
theorem outcome_needsCheck {id : Ref} {type : String}
    (hn : c.remembers = true → (idKey c id, type) ∉ c.memo) :
    outcome (needsCheck id type) c = (.ok true, c.memoize (idKey c id, type)) := by
  unfold needsCheck Context.memoize
  rw [outcome_bind_of_ok (outcome_get c)]
  by_cases hr : c.remembers = true
  · have hc : c.memo.contains (idKey c id, type) = false := by simpa using hn hr
    simp only [hr, hc, Bool.not_true, Bool.false_eq_true, if_false, if_true]
    rfl
  · rw [if_neg hr, if_pos (by simpa using hr), outcome_pure]

theorem outcome_assertExists {id : Ref} {type : String} (label : String) {collections : List String}
    (hn : c.remembers = true → (idKey c id, type) ∉ c.memo)
    (hp : m.schema.possibleCollections type = .ok collections) :
    outcome (m.assertExists id type label) c =
      (.ok ⟨⟩, ((c.lockReads collections).memoize (idKey c id, type)).add
        (existsCheck id type label collections)) := by
  unfold assertExists
  rw [outcome_bind_of_ok (outcome_needsCheck hn), if_pos rfl, hp, ← c.lockReads_memoize]
  exact outcome_existsCheck (c.memoize (idKey c id, type)) id type label collections

theorem outcome_assertExists_error {id : Ref} {type : String} (label : String) {e : Error}
    (hn : c.remembers = true → (idKey c id, type) ∉ c.memo)
    (hp : m.schema.possibleCollections type = .error e) :
    (outcome (m.assertExists id type label) c).1 = .error e := by
  unfold assertExists
  rw [outcome_bind_of_ok (outcome_needsCheck hn), if_pos rfl, hp]
  rfl

theorem assertExists_conforms {id : Ref} (type label : String) (given : c.Given id)
    (calm : Calm ds) :
    Conforms m D (m.assertExists id type label) c ds fun _ c' ds' => ds' = ds ∧
      ∃ collections, m.schema.possibleCollections type = .ok collections ∧
        c'.Vouches collections id := by
  refine .of_tidy fun tidy => ?_
  by_cases hs : c.remembers = true ∧ (idKey c id, type) ∈ c.memo
  · -- The check is remembered, so its collections are locked and without memory only it is added.
    obtain ⟨hr, hmem⟩ := hs
    obtain ⟨collections, possible, locked, r, message, given', key, asserted⟩ := tidy.made _ hmem
    have alike : c.Alike id r := fun c' e => by
      rw [given.idKey_eq tidy.exported e, given'.idKey_eq tidy.exported e, key]
    have ho : outcome (m.assertExists id type label) c = (.ok ⟨⟩, c) := by
      simp [assertExists, needsCheck, outcome_bind, hr, hmem]
    have hs : Skips m c (existsCheck id type label collections) := .mk given hmem possible
    refine .of_ok ho (Trace.refl.skip hs calm)
      ⟨rfl, collections, possible, .checked given given' alike asserted⟩ fun base => ?_
    have hl : (c.plain base).lockReads collections = c.plain base := by
      rw [c.lockReads_plain, Context.lockReads_of_locked tidy.sorted locked]
    rw [outcome_assertExists label (fun h => by cases h) possible, hl]
    rfl
  · have hn : c.remembers = true → (idKey c id, type) ∉ c.memo := fun hr hmem => hs ⟨hr, hmem⟩
    rcases hp : m.schema.possibleCollections type with e | collections
    · exact .of_error (Prod.ext (outcome_assertExists_error label hn hp) rfl) fun base =>
        outcome_assertExists_error label (fun h => by cases h) hp
    · obtain ⟨read, hread⟩ := c.lockReads_eq collections
      have hkey : idKey (c.lockReads collections) id = idKey c id := by rw [hread]; rfl
      have e : Emits m D (c.lockReads collections) ds (existsCheck id type label collections)
          (((c.lockReads collections).memoize (idKey c id, type)).add
            (existsCheck id type label collections)) ds := by
        rw [← hkey]
        exact .assertExists (given.mono (c.lockReads_extends collections)) hp
          (c.locked_lockReads collections)
      have given' := given.mono ((c.lockReads_extends collections).trans e.extends)
      obtain ⟨message, asserted⟩ := Context.mem_add_existsCheck
        ((c.lockReads collections).memoize (idKey c id, type)) id type label collections
      refine .of_ok (outcome_assertExists label hn hp)
        ((c.trace_lockReads ds collections).step e)
        ⟨rfl, collections, rfl, .checked given' given' (fun _ _ => rfl) asserted⟩ fun base => ?_
      rw [outcome_assertExists label (fun h => by cases h) hp, c.lockReads_plain]
      rfl

/-! ### Edges -/

/-- Duties before the name of a document is taken: a name that is given is to be bound already. -/
def Named (var? : Option String) (before ds : List Duty) : Prop :=
  match var? with
  | none => before = ds
  | some var => before = .bind var :: ds

theorem varOr_conforms {var? : Option String} {before : List Duty} (named : Named var? before ds) :
    Conforms m D (varOr var?) c before fun var c' ds' =>
      ds' = .bind var :: ds ∧ c'.memo = c.memo ∧ ∀ v, var? = some v → var = v := by
  cases var? with
  | none =>
      obtain rfl := named
      exact freshVar_conforms.mono fun _ _ _ _ h => ⟨h.1, h.2, fun v hv => by cases hv⟩
  | some v =>
      obtain rfl := named
      exact .of_pure v ⟨rfl, rfl, fun w hw => Option.some.inj hw⟩

/-- The source of a new edge is an object of its type. -/
def Sourced (m : Model) (c : Context) (type : String) (source : Ref) : Prop :=
  ∃ sources, m.schema.possibleCollections type = .ok sources ∧ c.Vouches sources source

/-- The target of a new edge is an object of some type. -/
def Targeted (c : Context) (target : Ref) : Prop :=
  ∃ targets, c.Vouches targets target

theorem Sourced.mono {c c' : Context} {type : String} {source : Ref} (h : Sourced m c type source)
    (e : c.Extends c') : Sourced m c' type source := by
  obtain ⟨sources, possible, vouches⟩ := h
  exact ⟨sources, possible, vouches.mono e⟩

theorem Targeted.mono {c c' : Context} {target : Ref} (h : Targeted c target) (e : c.Extends c') :
    Targeted c' target := by
  obtain ⟨targets, vouches⟩ := h
  exact ⟨targets, vouches.mono e⟩

theorem checkEdge_conforms {source target : Ref} (sourceType field targetType : String)
    {ends : EndChecks} (known : c.Known source) (hs : ends.source = true → c.Given source)
    (ht : ends.target = true → c.Given target) (calm : Calm ds) :
    Conforms m D (m.checkEdge sourceType field source target targetType ends) c ds
      fun _ c' ds' => ds' = ds ∧ (m.settings.skipEdgeValidation = false →
        ((ends.source = true → Sourced m c' sourceType source) ∧
          (ends.target = true → Targeted c' target)) ∧
          c'.AssertsFree m.schema sourceType field source) := by
  unfold checkEdge
  by_cases skipped : m.settings.skipEdgeValidation = true
  · rw [if_pos skipped]
    exact .of_pure _ ⟨rfl, fun on => by rw [skipped] at on; cases on⟩
  · rw [if_neg skipped]
    refine .ite_bind
      (P := fun c' ds' => ds' = ds ∧ (ends.source = true → Sourced m c' sourceType source))
      (fun h => (assertExists_conforms _ _ (hs h) calm).mono fun _ _ _ _ h' => ⟨h'.1, fun _ => h'.2⟩)
      (fun no => ⟨rfl, fun h => absurd h no⟩) fun c₁ ds₁ e₁ h => ?_
    obtain ⟨rfl, sourced⟩ := h
    refine .ite_bind (P := fun c' ds' => ds' = ds₁ ∧ (ends.target = true → Targeted c' target))
      (fun h => (assertExists_conforms _ _ ((ht h).mono e₁) calm).mono fun _ _ _ _ h' =>
        ⟨h'.1, fun _ => h'.2.imp fun _ v => v.2⟩)
      (fun no => ⟨rfl, fun h => absurd h no⟩) fun c₂ ds₂ e₂ h => ?_
    obtain ⟨rfl, targeted⟩ := h
    have sourced : ends.source = true → Sourced m c₂ sourceType source := fun h =>
      (sourced h).mono e₂
    refine .bind (ofExcept_conforms _) fun f c₃ ds₃ _ h => ?_
    obtain ⟨field_def, rfl, rfl⟩ := h
    by_cases hl : (!f.type.isList) = true
    · rw [if_pos hl]
      refine .bind (lockRead_conforms _) fun _ c₄ ds₄ e₄ h => ?_
      obtain ⟨⟨rfl, _⟩, locked⟩ := h
      have later := fun ss => e₄.trans (c₄.extends_add ss)
      exact push_conforms (.assertFree (known.mono ((e₁.trans e₂).trans e₄)) locked)
        ⟨rfl, fun _ => ⟨⟨fun h => (sourced h).mono (later _), fun h => (targeted h).mono (later _)⟩,
          f, field_def, fun _ => ⟨_, List.getLast?_concat⟩⟩⟩
    · rw [if_neg hl]
      have list : f.type.isList = true := by simpa using hl
      exact .of_pure _ ⟨rfl, fun _ => ⟨⟨sourced, targeted⟩, f, field_def, fun single =>
        absurd single (by rw [list]; decide)⟩⟩

/-- A new edge between known ids leaves the duties below its own name as they were. -/
theorem insertEdge_conforms {source target : Ref} (sourceType field targetType : String)
    (annotations : InputObject) (exports : Option Selection) {var? : Option String}
    {before : List Duty} {ends : EndChecks} (named : Named var? before ds)
    (source_known : c.Known source) (target_known : c.Known target)
    (hs : ends.source = true → c.Given source) (ht : ends.target = true → c.Given target)
    (sourced : ends.source = false → Sourced m c sourceType source)
    (targeted : ends.target = false → Targeted c target) (calm : Calm ds) :
    Conforms m D (m.insertEdge sourceType field source target targetType annotations exports var? ends)
      c before fun var c' ds' => ds' = ds ∧ (var, .document) ∈ bindings c'.statements := by
  unfold insertEdge
  refine .bind (lockWrite_conforms _) fun _ c₁ ds₁ e₁ h => ?_
  obtain ⟨⟨rfl, _⟩, locked⟩ := h
  refine .bind (comment_conforms _) fun _ c₂ ds₂ e₂ q => ?_
  obtain ⟨rfl, _⟩ := q
  refine .bind (imports_conforms annotations) fun imported c₃ ds₃ e₃ h => ?_
  obtain ⟨⟨rfl, _⟩, himp⟩ := h
  refine .bind (varOr_conforms named) fun var c₄ ds₄ e₄ h => ?_
  obtain ⟨rfl, _, _⟩ := h
  refine .bind (ofExcept_conforms _) fun fields c₅ ds₅ _ h => ?_
  obtain ⟨_, rfl, rfl⟩ := h
  refine .bind (freshParam_conforms _) fun doc c₆ ds₆ e₆ h => ?_
  obtain ⟨⟨rfl, _⟩, p, rfl, hp⟩ := h
  have e : c.Extends c₆ := (((e₁.trans e₂).trans e₃).trans e₄).trans e₆
  refine .bind (checkEdge_conforms sourceType field targetType (source_known.mono e)
    (fun h => (hs h).mono e) (fun h => (ht h).mono e) (calm.cons (.bind var) nofun)) fun _ c₇ ds₇ e₇ h => ?_
  obtain ⟨rfl, checked⟩ := h
  have f : c₁.Extends c₇ := (((e₂.trans e₃).trans e₄).trans e₆).trans e₇
  -- An end that is not checked here has been written before.
  have validated : m.settings.skipEdgeValidation = false →
      Sourced m c₇ sourceType source ∧ Targeted c₇ target := by
    refine fun on => ⟨?_, ?_⟩
    · cases hc : ends.source with
      | true => exact (checked on).1.1 hc
      | false => exact (sourced hc).mono (e.trans e₇)
    · cases hc : ends.target with
      | true => exact (checked on).1.2 hc
      | false => exact (targeted hc).mono (e.trans e₇)
  refine push_bind_conforms (.insertEdge (e₇.params hp) (himp.mono ((e₄.trans e₆).trans e₇))
    (source_known.mono (e.trans e₇)) (target_known.mono (e.trans e₇)) (f.write locked) validated
    fun on => (checked on).2) fun hb => ?_
  have bound := hb (var, .document) rfl
  refine .bind (exportSelection_conforms exports bound) fun _ c₈ ds₈ e₈ q => ?_
  obtain ⟨rfl, _⟩ := q
  refine .bind (deferChecks_conforms sourceType source none) fun _ c₉ ds₉ e₉ h => ?_
  exact .of_pure var ⟨h.1, e₉.bindings (e₈.bindings bound)⟩

theorem createEdge_conforms (type field : String) (source target : Input)
    (annotations : InputObject) (exports : Option Selection) {var? : Option String}
    {before : List Duty} (named : Named var? before ds) (calm : Calm ds) :
    Conforms m D (m.createEdge type field source target annotations exports var?) c before
      fun var c' ds' => ds' = ds ∧ (var, .document) ∈ bindings c'.statements := by
  unfold createEdge
  refine .bind ensureOpen_conforms fun _ c₁ ds₁ _ h => ?_
  obtain ⟨rfl, rfl⟩ := h
  refine .bind (ofExcept_conforms _) fun f c₂ ds₂ _ h => ?_
  obtain ⟨_, rfl, rfl⟩ := h
  refine .bind (resolveId_conforms source) fun s c₃ ds₃ _ h => ?_
  obtain ⟨⟨rfl, _⟩, hs, _⟩ := h
  refine .bind (resolveId_conforms target) fun t c₄ ds₄ e h => ?_
  obtain ⟨⟨rfl, _⟩, ht, _⟩ := h
  exact insertEdge_conforms type field _ annotations exports named (.given (hs.mono e)) (.given ht)
    (fun _ => hs.mono e) (fun _ => ht) (fun h => by cases h) (fun h => by cases h) calm

theorem updateEdge_conforms (type field : String) (id : Input) (data : InputObject)
    (exports : Option Selection) {var? : Option String} {before : List Duty}
    (named : Named var? before []) (allowed : D.edgeUpdates) :
    Conforms m D (m.updateEdge type field id data exports var?) c before
      fun var c' ds' => ds' = [] ∧ (var, .document) ∈ bindings c'.statements := by
  unfold updateEdge
  refine .bind ensureOpen_conforms fun _ c₁ ds₁ _ h => ?_
  obtain ⟨rfl, rfl⟩ := h
  refine .bind (varOr_conforms named) fun var c₂ ds₂ e₂ h => ?_
  obtain ⟨rfl, _, _⟩ := h
  refine .bind (lockWrite_conforms _) fun _ c₃ ds₃ e₃ h => ?_
  obtain ⟨⟨rfl, _⟩, locked⟩ := h
  refine .bind (comment_conforms _) fun _ c₄ ds₄ e₄ q => ?_
  obtain ⟨rfl, _⟩ := q
  refine .bind (imports_conforms data) fun imported c₅ ds₅ e₅ h => ?_
  obtain ⟨⟨rfl, _⟩, himp⟩ := h
  refine .bind (ofExcept_conforms _) fun fields c₆ ds₆ _ h => ?_
  obtain ⟨_, rfl, rfl⟩ := h
  refine .bind (freshParam_conforms _) fun doc c₇ ds₇ e₇ h => ?_
  obtain ⟨⟨rfl, _⟩, p, rfl, hp⟩ := h
  refine .bind (resolveId_conforms id) fun r c₈ ds₈ e₈ h => ?_
  obtain ⟨⟨rfl, _⟩, given, _⟩ := h
  have e : c₃.Extends c₈ := ((e₄.trans e₅).trans e₇).trans e₈
  refine push_bind_conforms (.updateEdge (e₈.params hp) (himp.mono (e₇.trans e₈)) given
    (e.write locked) allowed) fun hb => ?_
  have bound := hb (var, .document) rfl
  refine .bind (exportSelection_conforms exports bound) fun _ c₉ ds₉ e₉ q => ?_
  exact .of_pure var ⟨q.1, e₉.bindings bound⟩

theorem deleteEdge_conforms (type field : String) (id : Input) {var? : Option String}
    {before : List Duty} (named : Named var? before []) :
    Conforms m D (m.deleteEdge type field id var?) c before
      fun var c' ds' => ds' = [] ∧ (var, .removed) ∈ bindings c'.statements := by
  unfold deleteEdge
  refine .bind ensureOpen_conforms fun _ c₁ ds₁ _ h => ?_
  obtain ⟨rfl, rfl⟩ := h
  refine .bind (comment_conforms _) fun _ c₂ ds₂ _ q => ?_
  obtain ⟨rfl, _⟩ := q
  refine .bind (resolveId_conforms id) fun r c₃ ds₃ _ h => ?_
  obtain ⟨⟨rfl, _⟩, given, _⟩ := h
  refine .bind (varOr_conforms named) fun var c₄ ds₄ e₄ h => ?_
  obtain ⟨rfl, _, _⟩ := h
  refine .bind (lockWrite_conforms _) fun _ c₅ ds₅ e₅ h => ?_
  obtain ⟨⟨rfl, _⟩, locked⟩ := h
  refine push_bind_conforms (.removeEdge (given.mono (e₄.trans e₅)) locked) fun hb => ?_
  have bound := hb (var, .removed) rfl
  refine .bind (deferChecks_conforms type _ _) fun _ c₆ ds₆ e₆ h => ?_
  exact .of_pure var ⟨h.1, e₆.bindings bound⟩

/-! ### Nested documents -/

/-- A document of the type of a site has been written into its variable. -/
structure Situated (m : Model) (c : Context) (site : EdgeSite) : Prop where
  wrote : c.Wrote site.var site.type
  object : ∃ t, m.objectType site.type = .ok t

namespace Situated

variable {site : EdgeSite}

theorem mono {c' : Context} (h : Situated m c site) (e : c.Extends c') : Situated m c' site :=
  ⟨h.wrote.mono e, h.object⟩

theorem known (h : Situated m c site) : c.Known site.source :=
  .document h.wrote.bound

theorem sourced (h : Situated m c site) : Sourced m c site.type site.source := by
  obtain ⟨t, ht⟩ := h.object
  obtain ⟨found, object⟩ := typeDef_of_objectType ht
  exact ⟨_, Schema.possibleCollections_of_object found object,
    .written h.wrote (List.mem_singleton.mpr rfl)⟩

end Situated

/-- The edges that leave a document that has been written are made as they should be. Where edges are
replaced, the document is known by an id, and its directives are still to be checked. -/
def EdgesConform (m : Model) (D : Demands) (replacing : Option Ref) (var type : String) (x : Synthesis Unit) :
    Prop :=
  ∀ c ds, c.Wrote var type → (∃ t, m.objectType type = .ok t) →
    (∀ id, replacing = some id → c.Given id ∧ ∃ r, .directives type r none ∈ ds) → Calm ds →
    Conforms m D x c ds fun _ _ ds' => ds' = ds

/-- A document is created as it should be. -/
def CreationConforms (m : Model) (D : Demands) (type var : String) (x : Synthesis Unit) : Prop :=
  ∀ c ds, Calm ds → Conforms m D x c (.bind var :: ds) fun _ c' ds' => ds' = ds ∧ c'.Wrote var type

/-- The edge of an entry, given that a document of the entry is created as it should be. -/
theorem entryEdge_conforms {site : EdgeSite} (unions : Bool) {item : InputObject}
    {create : (key type var : String) → Synthesis Unit} (situated : Situated m c site)
    (calm : Calm ds)
    (hc : ∀ key type var, item.get? "connect" = none → Chooses m site.field item key type →
      holdsObject item key = true → CreationConforms m D type var (create key type var)) :
    Conforms m D (m.entryEdge site unions item create) c ds fun _ _ ds' => ds' = ds := by
  unfold entryEdge
  split
  · exact (fail_conforms _).mono fun _ _ _ _ q => q.1
  · refine .bind (resolveId_conforms _) fun r c₁ ds₁ e h => ?_
    obtain ⟨⟨rfl, _⟩, given, _⟩ := h
    have named : Named none ds₁ ds₁ := rfl
    have here := situated.mono e
    refine .bind (insertEdge_conforms _ _ _ _ _ named here.known (.given given)
      (fun h => by cases h) (fun _ => given) (fun _ => here.sourced) (fun h => by cases h) calm)
      fun _ c₂ ds₂ _ h => .of_pure _ h.1
  · rename_i unconnected
    refine .bind (ofExcept_conforms _) fun creation c₁ ds₁ _ h => ?_
    obtain ⟨hcr, rfl, rfl⟩ := h
    cases creation with
    | none | several => exact (fail_conforms _).mono fun _ _ _ _ q => q.1
    | create key type =>
        refine .bind freshVar_conforms fun var c₂ ds₂ e₂ h => ?_
        obtain ⟨rfl, _⟩ := h
        obtain ⟨chooses, holds⟩ := chooses_of_creation hcr
        have created := hc key type var unconnected chooses holds
        refine .bind (created c₂ ds₁ calm) fun _ c₃ ds₃ e₃ h => ?_
        obtain ⟨rfl, wrote⟩ := h
        have named : Named none ds₃ ds₃ := rfl
        have here := situated.mono (e₂.trans e₃)
        have targeted : Targeted c₃ (Ref.doc var).id :=
          ⟨[type], .written wrote (List.mem_singleton.mpr rfl)⟩
        refine .bind (insertEdge_conforms _ _ _ _ _ named here.known (.document wrote.bound)
          (fun h => by cases h) (fun h => by cases h) (fun _ => here.sourced) (fun _ => targeted) calm)
          fun _ c₄ ds₄ _ h => .of_pure _ h.1

/-- A new document with its edges, given that these are made as they should be. -/
theorem insertDocument_conforms (type : String) (data : InputObject) (exports : Option Selection)
    {var? : Option String} {before : List Duty} (named : Named var? before ds) (calm : Calm ds)
    {edges : String → TypeDef → Synthesis Unit}
    (he : ∀ var t, m.objectType type = .ok t → EdgesConform m D none var t.name (edges var t)) :
    Conforms m D (m.insertDocument type data exports var? edges) c before fun var c' ds' =>
      ds' = ds ∧ c'.Wrote var type ∧ ∀ v, var? = some v → var = v := by
  unfold insertDocument
  refine .bind ensureOpen_conforms fun _ c₁ ds₁ _ h => ?_
  obtain ⟨rfl, rfl⟩ := h
  refine .bind (ofExcept_conforms _) fun t c₁ ds₁ _ h => ?_
  obtain ⟨object, rfl, rfl⟩ := h
  obtain rfl : t.name = type := Schema.name_of_typeDef (typeDef_of_objectType object).1
  refine .bind (comment_conforms _) fun _ c₂ ds₂ e₂ q => ?_
  obtain ⟨rfl, _⟩ := q
  refine .bind (imports_conforms data) fun imported c₃ ds₃ e₃ h => ?_
  obtain ⟨⟨rfl, _⟩, himp⟩ := h
  refine .bind (ofExcept_conforms _) fun fields c₄ ds₄ _ h => ?_
  obtain ⟨_, rfl, rfl⟩ := h
  refine .bind (freshParam_conforms _) fun doc c₅ ds₅ e₅ h => ?_
  obtain ⟨⟨rfl, _⟩, p, rfl, hp⟩ := h
  refine .bind (varOr_conforms named) fun var c₆ ds₆ e₆ h => ?_
  obtain ⟨rfl, _, hv⟩ := h
  refine .bind (lockWrite_conforms _) fun _ c₇ ds₇ e₇ h => ?_
  obtain ⟨⟨rfl, _⟩, locked⟩ := h
  refine push_bind_conforms (.insert ((e₆.trans e₇).params hp)
    (himp.mono ((e₅.trans e₆).trans e₇)) locked ⟨t, object⟩) fun _ => ?_
  have wrote : (c₇.add [.insert var t.name (.param p) imported none]).Wrote var t.name :=
    ⟨_, c₇.mem_add _, rfl, rfl⟩
  have owed : Calm (.key var t.name :: .directives t.name (Ref.doc var).id none :: ds) :=
    (calm.cons (.directives t.name (Ref.doc var).id none) nofun).cons (.key var t.name) nofun
  refine .bind (he var t object _ _ wrote ⟨t, object⟩ (fun _ same => by cases same) owed)
    fun _ c₈ ds₈ e₈ h => ?_
  obtain rfl := h
  refine .bind (exportSelection_conforms exports (wrote.mono e₈).bound) fun _ c₉ ds₉ e₉ q => ?_
  obtain ⟨rfl, _⟩ := q
  refine .bind (checkKey_conforms var t.name) fun _ c₁₀ ds₁₀ e₁₀ h => ?_
  obtain ⟨rfl, _⟩ := h
  refine .bind (deferChecks_conforms t.name _ none) fun _ c₁₁ ds₁₁ e₁₁ h => ?_
  exact .of_pure var ⟨h.1, wrote.mono (((e₈.trans e₉).trans e₁₀).trans e₁₁), hv⟩

theorem dropEdges_conforms (type : String) (f : FieldDef) {id : Ref} (given : c.Given id)
    (owed : ∃ r, .directives type r none ∈ ds) :
    Conforms m D (dropEdges type f id) c ds fun _ _ ds' => ds' = ds := by
  unfold dropEdges
  refine .bind (lockWrite_conforms _) fun _ c₁ ds₁ e₁ h => ?_
  obtain ⟨⟨rfl, _⟩, locked⟩ := h
  refine .bind (comment_conforms _) fun _ c₂ ds₂ e₂ q => ?_
  obtain ⟨rfl, _⟩ := q
  exact push_conforms (.dropEdges (given.mono (e₁.trans e₂)) (e₂.write locked) owed) rfl

/-- An entry and a document are made as they should be if what is inside is. -/
theorem walks_conforms (m : Model) (D : Demands) :
    Walks m (fun _ _ => True) (fun _ _ => True) (EdgesConform m D) (CreationConforms m D) where
  pure _ _ _ _ _ _ _ _ _ := .of_pure _ rfl
  throw _ _ _ e _ _ _ _ _ _ := .of_throw e
  bind first later c ds wrote object given calm := by
    refine .bind (first c ds wrote object given calm) fun _ c₁ ds₁ e₁ same => ?_
    obtain rfl := same
    refine later _ c₁ ds₁ (wrote.mono e₁) object (fun id same => ?_) calm
    exact ⟨(given id same).1.mono e₁, (given id same).2⟩
  leaves _ _ _ _ _ _ := trivial
  entry _ _ unions _ _ _ creates _ _ wrote object _ calm :=
    entryEdge_conforms unions ⟨wrote, object⟩ calm creates
  document var data _ edges c ds calm := by
    have named : Named (some var) (.bind var :: ds) ds := rfl
    refine .bind (insertDocument_conforms _ data none named calm edges) fun v c₁ ds₁ _ made => .of_pure _ ?_
    obtain ⟨rfl, wrote, same⟩ := made
    exact ⟨rfl, same var rfl ▸ wrote⟩

theorem objectEdges_conforms (var : String) (t : TypeDef) (replacing : Option Ref) (data : InputObject) :
    EdgesConform m D replacing var t.name (m.objectEdges var t replacing data) := by
  refine (walks_conforms m D).objectEdges var t replacing data (fun _ _ _ _ _ => trivial) ?_ ?_
  · exact fun _ _ _ _ _ => .of_all fun _ _ => trivial
  · rintro id rfl _ _ f _ _ c ds _ _ given _
    exact dropEdges_conforms t.name f (given id rfl).1 (given id rfl).2

theorem create_conforms (type : String) (data : InputObject) (exports : Option Selection)
    {var? : Option String} {before : List Duty} (named : Named var? before ds) (calm : Calm ds) :
    Conforms m D (m.create type data exports var?) c before
      fun var c' ds' => ds' = ds ∧ (var, .document) ∈ bindings c'.statements := by
  refine (insertDocument_conforms type data exports named calm fun v t _ =>
    objectEdges_conforms v t none data).mono ?_
  exact fun _ _ _ _ h => ⟨h.1, h.2.1.bound⟩

/-! ### Updates -/

theorem update_conforms (type : String) (id : Input) (data : InputObject)
    (exports : Option Selection) {var? : Option String} {before : List Duty}
    (named : Named var? before []) :
    Conforms m D (m.update type id data exports var?) c before
      fun var c' ds' => ds' = [] ∧ (var, .document) ∈ bindings c'.statements := by
  unfold update
  refine .bind ensureOpen_conforms fun _ c₁ ds₁ _ h => ?_
  obtain ⟨rfl, rfl⟩ := h
  refine .bind (ofExcept_conforms _) fun t c₁ ds₁ _ h => ?_
  obtain ⟨object, rfl, rfl⟩ := h
  obtain rfl : t.name = type := Schema.name_of_typeDef (typeDef_of_objectType object).1
  refine .bind (comment_conforms _) fun _ c₂ ds₂ e₂ q => ?_
  obtain ⟨rfl, _⟩ := q
  refine .bind (resolveId_conforms id) fun r c₃ ds₃ e₃ h => ?_
  obtain ⟨⟨rfl, _⟩, given, _⟩ := h
  refine .bind (imports_conforms data) fun imported c₄ ds₄ e₄ h => ?_
  obtain ⟨⟨rfl, _⟩, himp⟩ := h
  refine .bind (ofExcept_conforms _) fun fields c₅ ds₅ _ h => ?_
  obtain ⟨_, rfl, rfl⟩ := h
  refine .bind (freshParam_conforms _) fun doc c₆ ds₆ e₆ h => ?_
  obtain ⟨⟨rfl, _⟩, p, rfl, hp⟩ := h
  refine .bind (varOr_conforms named) fun var c₇ ds₇ e₇ h => ?_
  obtain ⟨rfl, _, _⟩ := h
  refine .bind (lockWrite_conforms _) fun _ c₈ ds₈ e₈ h => ?_
  obtain ⟨⟨rfl, _⟩, locked⟩ := h
  have e : c₅.Extends c₈ := (e₆.trans e₇).trans e₈
  refine push_bind_conforms (.update ((e₇.trans e₈).params hp) (himp.mono e)
    (given.mono (e₄.trans e)) locked ⟨t, object⟩) fun _ => ?_
  have wrote : (c₈.add [.update var t.name r (.param p) imported]).Wrote var t.name :=
    ⟨_, c₈.mem_add _, rfl, rfl⟩
  have kept : c₈.Given r := given.mono (e₄.trans e)
  have empty : Calm [] := nofun
  have calm : Calm [.key var t.name, .directives t.name (Ref.doc var).id none] :=
    (empty.cons (.directives t.name (Ref.doc var).id none) nofun).cons (.key var t.name) nofun
  refine .bind (objectEdges_conforms var t (some r) data _ _ wrote ⟨t, object⟩ (fun i h =>
    ⟨Option.some.inj h ▸ kept.mono (c₈.extends_add _),
      _, List.mem_cons_of_mem _ List.mem_cons_self⟩) calm) fun _ c₉ ds₉ e₉ h => ?_
  obtain rfl := h
  refine .bind (exportSelection_conforms exports (wrote.mono e₉).bound) fun _ c₁₀ ds₁₀ e₁₀ q => ?_
  obtain ⟨rfl, _⟩ := q
  refine .bind (checkKey_conforms var t.name) fun _ c₁₁ ds₁₁ e₁₁ h => ?_
  obtain ⟨rfl, _⟩ := h
  refine .bind (deferChecks_conforms t.name _ none) fun _ c₁₂ ds₁₂ e₁₂ h => ?_
  exact .of_pure var ⟨h.1, (wrote.mono (((e₉.trans e₁₀).trans e₁₁).trans e₁₂)).bound⟩

/-! ### Deletions -/

theorem exists_eq_of_touching {type : String} {f : FieldDef} {C : String}
    (h : m.touching? type f = .ok (some C)) : ∃ source field, C = edgeCollection source field := by
  unfold touching? at h
  simp only [bind, Except.bind, pure, Except.pure] at h
  split at h
  · cases h
  · split at h
    · cases h
    · split at h
      · cases h
      · split at h
        · cases h
          exact ⟨_, _, rfl⟩
        · split at h
          · cases h
          · split at h
            · cases h
            · obtain ⟨forward, _, rfl⟩ := Option.map_eq_some_iff.mp (Except.ok.inj h)
              exact ⟨_, _, rfl⟩

theorem mem_of_mem_dedup {C : String} (l seen : List String)
    (h : C ∈ l.foldl (fun cs c => if cs.contains c then cs else cs ++ [c]) seen) :
    C ∈ seen ∨ C ∈ l := by
  induction l generalizing seen with
  | nil => exact Or.inl h
  | cons a l ih =>
      rcases ih _ h with h | h
      · dsimp only at h
        split at h
        · exact Or.inl h
        · rcases List.mem_append.mp h with h | h
          · exact Or.inl h
          · exact Or.inr (List.mem_singleton.mp h ▸ List.mem_cons_self)
      · exact Or.inr (List.mem_cons_of_mem a h)

/-- Edges go with a deleted document because of a field of its type. -/
theorem exists_of_mem_touchingCollections {t : TypeDef} {collections : List String} {C : String}
    (h : m.touchingCollections t = .ok collections) (hC : C ∈ collections) :
    ∃ f ∈ t.fields, m.touching? t.name f = .ok (some C) := by
  unfold touchingCollections at h
  rcases hf : t.fields.mapM (m.touching? t.name) with e | found
  · rw [hf] at h
    cases h
  · rw [hf] at h
    cases h
    rcases mem_of_mem_dedup _ _ hC with hC | hC
    · cases hC
    · obtain ⟨o, ho, rfl⟩ := List.mem_filterMap.mp hC
      exact exists_of_mem_mapM hf ho

theorem exists_eq_of_mem_touchingCollections {t : TypeDef} {collections : List String}
    (h : m.touchingCollections t = .ok collections) :
    ∀ C ∈ collections, ∃ source field, C = edgeCollection source field := by
  intro C hC
  obtain ⟨f, _, hf⟩ := exists_of_mem_touchingCollections h hC
  exact exists_eq_of_touching hf

theorem forget_conforms (id : Ref) :
    Conforms m D (forget id) c (.forget id :: ds) fun _ _ ds' => ds' = ds := by
  have ho : ∀ b : Context, outcome (forget id) b = (.ok ⟨⟩, b.forget id) := fun _ => rfl
  refine .of_emits (ho c) .forget rfl fun base => ?_
  have h : (c.plain base).forget id = (c.forget id).plain base := by
    have hk : idKey (c.plain base) id = idKey c id := rfl
    unfold Context.forget
    rw [hk]
    split <;> rfl
  rw [List.append_nil, ← h, ho]

theorem delete_conforms (type : String) (id : Input) {var? : Option String} {before : List Duty}
    (named : Named var? before [])
    (rule : ∀ key, (∀ i, key = .literal i → id = .str i) → D.deletion c.memo type key) :
    Conforms m D (m.delete type id var?) c before
      fun var c' ds' => ds' = [] ∧ (var, .removed) ∈ bindings c'.statements := by
  unfold delete
  refine .bind ensureOpen_conforms fun _ c₁ ds₁ _ h => ?_
  obtain ⟨rfl, rfl⟩ := h
  refine .bind (ofExcept_conforms _) fun t c₁ ds₁ _ h => ?_
  obtain ⟨object, rfl, rfl⟩ := h
  refine .bind (comment_conforms _) fun _ c₂ ds₂ e₂ q => ?_
  obtain ⟨rfl, m₂⟩ := q
  refine .bind (resolveId_conforms id) fun r c₃ ds₃ e₃ h => ?_
  obtain ⟨⟨rfl, m₃⟩, given, key⟩ := h
  refine .bind (varOr_conforms named) fun var c₄ ds₄ e₄ h => ?_
  obtain ⟨rfl, m₄, _⟩ := h
  refine .bind (lockWrite_conforms _) fun _ c₅ ds₅ e₅ h => ?_
  obtain ⟨⟨rfl, m₅⟩, locked⟩ := h
  have memo : c₅.memo = c₁.memo := m₅.trans (m₄.trans (m₃.trans m₂))
  have e : c₃.Extends c₅ := e₄.trans e₅
  refine push_bind_conforms (.remove (given.mono e) locked ?_ ⟨t, object⟩) fun hb => ?_
  · rw [memo]
    exact rule _ fun i => key c₅ i e
  have bound := hb (var, .removed) rfl
  refine .bind (ofExcept_conforms _) fun collections c₆ ds₆ _ h => ?_
  obtain ⟨htouch, rfl, rfl⟩ := h
  refine .bind (lockWrites_conforms collections) fun _ c₇ ds₇ e₇ h => ?_
  obtain ⟨rfl, hlocked⟩ := h
  refine push_bind_conforms (.clearEdges (exists_eq_of_mem_touchingCollections htouch) hlocked
    List.mem_cons_self) fun _ => ?_
  refine .bind (deferChecks_conforms type _ _) fun _ c₈ ds₈ e₈ h => ?_
  obtain ⟨rfl, _⟩ := h
  refine .bind (forget_conforms r) fun _ c₉ ds₉ e₉ h => .of_pure var ⟨h, ?_⟩
  exact e₉.bindings (e₈.bindings ((c₇.extends_add _).bindings (e₇.bindings bound)))

end Model

/-! ### All mutations -/

/-- What is asked of the deletions among the mutations. -/
def Mutation.Admits (D : DeletionRule) (memo : List (IdKey × String)) : Mutation → Prop
  | .delete type id => ∀ key, (∀ i, key = .literal i → id = .str i) → D memo type key
  | _ => True

/-- A mutation that merges fields into an edge. -/
def Mutation.updatesEdge : Mutation → Bool
  | .updateEdge _ _ _ _ => true
  | _ => false

/-- What is asked of a mutation. -/
structure Mutation.Meets (D : Demands) (memo : List (IdKey × String)) (mutation : Mutation) : Prop where
  deletion : mutation.Admits D.deletion memo
  edgeUpdate : mutation.updatesEdge = true → D.edgeUpdates

namespace Demands

/-- Something is asked of deletions only. -/
def ofDeletion (D : DeletionRule) : Demands := ⟨D, True⟩

/-- Nothing is asked. -/
def any : Demands := .ofDeletion fun _ _ _ => True

/-- No edge is updated. -/
def fixedEdges : Demands := ⟨fun _ _ _ => True, False⟩

end Demands

theorem Mutation.Admits.meets {D : DeletionRule} {memo : List (IdKey × String)} {mutation : Mutation}
    (h : mutation.Admits D memo) : mutation.Meets (.ofDeletion D) memo :=
  ⟨h, fun _ => trivial⟩

theorem Mutation.admits_any (mutation : Mutation) (memo : List (IdKey × String)) :
    mutation.Admits (fun _ _ _ => True) memo := by
  cases mutation <;> simp [Admits]

theorem Mutation.meets_any (mutation : Mutation) (memo : List (IdKey × String)) :
    mutation.Meets .any memo :=
  (mutation.admits_any memo).meets

theorem Mutation.meets_fixedEdges {mutation : Mutation} (h : mutation.updatesEdge = false)
    (memo : List (IdKey × String)) : mutation.Meets .fixedEdges memo :=
  ⟨mutation.admits_any memo, fun updates => by rw [h] at updates; cases updates⟩

/-- A mutation keeps to the steps and leaves no duties; its document is in the variable it names. -/
theorem synthesize_conforms (mutation : Mutation) (exports : Option Selection)
    (meets : mutation.Meets D c.memo) :
    Conforms m D (mutation.synthesize m exports none) c [] fun var c' ds' =>
      ds' = [] ∧ ∃ h, h ≠ .value ∧ (var, h) ∈ bindings c'.statements := by
  have named : Model.Named none [] [] := rfl
  have calm : Calm [] := nofun
  cases mutation with
  | create type data =>
      exact (Model.create_conforms type data exports named calm).mono fun _ _ _ _ h =>
        ⟨h.1, .document, by decide, h.2⟩
  | update type id data =>
      exact (Model.update_conforms type id data exports named).mono fun _ _ _ _ h =>
        ⟨h.1, .document, by decide, h.2⟩
  | delete type id =>
      exact (Model.delete_conforms type id named meets.deletion).mono fun _ _ _ _ h =>
        ⟨h.1, .removed, by decide, h.2⟩
  | createEdge type field source target annotations =>
      exact (Model.createEdge_conforms type field source target annotations exports named calm).mono
        fun _ _ _ _ h => ⟨h.1, .document, by decide, h.2⟩
  | updateEdge type field id data =>
      exact (Model.updateEdge_conforms type field id data exports named (meets.edgeUpdate rfl)).mono
        fun _ _ _ _ h => ⟨h.1, .document, by decide, h.2⟩
  | deleteEdge type field id =>
      exact (Model.deleteEdge_conforms type field id named).mono fun _ _ _ _ h =>
        ⟨h.1, .removed, by decide, h.2⟩

end DocGraph
