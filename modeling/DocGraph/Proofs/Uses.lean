import DocGraph.Proofs.Creation

/-! # Names in mutations

A mutation may use names that were exported before, and export fields of its own document under new ones.
`Mutation.Handles` says what becomes of these names when the mutation is put into statements: a statement
refers to what the name stands for, or the script is made to fail; and every mutation does so
(`synthesize_handles`). Nothing is exported before all uses of names in a mutation have been looked up. -/

namespace DocGraph

variable {α β : Type} {m : Model} {c c' : Context} {x : String}

open Synthesis

/-! ### What a part of a mutation ensures -/

/-- What holds of the result and of the context if a part of a mutation succeeds. -/
def Ensures (y : Synthesis α) (c : Context) (Q : α → Context → Prop) : Prop :=
  ∀ a c', outcome y c = (.ok a, c') → Q a c'

theorem Ensures.bind {y : Synthesis α} {f : α → Synthesis β} {Q : α → Context → Prop}
    {R : β → Context → Prop} (hy : Ensures y c Q) (hf : ∀ a c', Q a c' → Ensures (f a) c' R) :
    Ensures (y >>= f) c R := by
  intro b c'' done
  obtain ⟨a, c', first, second⟩ := outcome_bind_ok.mp done
  exact hf a c' (hy a c' first) b c'' second

theorem Ensures.of_pure {Q : α → Context → Prop} (a : α) (h : Q a c) : Ensures (pure a) c Q := by
  intro b c' done
  cases done
  exact h

theorem Ensures.of_throw {Q : α → Context → Prop} (e : Error) : Ensures (throw e) c Q := by
  intro a c' done
  cases done

theorem Ensures.mono {y : Synthesis α} {Q R : α → Context → Prop} (h : Ensures y c Q)
    (le : ∀ a c', Q a c' → R a c') : Ensures y c R :=
  fun a c' done => le a c' (h a c' done)

theorem Ensures.ofExcept_bind {e : Except Error α} {f : α → Synthesis β} {R : β → Context → Prop}
    (h : ∀ a, e = .ok a → Ensures (f a) c R) : Ensures (Synthesis.ofExcept e >>= f) c R := by
  cases e with
  | error e => exact .of_throw e
  | ok a => exact h a rfl

theorem Ensures.get_bind {f : Context → Synthesis β} {R : β → Context → Prop} (h : Ensures (f c) c R) :
    Ensures (get >>= f) c R := by
  intro b c' done
  rw [outcome_bind_of_ok (outcome_get c)] at done
  exact h b c' done

/-- What holds of every context that takes nothing back holds after a part that exports nothing. -/
theorem Exportless.ensures {y : Synthesis α} {Q : α → Context → Prop} (hy : Exportless y)
    (h : ∀ a c', c.Keeps c' → Q a c') : Ensures y c Q :=
  fun a c' done => h a c' (hy c a c' done)

/-- What comes after a part that exports nothing. -/
theorem Exportless.before {y : Synthesis α} {f : α → Synthesis β} {R : β → Context → Prop}
    (hy : Exportless y) (hf : ∀ a c', c.Keeps c' → Ensures (f a) c' R) : Ensures (y >>= f) c R :=
  (hy.ensures fun _ _ keeps => keeps).bind hf

/-! ### Uses of a name -/

/-- A name is put to use: what it stands for is used so, or the script is made to fail. -/
structure Resolved (exports : Record Ref) (x : String) (P : Ref → Prop) (c' : Context) : Prop where
  used : ∀ {r}, exports.get? x = some r → P r
  missing : exports.get? x = none →
    .fail (.ofText s!"Variable ${x} has not been exported") ∈ c'.statements

theorem Resolved.mono {c'' : Context} {P P' : Ref → Prop} (h : Resolved c.exports x P c')
    (le : ∀ r, P r → P' r) (later : ∀ {s}, s ∈ c'.statements → s ∈ c''.statements) :
    Resolved c.exports x P' c'' :=
  ⟨fun found => le _ (h.used found), fun gone => later (h.missing gone)⟩

/-- The same use, seen from before a part that exports nothing. -/
theorem Resolved.earlier {c₁ : Context} {P : Ref → Prop} (h : Resolved c₁.exports x P c')
    (keeps : c.Keeps c₁) : Resolved c.exports x P c' :=
  ⟨fun found => h.used ((keeps.exports x).trans found),
    fun gone => h.missing ((keeps.exports x).trans gone)⟩

/-- The fields of an input object that are given by names, with what these stand for. -/
structure Imported (exports : Record Ref) (data : InputObject) (imported : List (String × Ref))
    (c' : Context) : Prop where
  names : (imported.map Prod.fst).Sublist data.names
  resolved : ∀ {g x}, (g, .var x) ∈ data → Resolved exports x (fun r => (g, r) ∈ imported) c'

theorem failUnexported_ensures (x : String) :
    Ensures (failUnexported x) c fun _ c' => c.Keeps c' ∧
      .fail (.ofText s!"Variable ${x} has not been exported") ∈ c'.statements := by
  intro a c' done
  refine ⟨(Idle.fail _).exportless c a c' done, ?_⟩
  cases done
  exact List.mem_append_right _ List.mem_cons_self

theorem imports_ensures (data : InputObject) :
    Ensures (imports data) c fun imported c' => c.Keeps c' ∧ Imported c.exports data imported c' := by
  induction data generalizing c with
  | nil =>
      rw [imports]
      exact .of_pure _ ⟨.refl c, .slnil, fun given => (by cases given)⟩
  | cons e rest ih =>
      obtain ⟨field, value⟩ := e
      cases value with
      | null | bool | num | str | list | obj =>
          simp only [imports]
          refine ih.mono fun imported c' h => ⟨h.1, h.2.names.cons _, fun given => ?_⟩
          rcases List.mem_cons.mp given with here | there
          · cases here
          · exact h.2.resolved there
      | var name =>
          rw [imports]
          refine .get_bind ?_
          rcases found : c.exports.get? name with _ | r
          · refine (failUnexported_ensures name).bind fun _ c₁ h₁ => ?_
            refine ih.mono fun imported c' h => ⟨h₁.1.trans h.1, h.2.names.cons _, fun given => ?_⟩
            rcases List.mem_cons.mp given with here | there
            · cases here
              refine ⟨fun known => ?_, fun _ => h.1.statements h₁.2⟩
              rw [found] at known
              cases known
            · exact (h.2.resolved there).earlier h₁.1
          · refine ih.bind fun others c₁ h₁ => ?_
            refine .of_pure _ ⟨h₁.1, h₁.2.names.cons_cons _, fun given => ?_⟩
            rcases List.mem_cons.mp given with here | there
            · cases here
              refine ⟨fun known => ?_, fun gone => ?_⟩
              · rw [found] at known
                cases known
                exact List.mem_cons_self
              · rw [found] at gone
                cases gone
            · exact (h₁.2.resolved there).mono (fun _ h => List.mem_cons_of_mem _ h) id

/-- An id that is given by a name. -/
theorem resolveId_ensures (x : String) :
    Ensures (resolveId (.var x)) c fun r c' => c.Keeps c' ∧ Resolved c.exports x (fun r' => r = r') c' := by
  rw [resolveId]
  refine .get_bind ?_
  rcases found : c.exports.get? x with _ | r'
  · refine (failUnexported_ensures x).bind fun _ c₁ h₁ => ?_
    intro r c' done
    have keeps := Exportless.freshParam _ _ _ _ done
    refine ⟨h₁.1.trans keeps, fun known => ?_, fun _ => keeps.statements h₁.2⟩
    rw [found] at known
    cases known
  · refine .of_pure _ ⟨.refl c, fun known => ?_, fun gone => ?_⟩
    · rw [found] at known
      exact Option.some.inj known
    · rw [found] at gone
      cases gone

theorem Exportless.resolveId (id : Input) : Exportless (resolveId id) :=
  (Idle.resolveId id).exportless

theorem Exportless.varOr (var? : Option String) : Exportless (Model.varOr var?) :=
  (Idle.varOr var?).exportless

theorem Exportless.imports (data : InputObject) : Exportless (imports data) :=
  (Idle.imports data).exportless

/-! ### Exports of a selection -/

/-- The field of the document that a selected field is. -/
def exportedField (p : String) : String :=
  if p == "id" then Field.id else p

/-- The items of a selection, if there is one. -/
def exportedItems : Option Selection → List SelectionItem
  | none => []
  | some selection => selection.items

/-- A later context in which the fields of the document in `var` that are marked in some items are exported
in addition, and no others. -/
structure Exporting (var : String) (items : List SelectionItem) (c c' : Context) : Prop where
  statements : ∀ {s}, s ∈ c.statements → s ∈ c'.statements
  params : ∀ {p v}, c.params.get? p = some v → c'.params.get? p = some v
  kept : ∀ {x r}, c.exports.get? x = some r → c'.exports.get? x = some r
  bound : ∀ {p x below}, .field p (some x) below ∈ items → c'.exports.get? x = some (.exported x) ∧
    .bind x (.field (.doc var) (exportedField p)) ∈ c'.statements
  only : ∀ {x r}, c'.exports.get? x = some r →
    c.exports.get? x = some r ∨ ∃ p below, .field p (some x) below ∈ items

namespace Exporting

variable {var : String} {items items' : List SelectionItem} {c₁ : Context}

theorem of_keeps (h : c.Keeps c') : Exporting var [] c c' where
  statements := h.statements
  params := h.params
  kept {x _} found := (h.exports x).trans found
  bound item := by cases item
  only {x _} found := .inl ((h.exports x).symm.trans found)

theorem keeps (h : Exporting var [] c c') : c.Keeps c' where
  statements := h.statements
  params := h.params
  exports x := by
    refine Option.ext fun r => ⟨fun found => ?_, h.kept⟩
    rcases h.only found with old | ⟨_, _, item⟩
    · exact old
    · cases item

theorem append (h : Exporting var items c c₁) (h' : Exporting var items' c₁ c') :
    Exporting var (items ++ items') c c' where
  statements hs := h'.statements (h.statements hs)
  params hp := h'.params (h.params hp)
  kept found := h'.kept (h.kept found)
  bound item := by
    rcases List.mem_append.mp item with item | item
    · obtain ⟨known, set⟩ := h.bound item
      exact ⟨h'.kept known, h'.statements set⟩
    · exact h'.bound item
  only found := by
    rcases h'.only found with found | ⟨p, below, item⟩
    · rcases h.only found with old | ⟨p, below, item⟩
      · exact .inl old
      · exact .inr ⟨p, below, List.mem_append_left _ item⟩
    · exact .inr ⟨p, below, List.mem_append_right _ item⟩

theorem after (h : Exporting var items c₁ c') (keeps : c.Keeps c₁) : Exporting var items c c' :=
  (of_keeps keeps).append h

theorem before (h : Exporting var items c c₁) (keeps : c₁.Keeps c') : Exporting var items c c' := by
  rw [← List.append_nil items]
  exact h.append (of_keeps keeps)

end Exporting

theorem exportField_ensures (var p : String) (exportAs : Option String) (below : List SelectionItem) :
    Ensures (exportField var p exportAs) c fun _ c' => Exporting var [.field p exportAs below] c c' := by
  cases exportAs with
  | none =>
      refine .of_pure _ ⟨id, id, id, fun item => ?_, .inl⟩
      cases List.mem_singleton.mp item
  | some name =>
      rw [exportField]
      split
      · exact .of_throw _
      · intro a c'' done
        obtain ⟨_, c', recorded, done⟩ := outcome_bind_ok.mp done
        obtain ⟨free, rfl⟩ := of_exportVar_ok recorded
        cases done
        refine ⟨fun hs => List.mem_append_left _ hs, id, fun {x r} found => ?_, fun item => ?_,
          fun {x r} found => ?_⟩
        · have other : x ≠ name := by
            rintro rfl
            simp [Record.contains, found] at free
          exact (Record.get?_insert ..).trans ((if_neg other).trans found)
        · cases List.mem_singleton.mp item
          exact ⟨(Record.get?_insert ..).trans (if_pos rfl), List.mem_append_right _ List.mem_cons_self⟩
        · have found := (Record.get?_insert ..).symm.trans found
          split at found
          · rename_i same
            rw [same]
            exact .inr ⟨p, below, List.mem_singleton_self _⟩
          · exact .inl found

theorem exportItems_ensures (var : String) (items : List SelectionItem) :
    Ensures (exportItems var items) c fun _ c' => Exporting var items c c' := by
  induction items generalizing c with
  | nil => exact .of_pure _ (.of_keeps (.refl c))
  | cons item rest ih =>
      cases item with
      | field p exportAs below =>
          rw [exportItems]
          refine (Idle.rejectExports below).exportless.before fun _ c₁ k₁ => ?_
          refine (exportField_ensures var p exportAs below).bind fun _ c₂ e₂ => ?_
          exact ih.mono fun _ c₃ e₃ => (e₂.append e₃).after k₁
      | fragment condition below =>
          rw [exportItems]
          refine ih.mono fun _ c' e => ?_
          have nothing : Exporting var [.fragment condition below] c c := by
            refine ⟨id, id, id, fun item => ?_, .inl⟩
            cases List.mem_singleton.mp item
          exact nothing.append e

theorem exportSelection_ensures (var : String) (exports : Option Selection) :
    Ensures (exportSelection var exports) c fun _ c' => Exporting var (exportedItems exports) c c' := by
  cases exports with
  | none => exact .of_pure _ (.of_keeps (.refl c))
  | some selection => exact exportItems_ensures var selection.items

/-! ### Edges and documents -/

/-- The statements of an edge insert it between its ends. -/
theorem insertEdge_ensures (type field : String) (source target : Ref) (targetType : String)
    (given : InputObject) (exports : Option Selection) (var? : Option String) (ends : EndChecks) :
    Ensures (m.insertEdge type field source target targetType given exports var? ends) c fun var c' =>
      Exporting var (exportedItems exports) c c' ∧ ∃ doc imported,
        .insert var (edgeCollection type field) doc imported (some (source, target)) ∈ c'.statements := by
  unfold Model.insertEdge
  refine (Idle.lockWrite _).exportless.before fun _ c₁ k₁ => ?_
  refine (Idle.comment _).exportless.before fun _ c₂ k₂ => ?_
  refine (Exportless.imports given).before fun imported c₃ k₃ => ?_
  refine (Exportless.varOr var?).before fun var c₄ k₄ => .ofExcept_bind fun fields _ => ?_
  refine (Exportless.freshParam _).before fun doc c₅ k₅ => ?_
  refine (Idle.checkEdge _ _ _ _ _ _).exportless.before fun _ c₆ k₆ => ?_
  refine Ensures.bind (fun _ _ done => done) fun _ c₇ pushed => ?_
  have k₇ := Exportless.push _ _ _ _ pushed
  refine (exportSelection_ensures var exports).bind fun _ c₈ e₈ => ?_
  refine (Idle.deferChecks _ _ _).exportless.before fun _ c₉ k₉ => .of_pure _ ?_
  have prior := (((((k₁.trans k₂).trans k₃).trans k₄).trans k₅).trans k₆).trans k₇
  refine ⟨(e₈.after prior).before k₉, doc, imported, k₉.statements (e₈.statements ?_)⟩
  cases pushed
  exact List.mem_append_right _ List.mem_cons_self

theorem Exportless.dropEdges (type : String) (f : FieldDef) (id : Ref) :
    Exportless (Model.dropEdges type f id) :=
  (Idle.lockWrite _).exportless.bind fun _ => (Idle.comment _).exportless.bind fun _ => .push _

/-- The statements of a document insert it with its imported fields; those of its edges are among them. -/
theorem insertDocument_ensures {type : String} {data : InputObject} {exports : Option Selection}
    {var? : Option String} {edges : String → TypeDef → Synthesis Unit}
    (quiet : ∀ var t, m.objectType type = .ok t → Exportless (edges var t)) :
    Ensures (m.insertDocument type data exports var? edges) c fun var c' =>
      Exporting var (exportedItems exports) c c' ∧
      (∃ doc imported, .insert var type doc imported none ∈ c'.statements ∧
        Imported c.exports data imported c') ∧
      ∃ t c₁ c₂, m.objectType type = .ok t ∧ c.Keeps c₁ ∧ outcome (edges var t) c₁ = (.ok ⟨⟩, c₂) ∧
        ∀ {s}, s ∈ c₂.statements → s ∈ c'.statements := by
  unfold Model.insertDocument
  refine Idle.ensureOpen.exportless.before fun _ c₁ k₁ => .ofExcept_bind fun t found => ?_
  refine (Idle.comment _).exportless.before fun _ c₂ k₂ => ?_
  refine (imports_ensures data).bind fun imported c₃ h₃ => .ofExcept_bind fun fields _ => ?_
  obtain ⟨k₃, imports⟩ := h₃
  refine (Exportless.freshParam _).before fun doc c₄ k₄ => ?_
  refine (Exportless.varOr var?).before fun var c₅ k₅ => ?_
  refine (Idle.lockWrite _).exportless.before fun _ c₆ k₆ => ?_
  refine Ensures.bind (fun _ _ done => done) fun _ c₇ pushed => ?_
  have k₇ := Exportless.push _ _ _ _ pushed
  refine Ensures.bind (fun _ _ done => done) fun _ c₈ edged => ?_
  have k₈ := quiet var t found _ _ _ edged
  refine (exportSelection_ensures var exports).bind fun _ c₉ e₉ => ?_
  refine (Idle.checkKey _ _).exportless.before fun _ c₁₀ k₁₀ => ?_
  refine (Idle.deferChecks _ _ _).exportless.before fun _ c₁₁ k₁₁ => .of_pure _ ?_
  have start := k₁.trans k₂
  have toPush := (k₄.trans k₅).trans (k₆.trans k₇)
  have toEdges := (start.trans k₃).trans toPush
  have atEnd := k₁₀.trans k₁₁
  refine ⟨((e₉.after k₈).after toEdges).before atEnd, ⟨doc, imported, ?_, imports.names, ?_⟩,
    t, c₇, c₈, found, toEdges, edged, fun hs => atEnd.statements (e₉.statements hs)⟩
  · refine atEnd.statements (e₉.statements (k₈.statements ?_))
    cases pushed
    exact List.mem_append_right _ List.mem_cons_self
  · intro g x given
    refine ((imports.resolved given).earlier start).mono (fun _ h => h) fun hs => ?_
    exact atEnd.statements (e₉.statements (k₈.statements (toPush.statements hs)))

theorem Exportless.insertEdge (type field : String) (source target : Ref) (targetType : String)
    (given : InputObject) (var? : Option String) (ends : EndChecks) :
    Exportless (m.insertEdge type field source target targetType given none var? ends) :=
  fun _ var c' done => (insertEdge_ensures _ _ _ _ _ _ none _ _ var c' done).1.keeps

theorem Exportless.insertDocument {type : String} {data : InputObject} {var? : Option String}
    {edges : String → TypeDef → Synthesis Unit}
    (quiet : ∀ var t, m.objectType type = .ok t → Exportless (edges var t)) :
    Exportless (m.insertDocument type data none var? edges) :=
  fun _ var c' done => (insertDocument_ensures quiet var c' done).1.keeps

/-- Documents and edges inside an input object export nothing. -/
theorem Exportless.walks (m : Model) :
    Walks m (fun _ _ => True) (fun _ _ => True) (fun _ _ _ => Exportless) fun _ _ => Exportless :=
  Exportless.covers.walks (fun _ _ _ _ _ _ => trivial) (fun _ _ => .insertEdge _ _ _ _ _ _ _ _)
    fun _ edges => .insertDocument edges

theorem Exportless.objectEdges (var : String) (t : TypeDef) (replacing : Option Ref) (data : InputObject) :
    Exportless (m.objectEdges var t replacing data) :=
  (Exportless.walks m).objectEdges var t replacing data (fun _ _ _ _ _ => trivial)
    (fun _ _ _ _ _ => .of_all fun _ _ => trivial) fun id _ _ _ f _ _ => .dropEdges t.name f id

theorem Exportless.fieldEdges (site : EdgeSite) (unions : Bool) (value : Input) :
    Exportless (m.fieldEdges site unions value) :=
  (Exportless.walks m).fieldEdges site none unions value trivial (.of_all fun _ _ => trivial)

theorem Exportless.listEdges (site : EdgeSite) (unions : Bool) (items : List Input) :
    Exportless (m.listEdges site unions items) :=
  (Exportless.walks m).listEdges site none unions items trivial (.of_all fun _ _ => trivial)

theorem Exportless.entryEdge (site : EdgeSite) (unions : Bool) (item : InputObject) :
    Exportless (m.entryEdge site unions item fun key type var => m.createAt key type var item) := by
  have alone := Exportless.fieldEdges (m := m) site unions (.obj item)
  rw [Model.fieldEdges] at alone
  exact alone

/-! ### Parts inside parts -/

/-- On the way from one context to another a part of a mutation has succeeded, and nothing had been exported
before. -/
def Context.Passes (c : Context) (y : Synthesis α) (c' : Context) : Prop :=
  ∃ c₁ a c₂, c.Keeps c₁ ∧ outcome y c₁ = (.ok a, c₂) ∧ ∀ {s}, s ∈ c₂.statements → s ∈ c'.statements

namespace Context.Passes

variable {y : Synthesis α} {c'' : Context}

theorem earlier (h : c'.Passes y c'') (keeps : c.Keeps c') : c.Passes y c'' := by
  obtain ⟨c₁, a, c₂, before, done, later⟩ := h
  exact ⟨c₁, a, c₂, keeps.trans before, done, later⟩

theorem later (h : c.Passes y c') (kept : ∀ {s}, s ∈ c'.statements → s ∈ c''.statements) :
    c.Passes y c'' := by
  obtain ⟨c₁, a, c₂, before, done, later⟩ := h
  exact ⟨c₁, a, c₂, before, done, fun hs => kept (later hs)⟩

/-- A part of a part. -/
theorem inside {z : Synthesis β} (h : c.Passes y c')
    (inner : ∀ c, Ensures y c fun _ c' => c.Passes z c') : c.Passes z c' := by
  obtain ⟨c₁, a, c₂, before, done, after⟩ := h
  exact ((inner c₁ a c₂ done).earlier before).later after

end Context.Passes

/-- The first of two parts, if the second exports nothing. -/
theorem passes_first {y : Synthesis α} {f : α → Synthesis β} (hf : ∀ a, Exportless (f a)) :
    Ensures (y >>= f) c fun _ c' => c.Passes y c' := by
  intro b c' done
  obtain ⟨a, c₁, first, second⟩ := outcome_bind_ok.mp done
  exact ⟨c, a, c₁, .refl c, first, (hf a c₁ b c' second).statements⟩

/-- The edges of a field among those of an input object. -/
theorem objectEdges_passes {var name : String} {t : TypeDef} {replacing : Option Ref} {data : InputObject}
    {value : Input} {f : FieldDef} (field : (name, value) ∈ data)
    (edge : m.edgeField? t name value = some f) :
    Ensures (m.objectEdges var t replacing data) c fun _ c' =>
      c.Passes (m.fieldEdges ⟨var, t.name, f⟩ replacing.isNone value) c' := by
  induction data generalizing c with
  | nil => cases field
  | cons e rest ih =>
      obtain ⟨name', value'⟩ := e
      rw [Model.objectEdges]
      have others : ∀ _ : Unit, Exportless (m.objectEdges var t replacing rest) :=
        fun _ => Exportless.objectEdges var t replacing rest
      rcases List.mem_cons.mp field with same | later
      · cases same
        rw [edge]
        cases replacing with
        | none => exact passes_first others
        | some id =>
            refine (Exportless.dropEdges t.name f id).before fun _ c₁ k₁ => ?_
            exact (passes_first others).mono fun _ _ h => h.earlier k₁
      · cases m.edgeField? t name' value' with
        | none => exact ih later
        | some f' =>
            cases replacing with
            | none =>
                refine (Exportless.fieldEdges _ _ _).before fun _ c₁ k₁ => ?_
                exact (ih later).mono fun _ _ h => h.earlier k₁
            | some id =>
                refine (Exportless.dropEdges t.name f' id).before fun _ c₁ k₁ => ?_
                refine (Exportless.fieldEdges _ _ _).before fun _ c₂ k₂ => ?_
                exact (ih later).mono fun _ _ h => h.earlier (k₁.trans k₂)

/-- An entry among those of a list. -/
theorem listEdges_passes {site : EdgeSite} {unions : Bool} {items : List Input} {item : InputObject}
    (entry : .obj item ∈ items) :
    Ensures (m.listEdges site unions items) c fun _ c' => c.Passes
      (m.entryEdge site unions item fun key type var => m.createAt key type var item) c' := by
  induction items generalizing c with
  | nil => cases entry
  | cons first rest ih =>
      rcases List.mem_cons.mp entry with same | later
      · cases same
        rw [Model.listEdges]
        exact passes_first fun _ => Exportless.listEdges _ _ _
      · cases first with
        | obj item' =>
            rw [Model.listEdges]
            refine (Exportless.entryEdge site unions item').before fun _ c₁ k₁ => ?_
            exact (ih later).mono fun _ _ h => h.earlier k₁
        | null =>
            rw [Model.listEdges]
            exact ih later
        | bool | num | str | list | var =>
            simp only [Model.listEdges]
            exact .of_throw _

/-- An entry of an edge field. -/
theorem fieldEdges_passes {site : EdgeSite} {unions : Bool} {value : Input} {item : InputObject}
    (entry : .obj item ∈ value.items) :
    Ensures (m.fieldEdges site unions value) c fun _ c' => c.Passes
      (m.entryEdge site unions item fun key type var => m.createAt key type var item) c' := by
  cases value with
  | list items =>
      rw [Model.fieldEdges]
      exact listEdges_passes entry
  | obj item' =>
      cases List.mem_singleton.mp entry
      rw [Model.fieldEdges]
      exact fun a c' done => ⟨c, a, c', .refl c, done, id⟩
  | null | bool | num | str | var => cases List.mem_singleton.mp entry

/-- There is one way to choose what to create. -/
theorem creation_of_chooses {site : EdgeSite} {unions : Bool} {item inner : InputObject}
    {key type : String} {creation : Creation} (chosen : Chooses m site.field item key type)
    (given : item.get? key = some (.obj inner)) (h : m.creation site unions item = .ok creation) :
    creation = .create key type := by
  unfold Model.creation at h
  cases chosen with
  | concrete known concrete =>
      have known' : m.schema.kindOf site.targetType = _ := known
      have holds : Model.holdsObject item "create" = true := by
        simp [Model.holdsObject, given, Input.obj?]
      simp [known', concrete.1, concrete.2, holds, bind, Except.bind, pure, Except.pure] at h
      exact h.symm
  | among known abstract possible only =>
      have known' : m.schema.kindOf site.targetType = _ := known
      have possible' : m.schema.possibleTypes site.targetType = _ := possible
      simp only [known', possible', only, bind, Except.bind, pure, Except.pure] at h
      split at h
      · cases h
      · rw [if_pos (by simpa using abstract)] at h
        exact (Except.ok.inj h).symm

/-- What an entry creates. -/
theorem entryEdge_passes {site : EdgeSite} {unions : Bool} {item inner : InputObject} {key type : String}
    (unconnected : item.get? "connect" = none) (chosen : Chooses m site.field item key type)
    (given : item.get? key = some (.obj inner)) :
    Ensures (m.entryEdge site unions item fun key type var => m.createAt key type var item) c fun _ c' =>
      ∃ var, c.Passes (m.createAt key type var item) c' := by
  unfold Model.entryEdge
  simp only [unconnected]
  refine .ofExcept_bind fun creation created => ?_
  rw [creation_of_chooses chosen given created]
  refine Exportless.freshVar.before fun var c₁ k₁ => Ensures.mono (passes_first fun _ => ?_) fun _ _ h => ?_
  · exact (Exportless.insertEdge _ _ _ _ _ _ _ _).bind fun _ => .pure _
  · exact ⟨var, h.earlier k₁⟩

/-- The object under a key of an entry. -/
theorem createAt_passes {key type var : String} {item inner : InputObject}
    (given : item.get? key = some (.obj inner)) :
    Ensures (m.createAt key type var item) c fun _ c' =>
      c.Passes (m.create type inner none (some var)) c' := by
  induction item generalizing c with
  | nil => cases given
  | cons e rest ih =>
      obtain ⟨name, value⟩ := e
      rw [Record.get?_cons] at given
      by_cases here : key = name
      · rw [if_pos here] at given
        cases given
        rw [Model.createAt, if_pos (by simpa using here.symm)]
        exact passes_first fun _ => .pure _
      · rw [if_neg here] at given
        cases value with
        | obj data =>
            rw [Model.createAt, if_neg (by simpa using fun same => here same.symm)]
            exact ih given
        | null | bool | num | str | list | var =>
            simp only [Model.createAt]
            exact ih given

/-- What an entry of a field of an input object creates. -/
theorem objectEdges_creates {var name key type : String} {t : TypeDef} {replacing : Option Ref}
    {data item inner : InputObject} {value : Input} {f : FieldDef} (field : (name, value) ∈ data)
    (edge : m.edgeField? t name value = some f) (entry : .obj item ∈ value.items)
    (unconnected : item.get? "connect" = none) (chosen : Chooses m f item key type)
    (given : item.get? key = some (.obj inner)) :
    Ensures (m.objectEdges var t replacing data) c fun _ c' =>
      ∃ var, c.Passes (m.create type inner none (some var)) c' := by
  refine (objectEdges_passes field edge).mono fun _ c' h => ?_
  obtain ⟨c₁, a, c₂, before, done, after⟩ := h.inside fun _ => fieldEdges_passes entry
  obtain ⟨var, h⟩ := entryEdge_passes unconnected chosen given _ _ done
  exact ⟨var, ((h.inside fun _ => createAt_passes given).earlier before).later after⟩

/-- The edges of a document that is created. -/
theorem create_passes {type : String} {data : InputObject} {exports : Option Selection}
    {var? : Option String} {u : TypeDef} (found : m.objectType type = .ok u) :
    Ensures (m.create type data exports var?) c fun _ c' =>
      ∃ var, c.Passes (m.objectEdges var u none data) c' := by
  refine (insertDocument_ensures fun var t _ => Exportless.objectEdges var t none data).mono ?_
  rintro var c' ⟨_, _, t, c₁, c₂, found', keeps, done, later⟩
  cases found.symm.trans found'
  exact ⟨var, c₁, _, c₂, keeps, done, later⟩

/-! ### Names in place of ids to connect -/

/-- `Connects m t data C x`: somewhere in an input object of a type, an entry of an edge field is connected
to what `x` stands for; `C` is the collection of the edge. -/
inductive Connects (m : Model) : TypeDef → InputObject → (C x : String) → Prop
  | here {t : TypeDef} {data item : InputObject} {name x : String} {value : Input} {f : FieldDef}
      (field : (name, value) ∈ data) (edge : m.edgeField? t name value = some f)
      (entry : .obj item ∈ value.items) (given : item.get? "connect" = some (.var x)) :
      Connects m t data (edgeCollection t.name f.name) x
  | inside {t u : TypeDef} {data item inner : InputObject} {name key type C x : String} {value : Input}
      {f : FieldDef} (field : (name, value) ∈ data) (edge : m.edgeField? t name value = some f)
      (entry : .obj item ∈ value.items) (unconnected : item.get? "connect" = none)
      (chosen : Chooses m f item key type) (given : item.get? key = some (.obj inner))
      (found : m.objectType type = .ok u) (connects : Connects m u inner C x) : Connects m t data C x

/-- The use of a name as the target of an edge. -/
abbrev Targets (exports : Record Ref) (C x : String) (c' : Context) : Prop :=
  Resolved exports x (fun r => ∃ var doc imported source,
    .insert var C doc imported (some (source, r)) ∈ c'.statements) c'

theorem Resolved.targets {C : String} {c'' : Context} {exports : Record Ref} (h : Targets exports C x c')
    (later : ∀ {s}, s ∈ c'.statements → s ∈ c''.statements) : Targets exports C x c'' := by
  refine ⟨fun found => ?_, fun gone => later (h.missing gone)⟩
  obtain ⟨var, doc, imported, source, inserted⟩ := h.used found
  exact ⟨var, doc, imported, source, later inserted⟩

theorem Context.Passes.targets {y : Synthesis α} {C : String} (h : c.Passes y c')
    (inner : ∀ c, Ensures y c fun _ c' => Targets c.exports C x c') : Targets c.exports C x c' := by
  obtain ⟨c₁, a, c₂, before, done, after⟩ := h
  exact ((inner c₁ a c₂ done).targets after).earlier before

/-- A name in place of an id to connect, at any depth. -/
theorem Connects.ensures {t : TypeDef} {data : InputObject} {C : String} (h : Connects m t data C x)
    (var : String) (replacing : Option Ref) (c : Context) :
    Ensures (m.objectEdges var t replacing data) c fun _ c' => Targets c.exports C x c' := by
  -- The place of the name is reached through fields and entries; all that comes before exports nothing.
  induction h generalizing var replacing c with
  | here field edge entry given =>
      refine (objectEdges_passes field edge).mono fun _ c' h => ?_
      refine (h.inside fun _ => fieldEdges_passes entry).targets fun c => ?_
      unfold Model.entryEdge
      simp only [given]
      refine (resolveId_ensures _).bind fun r c₁ h₁ => ?_
      obtain ⟨_, resolved⟩ := h₁
      refine (insertEdge_ensures _ _ _ _ _ _ none _ _).bind fun edge c₂ h₂ => .of_pure _ ?_
      obtain ⟨exporting, doc, imported, inserted⟩ := h₂
      refine resolved.mono ?_ exporting.statements
      rintro _ rfl
      exact ⟨edge, doc, imported, _, inserted⟩
  | inside field edge entry unconnected chosen given found _ ih =>
      refine (objectEdges_creates field edge entry unconnected chosen given).mono ?_
      rintro _ c' ⟨var, h⟩
      refine h.targets fun c => (create_passes found).mono ?_
      rintro _ _ ⟨var, h⟩
      exact h.targets fun c => ih var none c

/-! ### Mutations -/

namespace Mutation

/-- Only what leaves a document exports fields of it. -/
def exporting : Mutation → Bool
  | .create _ _ | .update _ _ _ | .createEdge _ _ _ _ _ | .updateEdge _ _ _ _ => true
  | .delete _ _ | .deleteEdge _ _ _ => false

/-- The result is an edge. -/
def makesEdge : Mutation → Bool
  | .createEdge _ _ _ _ _ => true
  | .create _ _ | .update _ _ _ | .delete _ _ | .updateEdge _ _ _ _ | .deleteEdge _ _ _ => false

/-- The fields that a document is given. -/
def given : Mutation → InputObject
  | .create _ data | .update _ _ data => data
  | .delete _ _ | .createEdge _ _ _ _ _ | .updateEdge _ _ _ _ | .deleteEdge _ _ _ => []

/-- `EdgeEnd m mutation C field x`: the mutation makes an edge in `C` whose end `field` is given by the
name `x`. -/
inductive EdgeEnd (m : Model) : Mutation → (C field x : String) → Prop
  | source {type field x : String} {target : Input} {annotations : InputObject} :
      EdgeEnd m (.createEdge type field (.var x) target annotations) (edgeCollection type field)
        Field.source x
  | target {type field x : String} {source : Input} {annotations : InputObject} :
      EdgeEnd m (.createEdge type field source (.var x) annotations) (edgeCollection type field)
        Field.target x
  | create {type C x : String} {data : InputObject} {t : TypeDef} (found : m.objectType type = .ok t)
      (connects : Connects m t data C x) : EdgeEnd m (.create type data) C Field.target x
  | update {type C x : String} {id : Input} {data : InputObject} {t : TypeDef}
      (found : m.objectType type = .ok t) (connects : Connects m t data C x) :
      EdgeEnd m (.update type id data) C Field.target x

end Mutation

/-- A statement sets a field of the document in `var` to what a reference means, and nothing else in the
statement sets the field. -/
inductive Context.Sets (c : Context) (var g : String) (r : Ref) : Prop
  | insert {C : String} {doc : Ref} {imported : List (String × Ref)}
      (stated : .insert var C doc imported none ∈ c.statements) (given : (g, r) ∈ imported)
      (distinct : (imported.map Prod.fst).Nodup) : Sets c var g r
  | update {C p : String} {id : Ref} {d : Document} {imported : List (String × Ref)}
      (stated : .update var C id (.param p) imported ∈ c.statements)
      (param : c.params.get? p = some (.obj d)) (plain : (d.map Prod.fst).Nodup)
      (given : (g, r) ∈ imported) (distinct : (imported.map Prod.fst).Nodup) : Sets c var g r

/-- A statement inserts the edge in `var` with what a reference means at one of its ends. -/
def Context.Ends (c : Context) (var C field : String) (r : Ref) : Prop :=
  ∃ doc imported source target, .insert var C doc imported (some (source, target)) ∈ c.statements ∧
    (field = Field.source ∧ source = r ∨ field = Field.target ∧ target = r)

/-- What a mutation makes of the names in it, and the names that it exports itself. -/
structure Mutation.Handles (m : Model) (mutation : Mutation) (exports : Option Selection) (c : Context)
    (var : String) (c' : Context) : Prop where
  exporting : Exporting var (if mutation.exporting then exportedItems exports else []) c c'
  stored : ∀ {g x}, (g, .var x) ∈ mutation.given →
    Resolved c.exports x (fun r => (mutation.given.map Prod.fst).Nodup → c'.Sets var g r) c'
  ended : ∀ {C field x}, mutation.EdgeEnd m C field x → Resolved c.exports x (fun r =>
    ∃ edge, c'.Ends edge C field r ∧ (mutation.makesEdge = true → edge = var)) c'

theorem Resolved.ends {var C : String} {exports : Record Ref} {mutation : Mutation}
    (h : Targets exports C x c') (other : mutation.makesEdge = false) :
    Resolved exports x (fun r =>
      ∃ edge, c'.Ends edge C Field.target r ∧ (mutation.makesEdge = true → edge = var)) c' := by
  refine ⟨fun found => ?_, h.missing⟩
  obtain ⟨edge, doc, imported, source, inserted⟩ := h.used found
  refine ⟨edge, ⟨doc, imported, source, _, inserted, .inr ⟨rfl, rfl⟩⟩, fun makes => ?_⟩
  rw [other] at makes
  cases makes

theorem create_handles (type : String) (data : InputObject) (exports : Option Selection)
    (var? : Option String) :
    Ensures (m.create type data exports var?) c
      (Mutation.Handles m (.create type data) exports c) := by
  refine (insertDocument_ensures fun var t _ => Exportless.objectEdges var t none data).mono ?_
  rintro var c' ⟨exporting, ⟨doc, imported, stated, imports⟩, t, c₁, c₂, found, keeps, edged, later⟩
  refine ⟨exporting, fun given => ?_, fun edge => ?_⟩
  · refine (imports.resolved given).mono (fun r mem distinct => ?_) id
    exact .insert stated mem (imports.names.nodup distinct)
  · cases edge with
    | create found' connects =>
        cases found.symm.trans found'
        exact (((connects.ensures var none c₁ _ _ edged).targets later).earlier keeps).ends rfl

theorem storedFields_names {t : TypeDef} {data : InputObject} {d : Document}
    (h : m.storedFields t data = .ok d) : (d.map Prod.fst).Sublist (data.map Prod.fst) := by
  induction data generalizing d with
  | nil =>
      cases h
      exact .slnil
  | cons e rest ih =>
      obtain ⟨f, _, ⟨_, _, _, others, _, _, read, rfl⟩ | ⟨_, read⟩⟩ := Model.storedFields_cons h
      · exact (ih read).cons_cons _
      · exact (ih read).cons _

theorem freshParam_ensures (v : Json) :
    Ensures (freshParam v) c fun r c' => c.Keeps c' ∧ ∃ p, r = .param p ∧ c'.params.get? p = some v := by
  intro r c' done
  refine ⟨Exportless.freshParam v c r c' done, ?_⟩
  obtain ⟨rfl, rfl, _⟩ := Effects.of_freshParam_ok done
  exact ⟨_, rfl, c.get?_addParam v⟩

theorem update_handles (type : String) (id : Input) (data : InputObject) (exports : Option Selection)
    (var? : Option String) :
    Ensures (m.update type id data exports var?) c
      (Mutation.Handles m (.update type id data) exports c) := by
  unfold Model.update
  refine Idle.ensureOpen.exportless.before fun _ c₁ k₁ => .ofExcept_bind fun t found => ?_
  refine (Idle.comment _).exportless.before fun _ c₂ k₂ => ?_
  refine (Exportless.resolveId id).before fun target c₃ k₃ => ?_
  refine (imports_ensures data).bind fun imported c₄ h₄ => .ofExcept_bind fun fields read => ?_
  obtain ⟨k₄, imports⟩ := h₄
  refine (freshParam_ensures _).bind fun doc c₅ h₅ => ?_
  obtain ⟨k₅, p, rfl, param⟩ := h₅
  refine (Exportless.varOr var?).before fun var c₆ k₆ => ?_
  refine (Idle.lockWrite _).exportless.before fun _ c₇ k₇ => ?_
  refine Ensures.bind (fun _ _ done => done) fun _ c₈ pushed => ?_
  have k₈ := Exportless.push _ _ _ _ pushed
  refine Ensures.bind (fun _ _ done => done) fun _ c₉ edged => ?_
  have k₉ := Exportless.objectEdges _ _ _ _ _ _ _ edged
  refine (exportSelection_ensures var exports).bind fun _ c₁₀ e₁₀ => ?_
  refine (Idle.checkKey _ _).exportless.before fun _ c₁₁ k₁₁ => ?_
  refine (Idle.deferChecks _ _ _).exportless.before fun _ c₁₂ k₁₂ => .of_pure _ ?_
  have start := (k₁.trans k₂).trans k₃
  have toPush := (k₆.trans k₇).trans k₈
  have toEdges := start.trans (k₄.trans (k₅.trans toPush))
  have atEnd := k₁₁.trans k₁₂
  have onward : ∀ {s}, s ∈ c₈.statements → s ∈ c₁₂.statements :=
    fun hs => atEnd.statements (e₁₀.statements (k₉.statements hs))
  refine ⟨((e₁₀.after k₉).after toEdges).before atEnd, fun given => ?_, fun edge => ?_⟩
  · refine ((imports.resolved given).earlier start).mono (fun r mem distinct => ?_)
      fun hs => onward (toPush.statements (k₅.statements hs))
    -- A patch is merged entry by entry, so no name may occur in it twice.
    have plain : (fields.map Prod.fst).Nodup :=
      (storedFields_names read).nodup ((List.filter_sublist.map _).nodup distinct)
    have stated : .update var type target (.param p) imported ∈ c₈.statements := by
      cases pushed
      exact List.mem_append_right _ List.mem_cons_self
    exact .update (onward stated) (atEnd.params (e₁₀.params (k₉.params (toPush.params param))))
      (Record.nodup_insert (Record.nodup_insert plain _ _) _ _) mem (imports.names.nodup distinct)
  · cases edge with
    | update found' connects =>
        cases found.symm.trans found'
        refine (((connects.ensures var _ c₈ _ _ edged).targets ?_).earlier toEdges).ends rfl
        exact fun hs => atEnd.statements (e₁₀.statements hs)

/-- An end of an edge, by a name or not. -/
theorem resolveId_resolved (id : Input) :
    Ensures (resolveId id) c fun r c' => c.Keeps c' ∧
      ∀ x, id = .var x → Resolved c.exports x (fun r' => r = r') c' := by
  intro r c' done
  refine ⟨Exportless.resolveId id c r c' done, ?_⟩
  rintro x rfl
  exact (resolveId_ensures x r c' done).2

theorem createEdge_handles (type field : String) (source target : Input) (annotations : InputObject)
    (exports : Option Selection) (var? : Option String) :
    Ensures (m.createEdge type field source target annotations exports var?) c
      (Mutation.Handles m (.createEdge type field source target annotations) exports c) := by
  unfold Model.createEdge
  refine Idle.ensureOpen.exportless.before fun _ c₁ k₁ => .ofExcept_bind fun f _ => ?_
  refine (resolveId_resolved source).bind fun a c₂ h₂ => ?_
  refine (resolveId_resolved target).bind fun b c₃ h₃ => ?_
  refine (insertEdge_ensures _ _ _ _ _ _ exports _ _).mono ?_
  rintro var c' ⟨exporting, doc, imported, inserted⟩
  refine ⟨exporting.after ((k₁.trans h₂.1).trans h₃.1), fun given => (by cases given), fun edge => ?_⟩
  cases edge with
  | source =>
      refine ((h₂.2 _ rfl).earlier k₁).mono ?_ fun hs => exporting.statements (h₃.1.statements hs)
      rintro _ rfl
      exact ⟨var, ⟨doc, imported, a, b, inserted, .inl ⟨rfl, rfl⟩⟩, fun _ => rfl⟩
  | target =>
      refine ((h₃.2 _ rfl).earlier (k₁.trans h₂.1)).mono ?_ exporting.statements
      rintro _ rfl
      exact ⟨var, ⟨doc, imported, a, b, inserted, .inr ⟨rfl, rfl⟩⟩, fun _ => rfl⟩

theorem updateEdge_handles (type field : String) (id : Input) (data : InputObject)
    (exports : Option Selection) (var? : Option String) :
    Ensures (m.updateEdge type field id data exports var?) c
      (Mutation.Handles m (.updateEdge type field id data) exports c) := by
  unfold Model.updateEdge
  refine Idle.ensureOpen.exportless.before fun _ c₁ k₁ => ?_
  refine (Exportless.varOr var?).before fun var c₂ k₂ => ?_
  refine (Idle.lockWrite _).exportless.before fun _ c₃ k₃ => ?_
  refine (Idle.comment _).exportless.before fun _ c₄ k₄ => ?_
  refine (Exportless.imports data).before fun imported c₅ k₅ => .ofExcept_bind fun fields _ => ?_
  refine (Exportless.freshParam _).before fun doc c₆ k₆ => ?_
  refine (Exportless.resolveId id).before fun target c₇ k₇ => ?_
  refine (Exportless.push _).before fun _ c₈ k₈ => ?_
  refine (exportSelection_ensures var exports).bind fun _ c₉ e₉ => .of_pure _ ?_
  have keeps := (((k₁.trans k₂).trans (k₃.trans k₄)).trans (k₅.trans k₆)).trans (k₇.trans k₈)
  exact ⟨e₉.after keeps, fun given => (by cases given), fun edge => by cases edge⟩

theorem Exportless.delete (type : String) (id : Input) (var? : Option String) :
    Exportless (m.delete type id var?) := by
  unfold Model.delete
  refine Idle.ensureOpen.exportless.bind fun _ => (Idle.ofExcept _).exportless.bind fun t => ?_
  refine (Idle.comment _).exportless.bind fun _ => (Exportless.resolveId id).bind fun target => ?_
  refine (Exportless.varOr var?).bind fun var => (Idle.lockWrite _).exportless.bind fun _ => ?_
  refine (Exportless.push _).bind fun _ => (Idle.ofExcept _).exportless.bind fun collections => ?_
  refine (Idle.lockWrites collections).exportless.bind fun _ => (Exportless.push _).bind fun _ => ?_
  refine (Idle.deferChecks _ _ _).exportless.bind fun _ => ?_
  exact (Idle.forget target).exportless.bind fun _ => .pure _

theorem Exportless.deleteEdge (type field : String) (id : Input) (var? : Option String) :
    Exportless (m.deleteEdge type field id var?) := by
  unfold Model.deleteEdge
  refine Idle.ensureOpen.exportless.bind fun _ => (Idle.comment _).exportless.bind fun _ => ?_
  refine (Exportless.resolveId id).bind fun target => (Exportless.varOr var?).bind fun var => ?_
  refine (Idle.lockWrite _).exportless.bind fun _ => (Exportless.push _).bind fun _ => ?_
  exact (Idle.deferChecks _ _ _).exportless.bind fun _ => .pure _

/-- Every mutation handles the names in it. -/
theorem synthesize_handles (mutation : Mutation) (exports : Option Selection) (var? : Option String) :
    Ensures (mutation.synthesize m exports var?) c (mutation.Handles m exports c) := by
  cases mutation with
  | create type data => exact create_handles type data exports var?
  | update type id data => exact update_handles type id data exports var?
  | createEdge type field source target annotations =>
      exact createEdge_handles type field source target annotations exports var?
  | updateEdge type field id data => exact updateEdge_handles type field id data exports var?
  | delete type id =>
      intro var c' done
      refine ⟨.of_keeps (Exportless.delete type id var? c var c' done), fun given => (by cases given), ?_⟩
      exact fun edge => by cases edge
  | deleteEdge type field id =>
      intro var c' done
      refine ⟨.of_keeps (Exportless.deleteEdge type field id var? c var c' done),
        fun given => (by cases given), ?_⟩
      exact fun edge => by cases edge

end DocGraph
