import DocGraph.Proofs.Uses

/-! # What input objects do to a store

What the statements of an input object do to a store is put together from what single writes do: `Admits m W S`
says that writing a document from an object with the property `W`, and writing an edge, change a store as the
relation `S` allows, and then so do the statements of an input object all of whose objects have the property
(`Admits.objectEdges`, `Admits.create`). -/

namespace DocGraph

variable {α β : Type} {m : Model} {c : Context} {W : TypeDef → InputObject → Prop}
  {S : Record Json → Store → Store → Prop}

open Synthesis

/-- The type and the fields of the document that a mutation creates or updates. -/
def Mutation.document? : Mutation → Option (String × InputObject)
  | .create type data | .update type _ data => some (type, data)
  | .delete _ _ | .createEdge _ _ _ _ _ | .updateEdge _ _ _ _ | .deleteEdge _ _ _ => none

/-- The fields that are imported are given by names. -/
theorem imports_effects (data : InputObject) :
    Effects (imports data) c fun imported _ run run' => run' = run ∧
      ∀ e ∈ imported, ∃ x, (e.1, .var x) ∈ data := by
  induction data generalizing c with
  | nil => exact .of_pure _ fun _ _ => ⟨rfl, fun e he => by cases he⟩
  | cons e rest ih =>
      obtain ⟨field, value⟩ := e
      have later : ∀ {imported : List (String × Ref)}, (∀ e ∈ imported, ∃ x, (e.1, .var x) ∈ rest) →
          ∀ e ∈ imported, ∃ x, (e.1, .var x) ∈ (field, value) :: rest := by
        intro imported h e he
        obtain ⟨x, hx⟩ := h e he
        exact ⟨x, List.mem_cons_of_mem _ hx⟩
      cases value with
      | null | bool | num | str | list | obj =>
          simp only [imports]
          exact ih.mono fun _ _ _ _ h => ⟨h.1, later h.2⟩
      | var name =>
          rw [imports]
          refine Idle.get.bind_effects fun c₀ c₁ _ => ?_
          split
          · refine ih.bind fun imported c₂ _ => .of_pure _ ?_
            rintro params run _ ⟨rfl, h⟩
            refine ⟨rfl, fun e he => ?_⟩
            rcases List.mem_cons.mp he with rfl | he
            · exact ⟨name, List.mem_cons_self⟩
            · exact later h e he
          · refine (Idle.fail _).bind_effects fun _ c₂ _ => ?_
            exact ih.mono fun _ _ _ _ h => ⟨h.1, later h.2⟩

/-! ### Changes of a store -/

/-- Writes from objects with a property change a store as a relation allows, which may depend on the
parameters. -/
structure Admits (m : Model) (W : TypeDef → InputObject → Prop) (S : Record Json → Store → Store → Prop) :
    Prop where
  refl (params : Record Json) (s : Store) : S params s s
  trans {params : Record Json} {s₁ s₂ s₃ : Store} : S params s₁ s₂ → S params s₂ s₃ → S params s₁ s₃
  document {write : NameSet} {params : Record Json} {run run' : Run} {var type p : String} {t : TypeDef}
    {data : InputObject} {d : Document} {imported : List (String × Ref)}
    (found : m.objectType type = .ok t) (proper : W t data)
    (read : m.storedFields t (literals data) = .ok d) (names : ∀ e ∈ imported, ∃ x, (e.1, .var x) ∈ data)
    (given : params.get? p = some (m.created type d)) (issued : run.store.Issued run.lastKey)
    (performed : Performs write params (.insert var type (.param p) imported none) run run') :
    S params run.store run'.store
  edge {write : NameSet} {params : Record Json} {run run' : Run} {var type field : String} {doc : Ref}
    {imported : List (String × Ref)} {ends : Ref × Ref} (issued : run.store.Issued run.lastKey)
    (performed : Performs write params (.insert var (edgeCollection type field) doc imported (some ends))
      run run') : S params run.store run'.store

/-- The statements of a part of a mutation change the store as a relation allows. -/
def Changes (S : Record Json → Store → Store → Prop) (x : Synthesis α) (c : Context) : Prop :=
  Effects x c fun _ params run run' => S params run.store run'.store

theorem Idle.bind_changes {x : Synthesis α} {f : α → Synthesis β} (hx : Idle x)
    (hf : ∀ a c', Changes S (f a) c') : Changes S (x >>= f) c :=
  hx.bind_effects fun a c' _ => hf a c'

namespace Admits

variable (admits : Admits m W S)

include admits

theorem of_idle {x : Synthesis α} (h : Idle x) : Changes S x c :=
  (h.effects c).mono fun _ _ _ _ same => by
    rw [same]
    exact admits.refl _ _

theorem bind {x : Synthesis α} {f : α → Synthesis β} (hx : Changes S x c)
    (hf : ∀ a c', Changes S (f a) c') : Changes S (x >>= f) c :=
  Effects.bind hx fun a c' _ => (hf a c').mono fun _ _ _ _ later _ first => admits.trans first later

/-- What is exported is no part of the store. -/
theorem exportSelection (var : String) (exports : Option Selection) :
    Changes S (exportSelection var exports) c :=
  (exportSelection_effects var exports).mono fun _ _ _ _ same => by
    rw [same.store]
    exact admits.refl _ _

/-- All parts that leave stores alone change them as the relation allows. -/
theorem covers : Covers (fun {α} (x : Synthesis α) => ∀ c, Changes S x c) fun _ => True where
  pure a _ := admits.of_idle (.pure a)
  throw e _ := admits.of_idle (.throw e)
  bind first later c := admits.bind (first c) later
  get _ := admits.of_idle .get
  fail text _ := admits.of_idle (.fail text)
  comment text _ := admits.of_idle (.comment text)
  assert check message _ := admits.of_idle (.assert check message)
  defer s _ := admits.of_idle (.defer s)
  freshVar _ := admits.of_idle .freshVar
  freshParam v _ := admits.of_idle (.freshParam v)
  needsCheck id type _ := admits.of_idle (.needsCheck id type)
  lockRead _ _ := admits.of_idle (.lockRead _)

theorem push_edge (var type field : String) (doc : Ref) (imported : List (String × Ref)) (ends : Ref × Ref) :
    Changes S (push (.insert var (edgeCollection type field) doc imported (some ends))) c := by
  intro a c' done
  cases done
  refine ⟨⟨id, Nat.le_refl _⟩, [_], rfl, ?_⟩
  intro write params run run' _ issued p
  exact admits.edge issued (performsAll_singleton.mp p)

theorem insertEdge (type field : String) (source target : Ref) (targetType : String) (given : InputObject)
    (exports : Option Selection) (var? : Option String) (ends : EndChecks) :
    Changes S (m.insertEdge type field source target targetType given exports var? ends) c :=
  admits.covers.insertEdge given var? (fun _ => admits.of_idle (.lockWrite _))
    (fun var doc imported _ => admits.push_edge var type field doc imported (source, target))
    (fun var _ => admits.exportSelection var exports) trivial (fun _ _ _ _ _ => trivial)
    (fun _ _ _ _ _ => trivial) (fun _ _ _ _ _ _ => trivial) c

/-- The edges of a document, and what comes after them. -/
theorem edges_bind {edges : Synthesis Unit} {var type : String} {exports : Option Selection}
    (changes : Changes S edges c) :
    Changes S (do
      edges
      Synthesis.exportSelection var exports
      m.checkKey var type
      m.deferChecks type (Ref.doc var).id none
      return var) c := by
  refine admits.bind changes fun _ c₁ => admits.bind (admits.exportSelection _ _) fun _ c₂ => ?_
  refine (Idle.checkKey _ _).bind_changes fun _ c₃ => ?_
  exact (Idle.deferChecks _ _ _).bind_changes fun _ c₄ => admits.of_idle (.pure _)

theorem insertDocument {type : String} {data : InputObject} {exports : Option Selection}
    {var? : Option String} {edges : String → TypeDef → Synthesis Unit}
    (proper : ∀ t, m.objectType type = .ok t → W t data)
    (changes : ∀ var t c', m.objectType type = .ok t → Changes S (edges var t) c') :
    Changes S (m.insertDocument type data exports var? edges) c := by
  unfold Model.insertDocument
  refine Idle.ensureOpen.bind_changes fun _ c₁ => Effects.ofExcept_bind fun t found => ?_
  refine (Idle.comment _).bind_changes fun _ c₂ => (imports_effects data).bind fun imported c₃ _ => ?_
  refine Effects.ofExcept_bind fun d read => Effects.freshParam_bind fun p c₄ _ => ?_
  refine (Idle.varOr var?).bind_effects fun var c₅ _ => ?_
  refine (Idle.lockWrite _).bind_effects fun _ c₆ _ => Effects.push_bind ?_
  refine Effects.mono (E := fun _ params run run' => S params run.store run'.store) ?_ ?_
  · exact admits.edges_bind (changes var t _ found)
  · rintro _ params run₁ run' later write run issued first given _ ⟨rfl, names⟩
    exact admits.trans (admits.document found (proper t found) read names given issued first) later

/-- Documents and edges inside an input object change a store as the relation allows. -/
theorem walks : Walks m W (fun _ _ => True) (fun _ _ _ x => ∀ c, Changes S x c) fun _ _ x => ∀ c, Changes S x c :=
  admits.covers.walks (fun _ _ _ _ _ _ => trivial) (fun _ _ _ => admits.insertEdge _ _ _ _ _ _ _ _ _)
    fun proper edges _ => admits.insertDocument proper fun var t c' found => edges var t found c'

theorem objectEdges (var : String) (t : TypeDef) (replacing : Option Ref) (data : InputObject) (c : Context)
    (proper : m.ThroughoutFields W t data)
    (drops : ∀ id, replacing = some id → ∀ name value f c', (name, value) ∈ data →
      m.edgeField? t name value = some f → Changes S (Model.dropEdges t.name f id) c') :
    Changes S (m.objectEdges var t replacing data) c :=
  admits.walks.objectEdges var t replacing data (fun _ _ _ _ _ => trivial) proper
    (fun id same name value f mem edge c' => drops id same name value f c' mem edge) c

theorem create {type : String} {data : InputObject} {exports : Option Selection} {var? : Option String}
    (proper : ∀ t, m.objectType type = .ok t → m.Throughout W t data) :
    Changes S (m.create type data exports var?) c := by
  refine admits.insertDocument (fun t found => (proper t found).here) fun var t c' found => ?_
  refine admits.objectEdges var t none data c' (proper t found).fields fun id same => ?_
  cases same

end Admits

end DocGraph
