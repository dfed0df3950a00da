import DocGraph.Proofs.Endpoints

/-! # The graph that an update leaves

An update merges the stored fields that it gives into its document, and each edge field that it gives takes
the place of the edges that left the document through it. The new edges, and what is created behind them, are
those of `Leaves`, as for a creation; what goes is said by `remains`, and `Trades` puts the two together. The
fields are taken one after another, so what one field has created is there when the edges of the next are
dropped, and it must not count as one of them (`Model.Bypasses`). The main statement is `updated_graph`: what is
stored after an update is what was there before, without the edges of the given fields and with the document
merged, and the new graph. -/

namespace DocGraph

variable {m : Model} {c : Context} {i C : String} {Cs : List String}

open Synthesis

/-! ### Edges from an id -/

/-- The source of an edge is an id. -/
def Document.isFrom (d : Document) (i : String) : Bool :=
  d.text? Field.source == some i

theorem Document.isFrom_congr {d d' : Document}
    (same : Record.get? d Field.source = Record.get? d' Field.source) : d.isFrom i = d'.isFrom i := by
  unfold isFrom text?
  rw [same]

theorem touches_outbound (i : String) (d : Document) :
    Run.touches .outbound (.str i) d = d.isFrom i := by
  unfold Run.touches Document.isFrom Document.text?
  dsimp only
  rcases Record.get? d Field.source with _ | v
  · rfl
  · rw [Bool.eq_iff_iff]
    dsimp only [Option.bind]
    rw [Json.same_str]
    cases v <;> simp [Json.str?]

theorem Entry.isFrom_document (e : Entry) : e.document.isFrom i = Document.isFrom e.fields i :=
  Document.isFrom_congr (e.get?_document (by decide))

theorem isFrom_stamped (m : Model) (type : String) (d : Document) :
    Document.isFrom (m.stamped type d) i = Document.isFrom d i := by
  refine Document.isFrom_congr ?_
  simp [Model.stamped, Record.get?_insert, Field.source, Field.created, Field.typeName]

theorem isFrom_edgeEntry (m : Model) (type field source target : String) (n : Nat) (d : Document) :
    (m.edgeEntry type field source target n d).document.isFrom i = (source == i) := by
  rw [Entry.isFrom_document]
  simp [Document.isFrom, Document.text?, Model.edgeEntry, Record.get?_insert, Field.source, Field.target,
    Json.str?]

/-! ### Documents in place of others -/

/-- A document of a collection is none of the edges from an id in some collections. -/
def remains (i : String) (Cs : List String) (C : String) (e : String × Document) : Bool :=
  !(Cs.contains C && e.2.isFrom i)

/-- Entries come in place of the edges from an id in some collections. -/
def Trades (i : String) (Cs : List String) (es : List Entry) (s s' : Store) : Prop :=
  ∀ C d, d ∈ s'.documents C ↔
    d ∈ (s.documents C).filter (remains i Cs C) ∨ ∃ e ∈ es, e.collection = C ∧ d = (e.key, e.document)

/-- No entry is an edge from an id in one of some collections. -/
def Clear (i : String) (Cs : List String) (es : List Entry) : Prop :=
  ∀ e ∈ es, e.collection ∈ Cs → e.document.isFrom i = false

theorem remains_append (i : String) (Cs Ds : List String) (C : String) (e : String × Document) :
    remains i (Cs ++ Ds) C e = (remains i Cs C e && remains i Ds C e) := by
  simp only [remains, List.contains_append]
  cases Cs.contains C <;> cases Ds.contains C <;> cases e.2.isFrom i <;> rfl

/-- Of two exchanges, the later one must leave what the first has brought. -/
theorem Trades.append {Ds : List String} {es es' : List Entry} {s₁ s₂ s₃ : Store} (h : Trades i Cs es s₁ s₂)
    (h' : Trades i Ds es' s₂ s₃) (clear : Clear i Ds es) : Trades i (Cs ++ Ds) (es ++ es') s₁ s₃ := by
  intro C d
  have stay : ∀ e ∈ es, e.collection = C → remains i Ds C (e.key, e.document) = true := by
    intro e he here
    unfold remains
    by_cases given : C ∈ Ds
    · simp [clear e he (here ▸ given)]
    · simp [given]
  rw [h' C d, List.mem_filter, h C d, List.mem_filter, List.mem_filter, remains_append, Bool.and_eq_true]
  constructor
  · rintro (⟨⟨old, kept⟩ | ⟨e, he, new⟩, kept'⟩ | ⟨e, he, new⟩)
    · exact .inl ⟨old, kept, kept'⟩
    · exact .inr ⟨e, List.mem_append_left _ he, new⟩
    · exact .inr ⟨e, List.mem_append_right _ he, new⟩
  · rintro (⟨old, kept, kept'⟩ | ⟨e, he, here, rfl⟩)
    · exact .inl ⟨.inl ⟨old, kept⟩, kept'⟩
    · rcases List.mem_append.mp he with he | he
      · exact .inl ⟨.inr ⟨e, he, here, rfl⟩, stay e he here⟩
      · exact .inr ⟨e, he, here, rfl⟩

theorem Adds.trades {es : List Entry} {run run' : Run} (h : Adds es run run') :
    Trades i [] es run.store run'.store := by
  intro C d
  rw [h C d, List.mem_filter]
  simp [remains]

theorem dropEdges_trades {type p : String} {f : FieldDef} :
    Effects (Model.dropEdges type f (.param p)) c fun _ params run run' =>
      params.get? p = some (.str i) → run'.lastKey = run.lastKey ∧ run'.vars = run.vars ∧
        Trades i [edgeCollection type f.name] [] run.store run'.store := by
  refine (dropEdges_effects (i := i)).mono fun _ params run run' effect given => ?_
  obtain ⟨lastKey, vars, documents⟩ := effect given
  refine ⟨lastKey, vars, fun C d => ?_⟩
  rw [documents C d, List.mem_filter, touches_outbound]
  simp [remains, imp_iff_not_or]

/-! ### Which entries are edges from an id -/

/-- The document of an object does not count as an edge from an id in one of some collections. -/
def Model.Bypasses (m : Model) (i : String) (Cs : List String) (u : TypeDef) (inner : InputObject) : Prop :=
  u.name ∈ Cs → ∀ d, m.storedFields u inner = .ok d → d.isFrom i = false

theorem Model.storedFields_of_schema {m' : Model} (same : m'.schema = m.schema) (u : TypeDef)
    (data : InputObject) : m'.storedFields u data = m.storedFields u data := by
  induction data with
  | nil => rfl
  | cons e rest ih => simp only [storedFields, same, ih]

/-- An id that has been given out is not given to a new document. -/
theorem IssuedIn.ne_id {k : Nat} {e : Entry} (h : IssuedIn k C i) (later : k < e.number) : e.id ≠ i := by
  rintro rfl
  obtain ⟨n, le, same⟩ := h
  have := (ofKey_toString_inj same).2
  omega

mutual

/-- Nothing that is created leaves an id from before. -/
theorem Creates.clear {type : String} {data : InputObject} {k k' : Nat} {es : List Entry} :
    Creates m type data k es k' → IssuedIn k C i →
    (∀ u, m.objectType type = .ok u → m.Throughout (m.Bypasses i Cs) u data) → Clear i Cs es
  | .object found stored edges, issued, proper => by
      intro e he here
      have inside := proper _ found
      rcases List.mem_cons.mp he with rfl | he
      · rw [Entry.isFrom_document, isFrom_stamped]
        refine inside.here ?_ _ stored
        rwa [Schema.name_of_typeDef (Model.typeDef_of_objectType found).1]
      · exact edges.clear (issued.ne_id (Nat.lt_succ_self k)) (issued.mono (Nat.le_succ k))
          inside.fields e he here

theorem Leaves.clear {source : String} {t : TypeDef} {data : InputObject} {k k' : Nat} {es : List Entry} :
    Leaves m source t data k es k' → source ≠ i → IssuedIn k C i →
    m.ThroughoutFields (m.Bypasses i Cs) t data → Clear i Cs es
  | .none, _, _, _ => by
      intro e he
      cases he
  | .stored _ more, other, issued, proper => more.clear other issued proper.tail
  | .field edge joined more, other, issued, proper => by
      intro e he here
      rcases List.mem_append.mp he with he | he
      · rw [← Bool.not_eq_true]
        intro isFrom
        have own := joined.clear issued (proper.head edge) e he here isFrom
        exact other own.1
      · exact more.clear other (issued.mono joined.numbered.le) proper.tail e he here

/-- An edge of a field that leaves an id from before is one of its source. -/
theorem Joins.clear {source type : String} {f : FieldDef} {items : List Input} {k k' : Nat}
    {es : List Entry} :
    Joins m source type f items k es k' → IssuedIn k C i →
    m.ThroughoutItems (m.Bypasses i Cs) f items → ∀ e ∈ es, e.collection ∈ Cs → e.document.isFrom i = true →
      source = i ∧ e.collection = edgeCollection type f.name
  | .none, _, _ => by
      intro e he
      cases he
  | .null more, issued, proper => more.clear issued proper.tail
  | .connect _ _ more, issued, proper => by
      intro e he here isFrom
      rcases List.mem_cons.mp he with rfl | he
      · rw [isFrom_edgeEntry] at isFrom
        exact ⟨beq_iff_eq.mp isFrom, rfl⟩
      · exact more.clear (issued.mono (Nat.le_succ _)) proper.tail e he here isFrom
  | .create unconnected chosen given created _ more, issued, proper => by
      intro e he here isFrom
      rcases List.mem_append.mp he with he | he
      · have none := created.clear issued (fun u found =>
          proper _ List.mem_cons_self _ _ u _ unconnected chosen given found) e he here
        cases none.symm.trans isFrom
      · rcases List.mem_cons.mp he with rfl | he
        · rw [isFrom_edgeEntry] at isFrom
          exact ⟨beq_iff_eq.mp isFrom, rfl⟩
        · have later := issued.mono (Nat.le_succ_of_le created.numbered.le)
          exact more.clear later proper.tail e he here isFrom

end

/-! ### One edge for each item -/

/-- An entry is the edge of an item of a field: it leads to the id that is connected, or to the new document
that is created for the item. -/
inductive Bears (m : Model) (source type : String) (f : FieldDef) (all : List Entry) : Input → Entry → Prop
  | connect {item : InputObject} {id : String} {n : Nat} {a : Document}
      (given : item.get? "connect" = some (.str id))
      (annotated : Input.literalFields (annotations item) = .ok a) :
      Bears m source type f all (.obj item) (m.edgeEntry type f.name source id n a)
  | create {item data : InputObject} {key target : String} {k k' n : Nat} {a : Document} {first : Entry}
      {es : List Entry} (unconnected : item.get? "connect" = none) (chosen : Chooses m f item key target)
      (given : item.get? key = some (.obj data)) (created : Creates m target data k (first :: es) k')
      (stored : ∀ e ∈ first :: es, e ∈ all) (annotated : Input.literalFields (annotations item) = .ok a) :
      Bears m source type f all (.obj item) (m.edgeEntry type f.name source first.id n a)

/-- The edges from an id in a collection. -/
def outbound (i C : String) (es : List Entry) : List Entry :=
  es.filter fun e => e.collection == C && e.document.isFrom i

theorem outbound_append (es es' : List Entry) :
    outbound i C (es ++ es') = outbound i C es ++ outbound i C es' :=
  List.filter_append _ _

theorem outbound_eq_nil {es : List Entry}
    (h : ∀ e ∈ es, e.collection = C → e.document.isFrom i = true → False) : outbound i C es = [] := by
  refine List.filter_eq_nil_iff.mpr fun e he is => ?_
  rw [Bool.and_eq_true, beq_iff_eq] at is
  exact h e he is.1 is.2

theorem outbound_edgeEntry (m : Model) (type field source target : String) (n : Nat) (d : Document)
    (es : List Entry) :
    outbound source (edgeCollection type field) (m.edgeEntry type field source target n d :: es) =
      m.edgeEntry type field source target n d :: outbound source (edgeCollection type field) es := by
  unfold outbound
  rw [List.filter_cons, isFrom_edgeEntry]
  simp [Model.edgeEntry]

/-- The edges that leave an id through a field are one for each item that is not null. -/
theorem Joins.bears {type : String} {f : FieldDef} {items : List Input} {k k' : Nat} {es all : List Entry} :
    Joins m i type f items k es k' → IssuedIn k C i →
    m.ThroughoutItems (m.Bypasses i Cs) f items → edgeCollection type f.name ∈ Cs → (∀ e ∈ es, e ∈ all) →
    List.Forall₂ (Bears m i type f all) (items.filter fun v => !v.isNull)
      (outbound i (edgeCollection type f.name) es)
  | .none, _, _, _, _ => .nil
  | .null more, issued, proper, mem, within => more.bears issued proper.tail mem within
  | .connect given annotated more, issued, proper, mem, within => by
      rw [outbound_edgeEntry]
      refine .cons (.connect given annotated) (more.bears (issued.mono (Nat.le_succ _)) proper.tail mem ?_)
      exact fun e he => within e (List.mem_cons_of_mem _ he)
  | .create unconnected chosen given created annotated more, issued, proper, mem, within => by
      -- What is created for the item has edges of its own, but from other sources.
      have none := created.clear issued fun u found =>
        proper _ List.mem_cons_self _ _ u _ unconnected chosen given found
      have nothing := outbound_eq_nil (C := edgeCollection type f.name) fun e he here isFrom => by
        cases (none e he (here ▸ mem)).symm.trans isFrom
      rw [outbound_append, nothing, List.nil_append, outbound_edgeEntry]
      have later := issued.mono (Nat.le_succ_of_le created.numbered.le)
      refine .cons (.create unconnected chosen given created ?_ annotated) (more.bears later proper.tail mem ?_)
      · exact fun e he => within e (List.mem_append_left _ he)
      · exact fun e he => within e (List.mem_append_right _ (List.mem_cons_of_mem _ he))

/-- Through other fields no edge leaves an id. -/
theorem Joins.outbound_eq_nil {type D : String} {f : FieldDef} {items : List Input} {k k' : Nat}
    {es : List Entry} (h : Joins m i type f items k es k') (issued : IssuedIn k C i)
    (proper : m.ThroughoutItems (m.Bypasses i Cs) f items) (mem : D ∈ Cs)
    (other : D ≠ edgeCollection type f.name) : outbound i D es = [] := by
  refine DocGraph.outbound_eq_nil fun e he here isFrom => other ?_
  obtain ⟨_, own⟩ := h.clear issued proper e he (here ▸ mem) isFrom
  exact here.symm.trans own

/-- The collections of the edge fields of an input object. -/
def Model.replaced (m : Model) (t : TypeDef) (data : InputObject) : List String :=
  data.filterMap fun e => (m.edgeField? t e.1 e.2).map fun f => edgeCollection t.name f.name

theorem Model.replaced_stored {t : TypeDef} {name : String} {value : Input} (rest : InputObject)
    (other : m.edgeField? t name value = none) : m.replaced t ((name, value) :: rest) = m.replaced t rest := by
  simp [replaced, other]

theorem Model.replaced_field {t : TypeDef} {name : String} {value : Input} {f : FieldDef} (rest : InputObject)
    (edge : m.edgeField? t name value = some f) :
    m.replaced t ((name, value) :: rest) = edgeCollection t.name f.name :: m.replaced t rest := by
  simp [replaced, edge]

theorem Model.mem_replaced {t : TypeDef} {data : InputObject} {name : String} {value : Input} {f : FieldDef}
    (field : (name, value) ∈ data) (edge : m.edgeField? t name value = some f) :
    edgeCollection t.name f.name ∈ m.replaced t data :=
  List.mem_filterMap.mpr ⟨(name, value), field, by rw [edge]; rfl⟩

/-- Through fields that are not given no edge leaves an id. -/
theorem Leaves.outbound_eq_nil {t : TypeDef} {data : InputObject} {k k' : Nat} {es : List Entry} {D : String} :
    Leaves m i t data k es k' → IssuedIn k C i →
    m.ThroughoutFields (m.Bypasses i Cs) t data → D ∈ Cs → D ∉ m.replaced t data → outbound i D es = []
  | .none, _, _, _, _ => rfl
  | .stored other more, issued, proper, mem, absent => by
      rw [Model.replaced_stored _ other] at absent
      exact more.outbound_eq_nil issued proper.tail mem absent
  | .field edge joined more, issued, proper, mem, absent => by
      rw [Model.replaced_field _ edge, List.mem_cons, not_or] at absent
      rw [outbound_append]
      refine List.append_eq_nil_iff.mpr ⟨?_, ?_⟩
      · exact joined.outbound_eq_nil issued (proper.head edge) mem absent.1
      · exact more.outbound_eq_nil (issued.mono joined.numbered.le) proper.tail mem absent.2

/-- The edges that leave an id are those of the items of the fields. -/
theorem Leaves.bears {t : TypeDef} {data : InputObject} {k k' : Nat} {es all : List Entry} {name : String}
    {value : Input} {f : FieldDef} :
    Leaves m i t data k es k' → IssuedIn k C i →
    m.ThroughoutFields (m.Bypasses i Cs) t data → (m.replaced t data).Nodup →
    (∀ D ∈ m.replaced t data, D ∈ Cs) → (∀ e ∈ es, e ∈ all) →
    (name, value) ∈ data → m.edgeField? t name value = some f →
    List.Forall₂ (Bears m i t.name f all) (value.items.filter fun v => !v.isNull)
      (outbound i (edgeCollection t.name f.name) es)
  | .none, _, _, _, _, _, given, _ => by cases given
  | .stored other more, issued, proper, once, mem, within, given, edge => by
      rw [Model.replaced_stored _ other] at once mem
      rcases List.mem_cons.mp given with same | given
      · cases same
        cases other.symm.trans edge
      · exact more.bears issued proper.tail once mem within given edge
  | .field edge' joined more, issued, proper, once, mem, within, given, edge => by
      have entries := proper.head edge'
      have later := issued.mono joined.numbered.le
      rw [Model.replaced_field _ edge'] at once mem
      obtain ⟨absent, once⟩ := List.nodup_cons.mp once
      rw [outbound_append]
      rcases List.mem_cons.mp given with same | given
      · cases same
        cases edge'.symm.trans edge
        have own := mem _ List.mem_cons_self
        rw [more.outbound_eq_nil later proper.tail own absent, List.append_nil]
        exact joined.bears issued entries own fun e he => within e (List.mem_append_left _ he)
      · have there := Model.mem_replaced given edge
        have other := ne_of_mem_of_not_mem there absent
        rw [joined.outbound_eq_nil issued entries (mem _ (List.mem_cons_of_mem _ there)) other, List.nil_append]
        refine more.bears later proper.tail once (fun D hD => mem D (List.mem_cons_of_mem _ hD)) ?_ given edge
        exact fun e he => within e (List.mem_append_right _ he)

/-! ### What the statements of an update do -/

/-- The statements for the fields of an update put new edges in place of old ones, field by field. -/
theorem objectEdges_trades (n : Nat) (t : TypeDef) (p : String) :
    ∀ (data : List (String × Input)) (c : Context), PlainFields data → n < c.nextVar →
    m.ThroughoutFields (m.Bypasses i Cs) t data → (∀ D ∈ m.replaced t data, D ∈ Cs) →
    (m.replaced t data).Nodup →
    Effects (m.objectEdges (varName n) t (some (.param p)) data) c fun _ params run run' =>
      params.get? p = some (.str i) → run.Names (varName n) i → IssuedIn run.lastKey C i →
        ∃ es, Leaves m i t data run.lastKey es run'.lastKey ∧
          Trades i (m.replaced t data) es run.store run'.store ∧ KeepsBelow c.nextVar [] run run'
  | [], c, _, _, _, _, _ => by
      rw [Model.objectEdges]
      exact .of_pure _ fun _ run _ _ _ => ⟨[], .none, (Adds.of_eq rfl).trades, .of_eq rfl⟩
  | (name, value) :: rest, c, plain, taken, proper, mem, once => by
      obtain ⟨plain_value, plain_rest⟩ := plain.cons
      rw [Model.objectEdges]
      rcases edge : m.edgeField? t name value with _ | f
      · rw [Model.replaced_stored _ edge] at mem once ⊢
        refine (objectEdges_trades n t p rest c plain_rest taken proper.tail mem once).mono ?_
        intro _ _ run run' later given names issued
        obtain ⟨es, left, more⟩ := later given names issued
        exact ⟨es, .stored edge left, more⟩
      · rw [Model.replaced_field _ edge] at mem once ⊢
        obtain ⟨absent, once⟩ := List.nodup_cons.mp once
        refine (dropEdges_trades (i := i)).bind fun _ c₁ g₁ => ?_
        have taken₁ := Nat.lt_of_lt_of_le taken g₁.vars
        refine (fieldEdges_effects ⟨varName n, t.name, f⟩ n false rfl value c₁ plain_value taken₁).bind
          fun _ c₂ g₂ => ?_
        refine (objectEdges_trades n t p rest c₂ plain_rest (Nat.lt_of_lt_of_le taken₁ g₂.vars) proper.tail
          (fun D hD => mem D (List.mem_cons_of_mem _ hD)) once).mono ?_
        intro _ params run₂ run' later run₁ first run dropped given names issued
        obtain ⟨lastKey, vars, dropped⟩ := dropped given
        have names₁ : run₁.Names (varName n) i := by
          unfold Run.Names
          rw [vars]
          exact names
        obtain ⟨es, joined, adds, keeps⟩ := first i names₁
        rw [← lastKey] at issued ⊢
        obtain ⟨es', left, trades, keeps'⟩ :=
          later given (names₁.keep keeps taken₁ List.not_mem_nil) (issued.mono joined.numbered.le)
        refine ⟨es ++ es', .field edge joined left, ?_, ?_⟩
        · -- What the field has brought is none of the edges that the fields after it replace.
          have clear : Clear i (m.replaced t rest) es := by
            intro e he here
            rw [← Bool.not_eq_true]
            intro isFrom
            have own := joined.clear issued (proper.head edge) e he (mem _ (List.mem_cons_of_mem _ here)) isFrom
            exact absent (own.2 ▸ here)
          exact dropped.append (adds.trades.append trades clear) fun e he => by cases he
        · have kept : KeepsBelow c.nextVar [] run run₁ := .of_eq vars
          exact (kept.trans keeps g₁.vars).trans keeps' (g₁.trans g₂).vars

/-- What the statements of an update do to a run: fields are merged into the document of an id, and new edges
come in place of old ones. -/
def Model.Revises (m : Model) (u : TypeDef) (data : InputObject) (i : String) (run run' : Run) : Prop :=
  ∃ d coll key old, m.storedFields u data = .ok d ∧ run.store.collection? u.name = some coll ∧
    Run.keyOf (.str i) = .ok key ∧ coll.get? key = some old ∧
    (Record.get? old Field.id = some (.str i) → ∃ es, Leaves m i u data run.lastKey es run'.lastKey ∧
      Trades i (m.replaced u data) es
        (run.store.set u.name (coll.put key (Run.merge old (m.revised u.name d)))) run'.store)

theorem update_effects {u : TypeDef} {data : InputObject} {exports : Option Selection}
    (found : m.objectType u.name = .ok u) (plain : PlainFields data)
    (proper : m.Throughout (m.Bypasses i (m.replaced u data)) u data) (once : (m.replaced u data).Nodup) :
    Effects (m.update u.name (.str i) data exports none) c fun _ _ run run' =>
      IssuedIn run.lastKey C i → m.Revises u data i run run' := by
  unfold Model.update
  refine Idle.ensureOpen.bind_effects fun _ c₁ _ => Effects.ofExcept_bind fun u' found' => ?_
  cases found.symm.trans found'
  refine (Idle.comment _).bind_effects fun _ c₂ _ => Effects.freshParam_bind fun p c₃ _ => ?_
  rw [plain.imports, pure_bind]
  refine Effects.ofExcept_bind fun d read => ?_
  rw [plain.literals] at read
  refine Effects.freshParam_bind fun q c₄ _ => Effects.freshVar_bind ?_
  refine (Idle.lockWrite _).bind_effects fun _ c₅ g₅ => Effects.push_bind ?_
  have taken : c₄.nextVar < (c₅.add [.update (varName c₄.nextVar) u.name (.param p) (.param q) []]).nextVar :=
    Nat.lt_of_lt_of_le (Nat.lt_succ_self _) g₅.vars
  refine (objectEdges_trades (C := C) _ u p data _ plain taken proper.fields (fun _ => id)
    once).bind fun _ c₆ _ => ?_
  refine (exportSelection_effects _ exports).bind fun _ c₇ _ => ?_
  refine (Idle.checkKey _ _).bind_effects fun _ c₈ _ => ?_
  refine (Idle.deferChecks _ _ _).bind_effects fun _ c₉ _ => Effects.of_pure _ ?_
  rintro params run' run₂ exported run₁ edges write run _ performed patch id issued
  have value : (Ref.param p).value (run.scope params) = .ok (.str i) := by
    simp [Ref.value, Run.scope, id]
  cases performed with
  | @update _ _ _ key _ _ _ coll _ old _ body value' _ there keyed here =>
      cases value.symm.trans value'
      cases (bodyOf_param_nil patch).symm.trans body
      refine ⟨d, coll, key, old, read, there, keyed, here, fun same => ?_⟩
      obtain ⟨es, left, trades, _⟩ := edges id
        ⟨_, (Record.get?_insert ..).trans (if_pos rfl), (get?_id_merge _ _).trans same⟩ issued
      rw [exported.store, exported.lastKey]
      exact ⟨es, left, trades⟩

/-! ### The main statement -/

/-- The fields of a type that are not stored have their edges in different collections. -/
def Model.PartsEdges (m : Model) (u : TypeDef) : Prop :=
  ∀ f ∈ u.fields, ∀ g ∈ u.fields, m.schema.isDocumentField f = .ok false →
    m.schema.isDocumentField g = .ok false →
    edgeCollection u.name f.name = edgeCollection u.name g.name → f.name = g.name

theorem Model.nodup_replaced {u : TypeDef} {data : InputObject} (apart : m.PartsEdges u)
    (once : (data.map Prod.fst).Nodup) : (m.replaced u data).Nodup := by
  induction data with
  | nil => exact .nil
  | cons e rest ih =>
      obtain ⟨name, value⟩ := e
      obtain ⟨new, once⟩ := List.nodup_cons.mp once
      rcases edge : m.edgeField? u name value with _ | f
      · rw [replaced_stored _ edge]
        exact ih once
      · rw [replaced_field _ edge]
        refine List.nodup_cons.mpr ⟨fun mem => new ?_, ih once⟩
        obtain ⟨⟨name', value'⟩, there, same⟩ := List.mem_filterMap.mp mem
        obtain ⟨g, edge', same⟩ := Option.map_eq_some_iff.mp same
        obtain ⟨declared, other⟩ := field?_of_edgeField edge
        obtain ⟨declared', other'⟩ := field?_of_edgeField edge'
        have names := apart f (List.mem_of_find?_eq_some declared) g (List.mem_of_find?_eq_some declared')
          other other' same.symm
        have name_f : f.name = name := by simpa using List.find?_some declared
        have name_g : g.name = name' := by simpa using List.find?_some declared'
        exact List.mem_map.mpr ⟨_, there, name_g.symm.trans (names.symm.trans name_f)⟩

/-- After a merge the key and the id are those of the old document, and else what the patch sets counts. -/
theorem get?_merge_eq {old patch : Document} (plain : (patch.map Prod.fst).Nodup) (g : String) :
    Record.get? (Run.merge old patch) g =
      if g = Field.id ∨ g = Field.key then Record.get? old g
      else (Record.get? patch g).or (Record.get? old g) := by
  by_cases reserved : g = Field.id ∨ g = Field.key
  · rw [if_pos reserved, get?_merge _ _ reserved]
  · rw [if_neg reserved]
    rcases given : Record.get? patch g with _ | v
    · refine get?_merge_of_not_mem fun mem => ?_
      obtain ⟨e, he, rfl⟩ := List.mem_map.mp mem
      have there := NameMap.isSome_get?_of_mem he
      rw [show NameMap.get? patch e.1 = none from given] at there
      cases there
    · exact get?_merge_of_nodup plain given (not_or.mp reserved)

/-- An update sets the type and the date besides the fields that are given. -/
theorem get?_merge_revised {old d : Document} (once : (d.map Prod.fst).Nodup) (type g : String) :
    Record.get? (Run.merge old (m.revised type d)) g =
      if g = Field.id ∨ g = Field.key then Record.get? old g
      else if g = Field.typeName then some (.str type)
      else if g = Field.updated then some (.int m.now)
      else (Record.get? d g).or (Record.get? old g) := by
  rw [Model.revised, get?_merge_eq (Record.nodup_insert (Record.nodup_insert once _ _) _ _), Record.get?_insert,
    Record.get?_insert]
  split_ifs <;> rfl

/-- The id of a stored document is read as its key. -/
theorem Database.Reachable.eq_of_keyOf {db : Database} {coll : Collection} {key key' : String}
    {d d' : Document} (h : db.Reachable) (there : db.store.collection? C = some coll)
    (mem : (key, d) ∈ db.store.documents C)
    (keyed : Run.keyOf (.str (DocumentId.ofKey C key).text) = .ok key') (found : coll.get? key' = some d') :
    key' = key ∧ d' = d := by
  have mem' : (key', d') ∈ db.store.documents C := by
    rw [Store.documents_eq there]
    exact NameMap.mem_of_get? found
  obtain ⟨n, _, number⟩ := h.issued C _ mem
  obtain ⟨n', _, number'⟩ := h.issued C _ mem'
  obtain ⟨id, parsed, rfl⟩ := exists_of_map_ok keyed
  have text := text_of_parse parsed
  dsimp only at number number'
  rw [number, number'] at text
  have same : id.key = key := by rw [number, number', (ofKey_toString_inj text).2]
  rw [same] at mem' ⊢
  exact ⟨rfl, Option.some.inj (((h.ordered C).get?_of_mem mem').symm.trans ((h.ordered C).get?_of_mem mem))⟩

/-- A document that is put under a key comes in the place of the one there. -/
theorem Store.documents_put {s : Store} {coll : Collection} {key : String} {old : Document}
    (ordered : s.Ordered) (there : s.collection? C = some coll) (found : coll.get? key = some old)
    (new : Document) (D : String) :
    (s.set C (coll.put key new)).documents D =
      (s.documents D).map fun e => if D = C ∧ e.1 = key then (key, new) else e := by
  rw [Store.documents_set]
  by_cases here : D = C
  · rw [if_pos here, here, Store.documents_eq there]
    simp only [true_and]
    exact (ordered.sorted there).insert_eq found new
  · simp [here]

/-- What an update of the document under a key leaves: the document as it is `new`, and the graph `es` of the
edge fields that are given. -/
structure Model.Updated (m : Model) (u : TypeDef) (data : InputObject) (i key : String)
    (old d new : Document) (es : List Entry) (db db' : Database) : Prop where
  fields : m.storedFields u data = .ok d
  merged : (key, new) ∈ db'.store.documents u.name
  read : ∀ g, Record.get? new g =
    if g = Field.id ∨ g = Field.key then Record.get? old g
    else if g = Field.typeName then some (.str u.name)
    else if g = Field.updated then some (.int m.now)
    else (Record.get? d g).or (Record.get? old g)
  graph : Leaves m i u data db.lastKey es db'.lastKey
  keys : es.map Entry.key = keysBetween db.lastKey db'.lastKey
  /-- What was there stays, without the edges through the given fields, and the graph comes to it. -/
  stored : ∀ C, (db'.store.documents C).Perm
    (((db.store.documents C).filter (remains i (m.replaced u data) C)).map
        (fun e => if C = u.name ∧ e.1 = key then (key, new) else e) ++
      (es.filter fun e => e.collection = C).map fun e => (e.key, e.document))
  /-- Through each given field there is one edge for each item that is not null, and no other. -/
  edges : ∀ name value f, (name, value) ∈ data → m.edgeField? u name value = some f →
    ∃ bs, List.Forall₂ (Bears m i u.name f es) (value.items.filter fun v => !v.isNull) bs ∧
      ((db'.store.documents (edgeCollection u.name f.name)).filter fun e => e.2.isFrom i).Perm
        (bs.map fun e => (e.key, e.document))

theorem name_not_mem_replaced {u : TypeDef} (data : InputObject) : u.name ∉ m.replaced u data := by
  intro mem
  obtain ⟨e, _, same⟩ := List.mem_filterMap.mp mem
  obtain ⟨f, _, same⟩ := Option.map_eq_some_iff.mp same
  exact edgeCollection_ne _ _ same

/-- What was there stays, without the edges that go, and the entries come to it. The document is none of these
edges, so it does not matter that it changes first. -/
theorem Trades.stored {key : String} {old new : Document} {T : String} {coll : Collection} {es : List Entry}
    {db db' : Database} (reachable : db.Reachable) (ordered : db'.store.Ordered)
    (there : db.store.collection? T = some coll) (found : coll.get? key = some old) (other : T ∉ Cs)
    (numbered : Numbered m db.lastKey es db'.lastKey)
    (trades : Trades i Cs es (db.store.set T (coll.put key new)) db'.store) (C : String) :
    (db'.store.documents C).Perm (((db.store.documents C).filter (remains i Cs C)).map
        (fun e => if C = T ∧ e.1 = key then (key, new) else e) ++
      (es.filter fun e => e.collection = C).map fun e => (e.key, e.document)) := by
  have put := Store.documents_put reachable.ordered there found new
  have sorted : (db.store.set T (coll.put key new)).Ordered :=
    reachable.ordered.set T ((reachable.ordered.sorted there).insert key new)
  have before : ((db.store.set T (coll.put key new)).documents C).filter (remains i Cs C) =
      ((db.store.documents C).filter (remains i Cs C)).map
        fun e => if C = T ∧ e.1 = key then (key, new) else e := by
    rw [put, List.filter_map]
    congr 1
    refine List.filter_congr fun e _ => ?_
    by_cases here : C = T
    · simp [remains, here, other]
    · simp [here]
  rw [← before]
  refine numbered.perm ((sorted C).filter _).nodup (ordered C).nodup (fun e he => ?_) (trades C)
  have he := List.mem_of_mem_filter he
  rw [put] at he
  obtain ⟨e', he', rfl⟩ := List.mem_map.mp he
  obtain ⟨n, le, number⟩ := reachable.issued C e' he'
  refine ⟨n, le, ?_⟩
  split
  · rename_i here
    exact here.2.symm.trans number
  · exact number

/-- Of what is stored then, only entries leave the id in a collection whose edges go. -/
theorem filter_isFrom_perm {s : List (String × Document)} {after : List (String × Document)}
    {es : List Entry} (mem : C ∈ Cs)
    (stored : after.Perm (s.filter (remains i Cs C) ++
      (es.filter fun e => e.collection = C).map fun e => (e.key, e.document))) :
    (after.filter fun e => e.2.isFrom i).Perm ((outbound i C es).map fun e => (e.key, e.document)) := by
  refine (stored.filter _).trans (.of_eq ?_)
  have gone : (s.filter (remains i Cs C)).filter (fun e => e.2.isFrom i) = [] := by
    rw [List.filter_filter, List.filter_eq_nil_iff]
    intro e _
    simp [remains, mem]
  rw [List.filter_append, gone, List.nil_append, List.filter_map, List.filter_filter]
  unfold outbound
  congr 1
  exact List.filter_congr fun e _ => Bool.and_comm _ _

/-- An update of a stored document, sent alone, does what its data say and no more. The stored fields are merged
into the document, under the date and the type that are set; through each edge field that is given there is one
new edge for each item and no other; the documents that items create are there with their edges; and all else
is as it was. No document that is created may count as an edge that is replaced. -/
theorem updated_graph (m : Model) (number : Nat) (remembers : Bool) (call : Call) (u : TypeDef)
    (key i : String) (old : Document) (data : InputObject) (t : Transaction) (db : Database) (res : Record Json)
    (root : call.isRoot = true) (mutation : call.mutation = .update u.name (.str i) data)
    (found : m.objectType u.name = .ok u) (apart : m.PartsEdges u) (plain : PlainFields data)
    (once : (data.map Prod.fst).Nodup) (proper : m.Throughout (m.Bypasses i (m.replaced u data)) u data)
    (submitted : submission? ((Request.start number remembers [call.name]).call m call).1 = some t)
    (reachable : db.Reachable) (there : (key, old) ∈ db.store.documents u.name)
    (named : i = (DocumentId.ofKey u.name key).text) (committed : (db.execute t).1 = .ok res) :
    ∃ d new es, Model.Updated { m with now := call.now } u data i key old d new es db (db.execute t).2 := by
  subst named
  obtain ⟨n, le, key_eq⟩ := reachable.issued u.name _ there
  have issued : IssuedIn db.lastKey u.name (DocumentId.ofKey u.name key).text := ⟨n, le, by rw [← key_eq]⟩
  have replaced := Model.nodup_replaced apart once
  have proper' : Model.Throughout { m with now := call.now } (Model.Bypasses { m with now := call.now }
      (DocumentId.ofKey u.name key).text (m.replaced u data)) u data := by
    intro v inner describes mem d read
    have same : m.storedFields v inner = Model.storedFields { m with now := call.now } v inner :=
      Model.storedFields_of_schema (by rfl) v inner
    exact proper v inner (describes.of_schema rfl) mem d (same.trans read)
  have effects : Effects (call.synthesis m) (Context.empty number remembers) fun _ _ run run' =>
      IssuedIn run.lastKey u.name (DocumentId.ofKey u.name key).text →
        Model.Revises { m with now := call.now } u data (DocumentId.ofKey u.name key).text run run' := by
    unfold Call.synthesis
    rw [mutation]
    exact update_effects found plain proper' replaced
  obtain ⟨var, run, v, effect, _, _, executed⟩ :=
    effects.of_committed root submitted reachable.issued committed
  obtain ⟨d, coll, key', old', read, collection, keyed, found', left⟩ := effect issued
  obtain ⟨rfl, rfl⟩ := reachable.eq_of_keyOf collection there keyed found'
  obtain ⟨es, left, trades⟩ := left (reachable.keyed u.name _ there)
  have ordered := (reachable.execute t).ordered
  rw [executed] at ordered ⊢
  have other := name_not_mem_replaced (m := m) (u := u) data
  have stored := Trades.stored reachable ordered collection found' other left.numbered trades
  refine ⟨d, _, es, read, ?_, ?_, left, left.numbered.keys, stored, fun name value f field edge => ?_⟩
  · refine (stored u.name).mem_iff.mpr (List.mem_append_left _ (List.mem_map.mpr ⟨_, List.mem_filter.mpr
      ⟨there, ?_⟩, if_pos ⟨rfl, rfl⟩⟩))
    simp [remains, other]
  · exact get?_merge_revised ((storedFields_names read).nodup once) u.name
  · have mem := Model.mem_replaced field edge
    have apart := ne_of_mem_of_not_mem mem other
    have whole := stored (edgeCollection u.name f.name)
    simp only [apart, false_and, if_false, List.map_id'] at whole
    refine ⟨_, left.bears issued proper'.fields replaced (fun _ => id) (fun _ => id) field
      edge, filter_isFrom_perm mem whole⟩

/-- If no object type is named like a collection of edges, no document counts as an edge. -/
theorem Model.Throughout.bypasses {u : TypeDef} {data : InputObject}
    (unlike : ∀ D ∈ m.replaced u data, ∀ v, m.objectType D ≠ .ok v) :
    m.Throughout (m.Bypasses i (m.replaced u data)) u data := by
  intro v inner describes mem
  rcases Relation.ReflTransGen.cases_tail describes with same | ⟨_, _, spawns⟩
  · cases same
    exact absurd mem (name_not_mem_replaced data)
  · cases spawns with
    | mk _ _ _ _ _ _ found =>
        have name := Schema.name_of_typeDef (Model.typeDef_of_objectType found).1
        exact absurd found (unlike _ (name ▸ mem) v)

/-- Keepers, as they are declared in the zoo. -/
def keeper : TypeDef :=
  ⟨"Keeper", .object, [⟨"name", .named "String", []⟩, ⟨"tends", .list (.named "Animal"), []⟩], [], [], []⟩

/-- A new database with the collections of a schema. -/
def Database.opened (schema : Schema) : Database :=
  match Database.empty.setup schema false with
  | .ok db => db
  | .error _ => .empty

theorem Database.reachable_opened (schema : Schema) : (Database.opened schema).Reachable := by
  unfold opened
  split
  · rename_i done
    exact .setup .empty done
  · exact .empty

/-- A database after a request with one root field. -/
def Database.sent (db : Database) (m : Model) (call : Call) : Database :=
  match submission? ((Request.start 1 true [call.name]).call m call).1 with
  | some t => (db.execute t).2
  | none => db

theorem Database.Reachable.sent {db : Database} (h : db.Reachable) (m : Model) (call : Call) :
    (db.sent m call).Reachable := by
  unfold Database.sent
  split
  · exact h.execute _
  · exact h

/-- The zoo once the keeper is hired. -/
def menagerie : Database :=
  cattery.sent zoo hiring

/-- The keeper keeps the dog only, and gets another one that chases the same cat. -/
def rota : InputObject :=
  [("name", .str "Bea"),
   ("tends", .list [
     .null,
     .obj [("createDog", .obj [("name", .str "Max"), ("chases", .obj [("connect", .str "Cat/5")])])],
     .obj [("connect", .str "Dog/4"), ("annotations", .obj [("daily", .bool false)])]])]

/-- A root field that gives the keeper other animals. -/
def reassigning : Call where
  now := 9
  isRoot := true
  selection := ⟨"reassigned", []⟩
  mutation := .update "Keeper" (.str "Keeper/2") rota

theorem partsEdges_keeper : zoo.PartsEdges keeper := by
  have stored : zoo.schema.isDocumentField ⟨"name", .named "String", []⟩ = .ok true := rfl
  intro f hf g hg other other' _
  simp only [keeper, List.mem_cons, List.not_mem_nil, or_false] at hf hg
  rcases hf with rfl | rfl
  · cases stored.symm.trans other
  · rcases hg with rfl | rfl
    · cases stored.symm.trans other'
    · rfl

theorem updated_graph_zoo :
    ∃ t old d new es,
      submission? ((Request.start 1 true ["reassigned"]).call zoo reassigning).1 = some t ∧
      (menagerie.execute t).1.toBool = true ∧ ("2", old) ∈ menagerie.store.documents "Keeper" ∧
      (menagerie.store.documents "TendsEdgeFromKeeper").length = 2 ∧
      Model.Updated { zoo with now := 9 } keeper rota "Keeper/2" "2" old d new es menagerie
        (menagerie.execute t).2 := by
  have ran : (submission? ((Request.start 1 true ["reassigned"]).call zoo reassigning).1).any
      (fun t => (menagerie.execute t).1.toBool) = true ∧
      (menagerie.store.documents "Keeper").any (fun e => e.1 == "2") = true ∧
      (menagerie.store.documents "TendsEdgeFromKeeper").length = 2 := by
    decide +kernel
  obtain ⟨ran, hired, tended⟩ := ran
  have collections : zoo.replaced keeper rota = ["TendsEdgeFromKeeper"] := by decide +kernel
  have unlike : ∀ D ∈ zoo.replaced keeper rota, ∀ v, zoo.objectType D ≠ .ok v := by
    rw [collections]
    intro D hD v found
    rw [List.mem_singleton.mp hD] at found
    have none : (zoo.objectType "TendsEdgeFromKeeper").toBool = false := by decide +kernel
    rw [found] at none
    cases none
  obtain ⟨t, submitted, ok⟩ := (Option.any_eq_true _ _).mp ran
  obtain ⟨res, committed⟩ := exists_of_toBool ok
  obtain ⟨⟨key, old⟩, there, same⟩ := List.any_eq_true.mp hired
  obtain rfl : key = "2" := beq_iff_eq.mp same
  obtain ⟨d, new, es, updated⟩ := updated_graph zoo 1 true reassigning keeper "2" "Keeper/2" old rota t
    menagerie res rfl rfl rfl partsEdges_keeper ⟨_, rfl⟩ (by decide) (.bypasses unlike) submitted
    (reachable_cattery.sent zoo hiring) there rfl committed
  exact ⟨t, old, d, new, es, submitted, ok, there, tended, updated⟩

/-- The members of a guild, who know each other. There is a type that is named like the collection of these
edges, a field that differs from that of the edges in its capital and holds what is no type of documents, and a
field for the date of the last update. -/
def fellow : TypeDef :=
  ⟨"Fellow", .object, [
    ⟨"knows", .list (.named "Fellow"), []⟩, ⟨"via", .list (.named "KnowsEdgeFromFellow"), []⟩,
    ⟨"Knows", .named "Terms", []⟩, ⟨"_lastUpdateDate", .named "Int", []⟩], [], [], []⟩

def guild : Model where
  schema := .ofTypes [fellow, ⟨"KnowsEdgeFromFellow", .object,
      [⟨"_from", .named "String", []⟩, ⟨"_to", .named "String", []⟩], [], [], []⟩,
    ⟨"Terms", .input, [⟨"since", .named "Int", []⟩], [], [], []⟩]
  settings := .default
  now := 0

/-- A root field that creates a fellow who knows another one. -/
def enrolling : Call where
  now := 5
  isRoot := true
  selection := ⟨"enrolled", []⟩
  mutation := .create "Fellow" [("knows", .obj [("create", .obj [])])]

/-- A root field that changes the first fellow. -/
def revising (data : InputObject) : Call where
  now := 9
  isRoot := true
  selection := ⟨"revised", []⟩
  mutation := .update "Fellow" (.str "Fellow/1") data

/-- The guild with two fellows. -/
def guildhall : Database :=
  (Database.opened guild.schema).sent guild enrolling

/-- A document with the ends of an edge. -/
def posingEdge : InputObject :=
  [("_from", .str "Fellow/1"), ("_to", .str "Fellow/1")]

/-- What the guild is after an update that is committed. -/
def revisedGuild? (data : InputObject) : Option Database :=
  (submission? ((Request.start 1 true ["revised"]).call guild (revising data)).1).bind fun t =>
    if (guildhall.execute t).1.toBool then some (guildhall.execute t).2 else none

/-- The collections of edges are different, and still more happens than the data say. A new document counts as
an edge of a field that is given as empty; a field that is no field of edges takes the edges of another one;
and the date of the update is not the one that is given. -/
theorem updated_beyond_data :
    guildhall.Reachable ∧ guild.objectType "Fellow" = .ok fellow ∧
    (guild.schema.edgeFields "Fellow").toOption.map (fun fs => fs.map fun f => edgeCollection "Fellow" f.name) =
      some ["KnowsEdgeFromFellow", "ViaEdgeFromFellow"] ∧
    (∃ e ∈ guildhall.store.documents "KnowsEdgeFromFellow", e.2.isFrom "Fellow/1" = true) ∧
    (∃ db, revisedGuild? [("knows", .list []), ("via", .obj [("create", .obj posingEdge)])] = some db ∧
      ∃ e ∈ db.store.documents "KnowsEdgeFromFellow", e.2.isFrom "Fellow/1" = true) ∧
    (∃ db, revisedGuild? [("Knows", .null)] = some db ∧ db.store.documents "KnowsEdgeFromFellow" = []) ∧
    ∃ db, revisedGuild? [("_lastUpdateDate", .num (.int 5))] = some db ∧
      ∃ e ∈ db.store.documents "Fellow", e.1 = "1" ∧
        (Record.get? e.2 "_lastUpdateDate").bind Json.nat? = some 9 := by
  have facts : (guildhall.store.documents "KnowsEdgeFromFellow").any (fun e => e.2.isFrom "Fellow/1") = true ∧
      (revisedGuild? [("knows", .list []), ("via", .obj [("create", .obj posingEdge)])]).any
        (fun db => (db.store.documents "KnowsEdgeFromFellow").any fun e => e.2.isFrom "Fellow/1") = true ∧
      (revisedGuild? [("Knows", .null)]).any (fun db =>
        (db.store.documents "KnowsEdgeFromFellow").isEmpty) = true ∧
      (revisedGuild? [("_lastUpdateDate", .num (.int 5))]).any (fun db =>
        (db.store.documents "Fellow").any fun e => e.1 == "1" &&
          (Record.get? e.2 "_lastUpdateDate").bind Json.nat? == some 9) = true := by
    decide +kernel
  obtain ⟨joined, posing, taken, dated⟩ := facts
  obtain ⟨db₁, committed₁, new⟩ := (Option.any_eq_true _ _).mp posing
  obtain ⟨db₂, committed₂, gone⟩ := (Option.any_eq_true _ _).mp taken
  obtain ⟨db₃, committed₃, stamped⟩ := (Option.any_eq_true _ _).mp dated
  obtain ⟨e, he, date⟩ := List.any_eq_true.mp stamped
  rw [Bool.and_eq_true, beq_iff_eq, beq_iff_eq] at date
  have reachable : guildhall.Reachable := (Database.reachable_opened guild.schema).sent guild enrolling
  exact ⟨reachable, rfl, by decide +kernel, List.any_eq_true.mp joined,
    ⟨db₁, committed₁, List.any_eq_true.mp new⟩, ⟨db₂, committed₂, List.isEmpty_iff.mp gone⟩,
    db₃, committed₃, e, he, date⟩

end DocGraph
