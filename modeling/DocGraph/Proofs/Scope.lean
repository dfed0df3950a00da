import DocGraph.Proofs.Store

/-! # Scoped statements

`Scoped params Γ s` says that a statement may stand where the variables of `Γ` are set, with what they
hold: it reads parameters that exist and variables that are set, takes fields only of what is a document
there, and what it inserts, merges or compares is a document. Under the guard of a variable that holds
a removed document or null, the variable holds a document.

A scoped script runs without stumbling over a name: `ScopedAll.not_scopeFault`. -/

namespace DocGraph

variable {params params' : Record Json} {Γ Γ' : List (String × Holding)} {write : NameSet}

/-! ### What a script mentions -/

namespace Ref

/-- The parameter that a reference starts from. -/
def param? : Ref → Option String
  | param name => some name
  | doc _ => none
  | exported _ => none
  | field base _ => base.param?

/-- The variable that a reference starts from. -/
def var? : Ref → Option String
  | param _ => none
  | doc name => some name
  | exported name => some name
  | field base _ => base.var?

end Ref

/-- The references of a check. -/
def Check.refs : Check → List Ref
  | missing id _ => [id]
  | edgeExists source _ => [source]
  | duplicateKey candidate _ _ => [candidate]
  | selfLoop source _ => [source]
  | duplicateTarget source _ => [source]
  | sharedTarget source _ _ => [source]
  | orphanTarget _ _ => []
  | missingInbound id _ _ => [id]

/-- The reference of a part of a message. -/
def MessagePart.ref? : MessagePart → Option Ref
  | text _ => none
  | value r => some r

/-- The references of a message. -/
def Message.refs (message : Message) : List Ref :=
  message.parts.filterMap MessagePart.ref?

/-- The references of the ends of an edge. -/
def endRefs : Option (Ref × Ref) → List Ref
  | none => []
  | some (source, target) => [source, target]

mutual

/-- The references of a statement, those under its guard included. -/
def Statement.refs : Statement → List Ref
  | .comment _ => []
  | .insert _ _ doc imports ends => doc :: imports.map Prod.snd ++ endRefs ends
  | .update _ _ id doc imports => id :: doc :: imports.map Prod.snd
  | .remove _ _ id => [id]
  | .removeEdges _ endpoint _ => [endpoint]
  | .bind _ value => [value]
  | .setResult _ value => [value]
  | .guarded condition body => condition :: refsOf body
  | .assert check message => check.refs ++ message.refs
  | .fail message => message.refs

/-- The references of several statements. -/
def refsOf : List Statement → List Ref
  | [] => []
  | s :: rest => s.refs ++ refsOf rest

end

/-- The variables that statements may set, under guards or not. -/
def bindersOf (ss : List Statement) : List String :=
  (bindings (partsOf ss)).map Prod.fst

theorem mem_refsOf {r : Ref} {ss : List Statement} : r ∈ refsOf ss ↔ ∃ s ∈ ss, r ∈ s.refs := by
  induction ss with
  | nil => simp [refsOf]
  | cons s ss ih => simp [refsOf, ih]

/-! ### The judgement -/

/-- A reference that has a value where the variables of `Γ` are set. -/
inductive Reads (params : Record Json) (Γ : List (String × Holding)) : Ref → Prop
  | param {name : String} {v : Json} (given : params.get? name = some v) : Reads params Γ (.param name)
  | doc {name : String} {h : Holding} (set : (name, h) ∈ Γ) : Reads params Γ (.doc name)
  | exported {name : String} {h : Holding} (set : (name, h) ∈ Γ) : Reads params Γ (.exported name)
  | field {name field : String} (document : (name, .document) ∈ Γ) :
      Reads params Γ (.field (.doc name) field)

/-- A statement that may stand where the variables of `Γ` are set. -/
inductive Scoped (params : Record Json) : List (String × Holding) → Statement → Prop
  | comment {Γ : List (String × Holding)} (text : String) : Scoped params Γ (.comment text)
  | insert {Γ : List (String × Holding)} {var collection p : String} {fields : Document}
      {imports : List (String × Ref)} {ends : Option (Ref × Ref)}
      (document : params.get? p = some (.obj fields))
      (imported : ∀ e ∈ imports, Reads params Γ e.2)
      (reads : ∀ r ∈ endRefs ends, Reads params Γ r) :
      Scoped params Γ (.insert var collection (.param p) imports ends)
  | update {Γ : List (String × Holding)} {var collection p : String} {fields : Document} {id : Ref}
      {imports : List (String × Ref)} (document : params.get? p = some (.obj fields))
      (imported : ∀ e ∈ imports, Reads params Γ e.2) (reads : Reads params Γ id) :
      Scoped params Γ (.update var collection id (.param p) imports)
  | remove {Γ : List (String × Holding)} {var collection : String} {id : Ref}
      (reads : Reads params Γ id) : Scoped params Γ (.remove var collection id)
  | removeEdges {Γ : List (String × Holding)} {collection : String} {endpoint : Ref}
      {which : EdgeMatch} (reads : Reads params Γ endpoint) :
      Scoped params Γ (.removeEdges collection endpoint which)
  | bind {Γ : List (String × Holding)} {name : String} {value : Ref} (reads : Reads params Γ value) :
      Scoped params Γ (.bind name value)
  | setResult {Γ : List (String × Holding)} {name : String} {value : Ref}
      (reads : Reads params Γ value) : Scoped params Γ (.setResult name value)
  | guarded {Γ : List (String × Holding)} {name : String} {body : List Statement}
      (removed : (name, .removed) ∈ Γ) (silent : ∀ s ∈ body, s.binding? = none)
      (inner : ∀ s ∈ body, Scoped params ((name, .document) :: Γ) s) :
      Scoped params Γ (.guarded (.doc name) body)
  | assert {Γ : List (String × Holding)} {check : Check} {message : Message}
      (reads : ∀ r ∈ check.refs ++ message.refs, Reads params Γ r)
      (candidate : ∀ r collection fields, check = .duplicateKey r collection fields →
        ∃ name, r = .doc name ∧ (name, .document) ∈ Γ) :
      Scoped params Γ (.assert check message)
  | fail {Γ : List (String × Holding)} {message : Message}
      (reads : ∀ r ∈ message.refs, Reads params Γ r) : Scoped params Γ (.fail message)

/-- Statements each of which may stand after those before it, and sets no variable again. -/
def ScopedAll (params : Record Json) : List (String × Holding) → List Statement → Prop
  | _, [] => True
  | Γ, s :: rest => Scoped params Γ s ∧
      (∀ b, s.binding? = some b → b.1 ∉ Γ.map Prod.fst) ∧
      ScopedAll params (Γ ++ s.binding?.toList) rest

theorem Reads.mono {r : Ref} (h : Reads params Γ r)
    (hp : ∀ {p v}, params.get? p = some v → params'.get? p = some v) (hΓ : ∀ b ∈ Γ, b ∈ Γ') :
    Reads params' Γ' r := by
  cases h with
  | param given => exact .param (hp given)
  | doc set => exact .doc (hΓ _ set)
  | exported set => exact .exported (hΓ _ set)
  | field document => exact .field (hΓ _ document)

theorem Scoped.mono {s : Statement} (h : Scoped params Γ s)
    (hp : ∀ {p v}, params.get? p = some v → params'.get? p = some v) (hΓ : ∀ b ∈ Γ, b ∈ Γ') :
    Scoped params' Γ' s := by
  induction h generalizing Γ' with
  | comment text => exact .comment text
  | insert document imported reads =>
      exact .insert (hp document) (fun e he => (imported e he).mono hp hΓ)
        fun r hr => (reads r hr).mono hp hΓ
  | update document imported reads =>
      exact .update (hp document) (fun e he => (imported e he).mono hp hΓ) (reads.mono hp hΓ)
  | remove reads => exact .remove (reads.mono hp hΓ)
  | removeEdges reads => exact .removeEdges (reads.mono hp hΓ)
  | bind reads => exact .bind (reads.mono hp hΓ)
  | setResult reads => exact .setResult (reads.mono hp hΓ)
  | guarded removed silent inner ih =>
      refine .guarded (hΓ _ removed) silent fun s hs => ih s hs fun b hb => ?_
      rcases List.mem_cons.mp hb with rfl | hb
      · exact List.mem_cons_self
      · exact List.mem_cons_of_mem _ (hΓ b hb)
  | assert reads candidate =>
      refine .assert (fun r hr => (reads r hr).mono hp hΓ) fun r collection fields h => ?_
      obtain ⟨name, hr, hd⟩ := candidate r collection fields h
      exact ⟨name, hr, hΓ _ hd⟩
  | fail reads => exact .fail fun r hr => (reads r hr).mono hp hΓ

theorem ScopedAll.mono {ss : List Statement} (h : ScopedAll params Γ ss)
    (hp : ∀ {p v}, params.get? p = some v → params'.get? p = some v) : ScopedAll params' Γ ss := by
  induction ss generalizing Γ with
  | nil => trivial
  | cons s ss ih => exact ⟨h.1.mono hp fun _ hb => hb, h.2.1, ih h.2.2⟩

/-- A script in two parts, of which the second finds the variables of the first. -/
theorem scopedAll_append {ss tt : List Statement} :
    ScopedAll params Γ (ss ++ tt) ↔
      ScopedAll params Γ ss ∧ ScopedAll params (Γ ++ bindings ss) tt := by
  induction ss generalizing Γ with
  | nil => simp [ScopedAll]
  | cons s ss ih =>
      have hb : Γ ++ bindings (s :: ss) = Γ ++ s.binding?.toList ++ bindings ss := by
        cases hs : s.binding? <;> simp [bindings, hs]
      rw [List.cons_append, ScopedAll, ScopedAll, ih, hb]
      grind

/-- Statements that set nothing are scoped one by one. -/
theorem scopedAll_of_silent {ss : List Statement} (silent : ∀ s ∈ ss, s.binding? = none)
    (h : ∀ s ∈ ss, Scoped params Γ s) : ScopedAll params Γ ss := by
  induction ss with
  | nil => trivial
  | cons s ss ih =>
      have hs := silent s List.mem_cons_self
      refine ⟨h s List.mem_cons_self, fun b hb => ?_, ?_⟩
      · rw [hs] at hb
        cases hb
      · rw [hs, Option.toList_none, List.append_nil]
        exact ih (fun t ht => silent t (List.mem_cons_of_mem s ht)) fun t ht =>
          h t (List.mem_cons_of_mem s ht)

/-! ### What the judgement says of names -/

theorem Reads.param_given {r : Ref} (h : Reads params Γ r) {p : String} (hr : r.param? = some p) :
    params.contains p = true := by
  cases h with
  | param given =>
      cases hr
      simp [Record.contains, given]
  | doc | exported | field => cases hr

theorem Reads.var_set {r : Ref} (h : Reads params Γ r) {v : String} (hr : r.var? = some v) :
    v ∈ Γ.map Prod.fst := by
  cases h with
  | param => cases hr
  | doc set | exported set | field set =>
      cases hr
      exact List.mem_map_of_mem set

/-- Every reference of a scoped statement has a value before the statement. -/
theorem Scoped.refs_named {s : Statement} (h : Scoped params Γ s) {r : Ref} (hr : r ∈ s.refs) :
    (∀ p, r.param? = some p → params.contains p = true) ∧
      ∀ v, r.var? = some v → v ∈ Γ.map Prod.fst := by
  have named : ∀ {r : Ref}, Reads params Γ r → (∀ p, r.param? = some p → params.contains p = true) ∧
      ∀ v, r.var? = some v → v ∈ Γ.map Prod.fst :=
    fun h => ⟨fun p => h.param_given, fun v => h.var_set⟩
  induction h with
  | comment => cases hr
  | insert document imported reads =>
      simp only [Statement.refs, List.cons_append, List.mem_cons, List.mem_append, List.mem_map] at hr
      rcases hr with rfl | ⟨e, he, rfl⟩ | hr
      · exact named (.param document)
      · exact named (imported e he)
      · exact named (reads r hr)
  | update document imported reads =>
      simp only [Statement.refs, List.mem_cons, List.mem_map] at hr
      rcases hr with rfl | rfl | ⟨e, he, rfl⟩
      · exact named reads
      · exact named (.param document)
      · exact named (imported e he)
  | remove reads | removeEdges reads | bind reads | setResult reads =>
      rw [List.mem_singleton.mp hr]
      exact named reads
  | @guarded Γ name body removed silent inner ih =>
      rcases List.mem_cons.mp hr with rfl | hr
      · exact named (.doc removed)
      · obtain ⟨s, hs, hr⟩ := mem_refsOf.mp hr
        obtain ⟨hp, hv⟩ := ih s hs hr fun h => ⟨fun p => h.param_given, fun v => h.var_set⟩
        refine ⟨hp, fun v h => ?_⟩
        rcases List.mem_cons.mp (hv v h) with rfl | hv
        · exact List.mem_map_of_mem removed
        · exact hv
  | assert reads => exact named (reads r hr)
  | fail reads => exact named (reads r hr)

/-- A scoped statement sets variables only outside of its guard. -/
theorem Scoped.bindings_parts {s : Statement} (h : Scoped params Γ s) :
    bindings s.parts = s.binding?.toList := by
  induction h with
  | @guarded Γ name body removed silent inner ih =>
      refine List.filterMap_eq_nil_iff.mpr fun b hb => ?_
      obtain ⟨s, hs, hb⟩ := mem_partsOf.mp hb
      have none := ih s hs
      rw [silent s hs] at none
      exact List.filterMap_eq_nil_iff.mp none b hb
  | comment | insert | update | remove | removeEdges | bind | setResult | assert | fail => rfl

theorem ScopedAll.bindings_partsOf {ss : List Statement} (h : ScopedAll params Γ ss) :
    bindings (partsOf ss) = bindings ss := by
  induction ss generalizing Γ with
  | nil => rfl
  | cons s ss ih =>
      obtain ⟨hs, _, hss⟩ := h
      rw [partsOf, bindings_append, hs.bindings_parts, ih hss]
      cases hb : s.binding? <;> simp [bindings, hb]

/-! ### Variables of a run -/

/-- What a variable may hold. -/
def Holding.Holds : Holding → Json → Prop
  | document, v => ∃ d, v = .obj d
  | removed, v => v = .null ∨ ∃ d, v = .obj d
  | value, _ => True

/-- All variables of `Γ` are set and hold what `Γ` says. -/
def Agrees (Γ : List (String × Holding)) (vars : Record Json) : Prop :=
  ∀ b ∈ Γ, ∃ v, vars.get? b.1 = some v ∧ b.2.Holds v

theorem Agrees.insert {vars : Record Json} (h : Agrees Γ vars) {b : String × Holding} {v : Json}
    (fresh : b.1 ∉ Γ.map Prod.fst) (holds : b.2.Holds v) :
    Agrees (Γ ++ [b]) (vars.insert b.1 v) := by
  intro a ha
  rw [Record.get?_insert]
  rcases List.mem_append.mp ha with ha | ha
  · have hne : a.1 ≠ b.1 := fun e => fresh (e ▸ List.mem_map_of_mem ha)
    rw [if_neg hne]
    exact h a ha
  · rw [List.mem_singleton.mp ha, if_pos rfl]
    exact ⟨v, rfl, holds⟩

theorem value_doc {name : String} {v : Json} {run : Run} (h : run.vars.get? name = some v) :
    (Ref.doc name).value (run.scope params) = .ok v := by
  simp [Ref.value, Scope.var, Run.scope, h]

theorem get?_of_value_doc {var : String} {v : Json} {run : Run}
    (h : (Ref.doc var).value (run.scope params) = .ok v) : run.vars.get? var = some v := by
  rcases held : run.vars.get? var with _ | w
  · simp [Ref.value, Scope.var, Run.scope, held] at h
  · rw [value_doc held] at h
    rw [Except.ok.inj h]

theorem document_of_value {r : Ref} {scope : Scope} {d : Document}
    (h : r.value scope = .ok (.obj d)) : r.document scope = .ok d := by
  unfold Ref.document
  rw [h]
  rfl

theorem Reads.exists_value {r : Ref} {run : Run} (h : Reads params Γ r) (ha : Agrees Γ run.vars) :
    ∃ v, r.value (run.scope params) = .ok v := by
  cases h with
  | @param name => exact ⟨_, rfl⟩
  | doc set | exported set =>
      obtain ⟨v, hv, _⟩ := ha _ set
      exact ⟨v, by simp [Ref.value, Scope.var, Run.scope, hv]⟩
  | @field name field document =>
      obtain ⟨v, hv, d, rfl⟩ := ha _ document
      refine ⟨(Record.get? d field).getD .null, ?_⟩
      simp [Ref.value, Scope.var, Run.scope, hv, bind, Except.bind, pure, Except.pure]

/-- A statement that succeeds has set its variable and no other. -/
theorem Performs.vars_eq {s : Statement} {run run' : Run} (p : Performs write params s run run')
    (h : Scoped params Γ s) :
    match s.binding? with
    | none => run'.vars = run.vars
    | some b => ∃ v, b.2.Holds v ∧ run'.vars = run.vars.insert b.1 v := by
  induction h generalizing run run' with
  | comment | setResult | removeEdges | assert =>
      cases p
      rfl
  | insert | update =>
      cases p
      exact ⟨_, ⟨_, rfl⟩, rfl⟩
  | remove =>
      cases p with
      | remove => exact ⟨_, Or.inr ⟨_, rfl⟩, rfl⟩
      | miss => exact ⟨_, Or.inl rfl, rfl⟩
  | bind =>
      cases p
      exact ⟨_, trivial, rfl⟩
  | fail => cases p
  | @guarded Γ name body removed silent inner ih =>
      cases p with
      | pass => rfl
      | enter value yes all =>
          show run'.vars = run.vars
          clear value
          induction body generalizing run with
          | nil =>
              cases all
              rfl
          | cons s body ihb =>
              cases all with
              | cons first others =>
                  have hs := ih s List.mem_cons_self first
                  rw [silent s List.mem_cons_self] at hs
                  refine (ihb (fun t ht => silent t (List.mem_cons_of_mem s ht))
                    (fun t ht => inner t (List.mem_cons_of_mem s ht))
                    (fun t ht => ih t (List.mem_cons_of_mem s ht)) others).trans hs

theorem Performs.agrees {s : Statement} {run run' : Run} (p : Performs write params s run run')
    (h : Scoped params Γ s) (fresh : ∀ b, s.binding? = some b → b.1 ∉ Γ.map Prod.fst)
    (ha : Agrees Γ run.vars) : Agrees (Γ ++ s.binding?.toList) run'.vars := by
  have hv := p.vars_eq h
  rcases hs : s.binding? with _ | b
  · rw [hs] at hv
    rw [Option.toList_none, List.append_nil, hv]
    exact ha
  · rw [hs] at hv
    obtain ⟨v, holds, hv⟩ := hv
    rw [Option.toList_some, hv]
    exact ha.insert (fresh b hs) holds

/-! ### Errors of a kind -/

/-- Fails, if at all, with an error of a kind. -/
def FailsOnly {α : Type} (E : Error → Prop) (x : Except Error α) : Prop :=
  ∀ e, x = .error e → E e

namespace FailsOnly

variable {α β : Type} {E : Error → Prop}

theorem ok (a : α) : FailsOnly E (.ok a : Except Error α) :=
  fun _ h => nomatch h

theorem of_ok {x : Except Error α} (h : ∃ a, x = .ok a) : FailsOnly E x := by
  obtain ⟨a, rfl⟩ := h
  exact ok a

theorem map {x : Except Error α} (h : FailsOnly E x) (f : α → β) : FailsOnly E (x.map f) := by
  intro e he
  cases x with
  | error e' =>
      cases he
      exact h _ rfl
  | ok a => cases he

theorem bind {x : Except Error α} {f : α → Except Error β} (hx : FailsOnly E x)
    (hf : ∀ a, x = .ok a → FailsOnly E (f a)) : FailsOnly E (x >>= f) := by
  intro e he
  cases x with
  | error e' =>
      cases he
      exact hx _ rfl
  | ok a => exact hf a rfl e he

theorem mapM {f : α → Except Error β} {l : List α} (h : ∀ a ∈ l, FailsOnly E (f a)) :
    FailsOnly E (l.mapM f) := by
  induction l with
  | nil => exact ok []
  | cons a l ih =>
      rw [List.mapM_cons]
      refine (h a List.mem_cons_self).bind fun b _ => ?_
      exact (ih fun x hx => h x (List.mem_cons_of_mem a hx)).bind fun bs _ => ok (b :: bs)

theorem keepM {test : α → Except Error Bool} {l : List α} (h : ∀ a, FailsOnly E (test a)) :
    FailsOnly E (keepM test l) := by
  induction l with
  | nil => exact ok []
  | cons a l ih => exact (h a).bind fun b _ => ih.bind fun bs _ => ok _

section store

variable {store : Store}

theorem collection {name : String}
    (unknown : store.collection? name = none → E (.storage (.unknownCollection name))) :
    FailsOnly E (store.collection name) := by
  intro e he
  unfold Store.collection at he
  split at he
  · cases he
  · rename_i absent
    cases he
    exact unknown absent

theorem edgesAt {names : List String} (field id : String) (unknown : ∀ C ∈ names,
    store.collection? C = none → E (.storage (.unknownCollection C))) :
    FailsOnly E (store.edgesAt names field id) :=
  ((mapM fun C hC => collection (unknown C hC)).map _).map _

/-- A check fails over a collection that is not there, or as its references do. -/
theorem violated {check : Check} {scope : Scope}
    (unknown : ∀ C ∈ check.collections, store.collection? C = none → E (.storage (.unknownCollection C)))
    (reads : ∀ r ∈ check.refs, FailsOnly E (r.value scope))
    (candidate : ∀ r collection fields, check = .duplicateKey r collection fields →
      FailsOnly E (r.document scope)) : FailsOnly E (check.violated store scope) := by
  have text : ∀ r ∈ check.refs, FailsOnly E (r.text? scope) := fun r hr => (reads r hr).map _
  cases check with
  | missing id collections =>
      refine (text id List.mem_cons_self).bind fun o _ => ?_
      cases o with
      | none => exact ok true
      | some id =>
          refine bind (mapM fun C hC => ?_) fun _ _ => ok _
          exact (collection (unknown C hC)).map _
  | duplicateKey r collection fields =>
      refine (candidate r collection fields rfl).bind fun _ _ => ?_
      exact (FailsOnly.collection (unknown collection List.mem_cons_self)).bind fun _ _ => ok _
  | edgeExists source collection | selfLoop source collection | duplicateTarget source collection =>
      refine (text source List.mem_cons_self).bind fun o _ => ?_
      cases o with
      | none => exact ok false
      | some id => exact (edgesAt _ _ unknown).bind fun _ _ => ok _
  | sharedTarget source outbound inbound =>
      refine (text source List.mem_cons_self).bind fun o _ => ?_
      cases o with
      | none => exact ok false
      | some id =>
          refine (edgesAt _ _ fun C hC => unknown C (List.mem_append_left _ hC)).bind fun _ _ => ?_
          refine (keepM fun e => ?_).bind fun _ _ => ok _
          exact (edgesAt _ _ fun C hC => unknown C (List.mem_append_right _ hC)).map _
  | orphanTarget targets inbound =>
      refine (mapM fun C hC => ?_).bind fun _ _ => ok _
      refine (collection (unknown C (List.mem_append_left _ hC))).bind fun c _ => keepM fun d => ?_
      unfold Store.isOrphan
      split
      · exact (edgesAt _ _ fun C hC => unknown C (List.mem_append_right _ hC)).map _
      · exact ok false
  | missingInbound id name inbound =>
      refine (text id List.mem_cons_self).bind fun o _ => ?_
      cases o with
      | none => exact ok false
      | some id =>
          refine (collection (unknown name List.mem_cons_self)).bind fun c _ => ?_
          split
          · exact (edgesAt _ _ fun C hC => unknown C (List.mem_cons_of_mem _ hC)).map _
          · exact ok false

end store

end FailsOnly

/-! ### Running scoped statements -/

theorem exists_fill {message : Message} {scope : Scope}
    (reads : ∀ r ∈ message.refs, ∃ v, r.value scope = .ok v) :
    ∃ text, message.fill scope = .ok text := by
  have parts : ∀ part ∈ message.parts, ∃ text, part.fill scope = .ok text := by
    intro part hp
    cases part with
    | text t => exact ⟨t, rfl⟩
    | value r =>
        obtain ⟨v, hv⟩ := reads r (List.mem_filterMap.mpr ⟨_, hp, rfl⟩)
        exact ⟨v.inMessage, by simp [MessagePart.fill, hv, Except.map]⟩
  obtain ⟨texts, ht⟩ := exists_mapM_ok parts
  exact ⟨String.join texts, by simp [Message.fill, ht, Except.map]⟩

/-- A thrown message ends the run with its own text. -/
theorem fail_not_scopeFault {message : Message} {run run' : Run} {e : Error}
    (reads : ∀ r ∈ message.refs, ∃ v, r.value (run.scope params) = .ok v)
    (h : outcome (Run.fail params message) run = (.error e, run')) : e.isScopeFault = false := by
  obtain ⟨text, ht⟩ := exists_fill reads
  rw [Run.outcome_fail, ht] at h
  cases h
  rfl

theorem exists_bodyOf {run : Run} {p : String} {fields : Document} {imports : List (String × Ref)}
    (document : params.get? p = some (.obj fields))
    (imported : ∀ e ∈ imports, Reads params Γ e.2) (ha : Agrees Γ run.vars) :
    ∃ d, Run.bodyOf (run.scope params) (.param p) imports = .ok d := by
  have hd : (Ref.param p).document (run.scope params) = .ok fields :=
    document_of_value (by simp [Ref.value, Run.scope, document])
  have values : ∀ e ∈ imports, ∃ b, ((e.2.value (run.scope params)).map fun v => (e.1, v)) = .ok b := by
    intro e he
    obtain ⟨v, hv⟩ := (imported e he).exists_value ha
    exact ⟨(e.1, v), by rw [hv]; rfl⟩
  obtain ⟨bs, hbs⟩ := exists_mapM_ok values
  exact ⟨Record.insertAll fields bs, by unfold Run.bodyOf; rw [hd, hbs]; rfl⟩

theorem exists_endsOf {run : Run} {ends : Option (Ref × Ref)} (d : Document)
    (reads : ∀ r ∈ endRefs ends, Reads params Γ r) (ha : Agrees Γ run.vars) :
    ∃ d', Run.endsOf (run.scope params) d ends = .ok d' := by
  rcases ends with _ | ⟨source, target⟩
  · exact ⟨d, rfl⟩
  · obtain ⟨a, hs⟩ := (reads source List.mem_cons_self).exists_value ha
    obtain ⟨b, ht⟩ := (reads target (List.mem_cons_of_mem _ List.mem_cons_self)).exists_value ha
    exact ⟨_, by simp only [Run.endsOf, hs, ht]; rfl⟩

/-- Statements that set nothing fail as one of them does. -/
theorem silent_not_scopeFault {body : List Statement} {run run' : Run} {e : Error}
    (silent : ∀ s ∈ body, s.binding? = none) (inner : ∀ s ∈ body, Scoped params Γ s)
    (each : ∀ s ∈ body, ∀ run run', Agrees Γ run.vars →
      outcome (Run.perform write params s) run = (.error e, run') → e.isScopeFault = false)
    (ha : Agrees Γ run.vars)
    (he : outcome (Run.performAll write params body) run = (.error e, run')) :
    e.isScopeFault = false := by
  induction body generalizing run with
  | nil =>
      rw [Run.performAll] at he
      cases he
  | cons s body ih =>
      rw [Run.performAll] at he
      rcases outcome_bind_error.mp he with he | ⟨_, run₁, ho, he⟩
      · exact each s List.mem_cons_self run run' ha he
      · have hv := (Run.performs_of_ok s ho).vars_eq (inner s List.mem_cons_self)
        rw [silent s List.mem_cons_self] at hv
        exact ih (fun t ht => silent t (List.mem_cons_of_mem s ht))
          (fun t ht => inner t (List.mem_cons_of_mem s ht))
          (fun t ht => each t (List.mem_cons_of_mem s ht)) (by rw [hv]; exact ha) he

/-- A scoped statement that fails does not stumble over a name. -/
theorem Scoped.not_scopeFault {s : Statement} (h : Scoped params Γ s) {run run' : Run} {e : Error}
    (ha : Agrees Γ run.vars) (he : outcome (Run.perform write params s) run = (.error e, run')) :
    e.isScopeFault = false := by
  induction h generalizing run run' with
  | comment =>
      rw [Run.perform] at he
      cases he
  | @insert Γ var collection p fields imports ends document imported reads =>
      obtain ⟨body, hb⟩ := exists_bodyOf document imported ha
      obtain ⟨d, hd⟩ := exists_endsOf body reads ha
      rw [Run.perform, outcome_bind_of_ok (Run.outcome_body_of_ok hb),
        outcome_bind_of_ok (Run.outcome_withEnds_of_ok hd), outcome_bind] at he
      rcases Run.outcome_insert write collection d run with ⟨c, _, _, _, ho⟩ | ⟨e', refusal, ho⟩
      · rw [ho] at he
        cases he
      · rw [ho] at he
        cases he
        exact refusal.scope
  | @update Γ var collection p fields id imports document imported reads =>
      obtain ⟨patch, hb⟩ := exists_bodyOf document imported ha
      obtain ⟨v, hv⟩ := reads.exists_value ha
      rw [Run.perform, outcome_bind_of_ok (Run.outcome_body_of_ok hb),
        outcome_bind_of_ok (Run.outcome_value_of_ok hv), outcome_bind] at he
      rcases Run.outcome_update write collection v patch run with
        ⟨c, key, old, _, _, _, _, ho⟩ | ⟨e', refusal, ho⟩
      · rw [ho] at he
        cases he
      · rw [ho] at he
        cases he
        exact refusal.scope
  | @remove Γ var collection id reads =>
      obtain ⟨v, hv⟩ := reads.exists_value ha
      rw [Run.perform, outcome_bind_of_ok (Run.outcome_value_of_ok hv), outcome_bind] at he
      rcases Run.outcome_remove write collection v run with
        ⟨c, key, old, _, _, _, _, ho⟩ | ⟨_, _, _, _, ho⟩ | ⟨e', refusal, ho⟩
      · rw [ho] at he
        cases he
      · rw [ho] at he
        cases he
      · rw [ho] at he
        cases he
        exact refusal.scope
  | @removeEdges Γ collection endpoint which reads =>
      obtain ⟨v, hv⟩ := reads.exists_value ha
      rw [Run.perform, outcome_bind_of_ok (Run.outcome_value_of_ok hv)] at he
      rcases Run.outcome_removeEdges write collection v which run with
        ⟨c, _, _, ho⟩ | ⟨e', refusal, ho⟩
      · rw [ho] at he
        cases he
      · rw [ho] at he
        cases he
        exact refusal.scope
  | bind reads | setResult reads =>
      obtain ⟨v, hv⟩ := reads.exists_value ha
      rw [Run.perform, outcome_bind_of_ok (Run.outcome_value_of_ok hv)] at he
      cases he
  | @guarded Γ name body removed silent inner ih =>
      obtain ⟨v, hv, holds⟩ := ha _ removed
      rw [Run.perform, outcome_bind_of_ok (Run.outcome_value_of_ok (value_doc hv))] at he
      by_cases hb : v.isTrue = true
      · -- Null does not count as true, so that under the guard there is a document.
        have hd : ∃ d, v = .obj d := by
          rcases holds with rfl | hd
          · cases hb
          · exact hd
        have hin : Agrees ((name, .document) :: Γ) run.vars := by
          intro b hb
          rcases List.mem_cons.mp hb with rfl | hb
          · exact ⟨v, hv, hd⟩
          · exact ha b hb
        rw [if_pos hb] at he
        exact silent_not_scopeFault silent inner (fun s hs _ _ => ih s hs) hin he
      · rw [if_neg hb] at he
        cases he
  | @assert Γ check message reads candidate =>
      have values : ∀ r ∈ check.refs ++ message.refs, ∃ v, r.value (run.scope params) = .ok v :=
        fun r hr => (reads r hr).exists_value ha
      rw [Run.perform, outcome_bind_of_ok (outcome_get run), outcome_bind,
        Run.outcome_ofExcept] at he
      have only : FailsOnly (fun e => e.isScopeFault = false)
          (check.violated run.store (run.scope params)) := by
        refine .violated (fun _ _ _ => rfl) (fun r hr => .of_ok (values r (List.mem_append_left _ hr))) ?_
        intro r collection fields hc
        obtain ⟨name, rfl, document⟩ := candidate r collection fields hc
        obtain ⟨v, hv, d, rfl⟩ := ha _ document
        exact .of_ok ⟨d, document_of_value (value_doc hv)⟩
      unfold Run.scope at only
      rcases hx : check.violated run.store ⟨params, run.vars⟩ with e' | b
      · rw [hx] at he
        cases he
        exact only e hx
      · rw [hx] at he
        cases b with
        | true => exact fail_not_scopeFault (fun r hr => values r (List.mem_append_right _ hr)) he
        | false => cases he
  | fail reads =>
      rw [Run.perform] at he
      exact fail_not_scopeFault (fun r hr => (reads r hr).exists_value ha) he

/-- A scoped script that fails does not stumble over a name. -/
theorem ScopedAll.not_scopeFault {ss : List Statement} {run run' : Run} {e : Error}
    (h : ScopedAll params Γ ss) (ha : Agrees Γ run.vars)
    (he : outcome (Run.performAll write params ss) run = (.error e, run')) :
    e.isScopeFault = false := by
  induction ss generalizing Γ run with
  | nil =>
      rw [Run.performAll] at he
      cases he
  | cons s ss ih =>
      obtain ⟨hs, fresh, hss⟩ := h
      rw [Run.performAll] at he
      rcases outcome_bind_error.mp he with he | ⟨_, run₁, ho, he⟩
      · exact hs.not_scopeFault ha he
      · exact ih hss ((Run.performs_of_ok s ho).agrees hs fresh ha) he

end DocGraph
