import DocGraph.Mutation.Basic
import DocGraph.Proofs.Types

/-! # Parts of mutations

A mutation is put together from small parts that take names and parameters, lock collections, and add
statements. What is said of mutations often holds of each small part and passes on to what is put together, and
then it is enough to go through the definitions once. `Composes P` says that a property passes on. `Covers P L`
says that it moreover holds of the small parts that change nothing in a store, where a collection may have to
have the property `L` to be locked for reading. From these it is shown of the parts that mutations have in
common: exports, imports, ids, and all checks. -/

namespace DocGraph

variable {α β : Type} {m : Model} {L : String → Prop} {t : TypeDef}

open Synthesis

/-! ### Properties that pass on -/

/-- A property of parts of a mutation that passes on to what is put together from them. -/
structure Composes (P : ∀ {α : Type}, Synthesis α → Prop) : Prop where
  pure {α : Type} (a : α) : P (Pure.pure a : Synthesis α)
  throw {α : Type} (e : Error) : P (throw e : Synthesis α)
  bind {α β : Type} {x : Synthesis α} {f : α → Synthesis β} (first : P x) (later : ∀ a, P (f a)) : P (x >>= f)

/-- A directive on a field of a type looks at a collection. -/
def Schema.LooksAt (s : Schema) (t : TypeDef) (f : FieldDef) (d : Directive) (C : String) : Prop :=
  f ∈ t.fields ∧ (∃ ds, f.constraints = .ok ds ∧ d ∈ ds) ∧
    ∃ id check message, d.check? s t.name f id = .ok (some (check, message)) ∧ C ∈ check.collections

namespace Composes

variable {P : ∀ {α : Type}, Synthesis α → Prop} (h : Composes P)

include h

theorem ofExcept_bind {e : Except Error α} {f : α → Synthesis β} (later : ∀ a, e = .ok a → P (f a)) :
    P (Synthesis.ofExcept e >>= f) := by
  cases e with
  | error e => exact h.throw e
  | ok a => exact later a rfl

theorem ofExcept (e : Except Error α) : P (Synthesis.ofExcept e) := by
  cases e with
  | error e => exact h.throw e
  | ok a => exact h.pure a

/-- A part that is left out unless a condition holds, and what follows. -/
theorem ite_bind {p : Prop} [Decidable p] {x : Synthesis Unit} {f : Unit → Synthesis β} (first : p → P x)
    (later : P (f ())) : P (if p then x >>= f else f ()) := by
  split
  · exact h.bind (first ‹p›) fun _ => later
  · exact later

theorem forM {f : α → Synthesis PUnit} {l : List α} (each : ∀ a ∈ l, P (f a)) : P (l.forM f) := by
  induction l with
  | nil => exact h.pure _
  | cons a rest ih =>
      refine h.bind (each a List.mem_cons_self) fun _ => ?_
      exact ih fun b mem => each b (List.mem_cons_of_mem _ mem)

/-! ### Exports -/

mutual

theorem rejectItem (fails : ∀ text, P (fail text)) : ∀ item : SelectionItem, P (rejectItem item)
  | .field _ exportAs items => by
      rw [Synthesis.rejectItem]
      refine h.bind (rejectExports fails items) fun _ => ?_
      cases exportAs with
      | none => exact h.pure _
      | some name => exact fails _
  | .fragment _ _ => by
      rw [Synthesis.rejectItem]
      exact h.pure _

theorem rejectExports (fails : ∀ text, P (fail text)) : ∀ items : List SelectionItem, P (rejectExports items)
  | [] => by
      rw [Synthesis.rejectExports]
      exact h.pure _
  | item :: rest => by
      rw [Synthesis.rejectExports]
      exact h.bind (rejectItem fails item) fun _ => rejectExports fails rest

end

theorem exportItems {var : String} (fails : ∀ text, P (fail text))
    (field : ∀ name exportAs, P (exportField var name exportAs)) (items : List SelectionItem) :
    P (exportItems var items) := by
  induction items with
  | nil => exact h.pure _
  | cons item rest ih =>
      cases item with
      | field name exportAs below =>
          rw [Synthesis.exportItems]
          exact h.bind (h.rejectExports fails below) fun _ => h.bind (field name exportAs) fun _ => ih
      | fragment _ _ =>
          rw [Synthesis.exportItems]
          exact ih

theorem exportSelection {var : String} (fails : ∀ text, P (fail text))
    (field : ∀ name exportAs, P (exportField var name exportAs)) (exports : Option Selection) :
    P (exportSelection var exports) := by
  cases exports with
  | none => exact h.pure _
  | some selection => exact h.exportItems fails field selection.items

/-! ### Directives -/

theorem fieldAssertions {type : String} {id : Ref} {f : FieldDef} {ds : List Directive}
    (locks : ∀ C, L C → P (lockRead C))
    (looks : ∀ d ∈ ds, ∀ check message, d.check? m.schema type f id = .ok (some (check, message)) →
      ∀ C ∈ check.collections, L C) : P (m.fieldAssertions type id f ds) := by
  induction ds with
  | nil => exact h.pure _
  | cons d ds ih =>
      have others := ih fun d' mem => looks d' (List.mem_cons_of_mem _ mem)
      rw [Model.fieldAssertions]
      refine h.ofExcept_bind fun found known => ?_
      rcases found with _ | ⟨check, message⟩
      · exact others
      · have own := looks d List.mem_cons_self check message known
        refine h.bind ?_ fun a => h.bind others fun _ => h.pure _
        exact h.bind (h.forM fun C hC => locks C (own C hC)) fun _ => h.pure _

theorem typeAssertions {id : Ref} {fields : List FieldDef} (locks : ∀ C, L C → P (lockRead C))
    (known : ∀ f ∈ fields, f ∈ t.fields) (looks : ∀ f d C, m.schema.LooksAt t f d C → L C) :
    P (m.typeAssertions t.name id fields) := by
  induction fields with
  | nil => exact h.pure _
  | cons f fields ih =>
      rw [Model.typeAssertions]
      refine h.ofExcept_bind fun ds rules => h.bind (h.fieldAssertions locks ?_) fun own => ?_
      · intro d mem check message checked C hC
        exact looks f d C ⟨known f List.mem_cons_self, ⟨ds, rules, mem⟩, id, check, message, checked, hC⟩
      · exact h.bind (ih fun f mem => known f (List.mem_cons_of_mem _ mem)) fun _ => h.pure _

theorem deferChecks {type : String} (id : Ref) (guard? : Option Ref) (locks : ∀ C, L C → P (lockRead C))
    (defers : ∀ s, P (defer s))
    (looks : ∀ t, m.schema.typeDef type = .ok t → ∀ f d C, m.schema.LooksAt t f d C → L C) :
    P (m.deferChecks type id guard?) := by
  unfold Model.deferChecks
  split
  · exact h.pure _
  · refine h.ofExcept_bind fun _ _ => h.ofExcept_bind fun t found => ?_
    rw [← Schema.name_of_typeDef found]
    refine h.bind (h.typeAssertions locks (fun _ mem => mem) (looks t found)) fun assertions => ?_
    split
    · exact h.pure _
    · cases guard? with
      | none => exact h.forM fun s _ => defers s
      | some condition => exact defers _

end Composes

/-! ### Properties of all parts that leave stores alone -/

/-- A property that passes on and holds of the small parts that change nothing in a store. -/
structure Covers (P : ∀ {α : Type}, Synthesis α → Prop) (L : String → Prop) : Prop extends Composes P where
  get : P (MonadState.get : Synthesis Context)
  fail (text : String) : P (fail text)
  comment (text : String) : P (comment text)
  assert (check : Check) (message : Message) : P (push (.assert check message))
  defer (s : Statement) : P (defer s)
  freshVar : P freshVar
  freshParam (v : Json) : P (freshParam v)
  needsCheck (id : Ref) (type : String) : P (needsCheck id type)
  lockRead {C : String} (own : L C) : P (lockRead C)

namespace Covers

variable {P : ∀ {α : Type}, Synthesis α → Prop} (h : Covers P L)

include h

theorem ensureOpen : P ensureOpen := by
  refine h.bind h.get fun c => ?_
  split
  · exact h.throw _
  · exact h.pure _

theorem varOr (var? : Option String) : P (Model.varOr var?) := by
  cases var? with
  | none => exact h.freshVar
  | some name => exact h.pure name

theorem imports (data : InputObject) : P (imports data) := by
  induction data with
  | nil => exact h.pure _
  | cons e rest ih =>
      obtain ⟨field, value⟩ := e
      cases value with
      | null | bool | num | str | list | obj =>
          simp only [Synthesis.imports]
          exact ih
      | var name =>
          refine h.bind h.get fun c => ?_
          split
          · exact h.bind ih fun _ => h.pure _
          · exact h.bind (h.fail _) fun _ => ih

theorem resolveId (id : Input) : P (resolveId id) := by
  cases id with
  | str s => exact h.freshParam _
  | null | bool | num | list | obj => exact h.throw _
  | var x =>
      refine h.bind h.get fun c => ?_
      split
      · exact h.pure _
      · exact h.bind (h.fail _) fun _ => h.freshParam _

theorem exportSelection {var : String} (field : ∀ name exportAs, P (exportField var name exportAs))
    (exports : Option Selection) : P (exportSelection var exports) :=
  h.toComposes.exportSelection h.fail field exports

/-! ### Checks -/

theorem assertExists (id : Ref) {type : String} (label : String)
    (possible : ∀ names, m.schema.possibleCollections type = .ok names → ∀ C ∈ names, L C) :
    P (m.assertExists id type label) := by
  refine h.bind (h.needsCheck id type) fun needed => ?_
  split
  · refine h.ofExcept_bind fun names known => ?_
    refine h.bind (h.forM fun C hC => h.lockRead (possible names known C hC)) fun _ => ?_
    exact h.bind (h.comment label) fun _ => h.assert _ _
  · exact h.pure _

theorem checkEdge {type field : String} (source target : Ref) {targetType : String} {ends : EndChecks}
    (own : L (edgeCollection type field))
    (sources : ends.source = true →
      ∀ names, m.schema.possibleCollections type = .ok names → ∀ C ∈ names, L C)
    (targets : ends.target = true →
      ∀ names, m.schema.possibleCollections targetType = .ok names → ∀ C ∈ names, L C) :
    P (m.checkEdge type field source target targetType ends) := by
  unfold Model.checkEdge
  split
  · exact h.pure _
  · refine h.ite_bind (fun checked => h.assertExists source _ (sources checked)) ?_
    refine h.ite_bind (fun checked => h.assertExists target _ (targets checked)) ?_
    refine h.ofExcept_bind fun f _ => ?_
    split
    · exact h.bind (h.lockRead own) fun _ => h.assert _ _
    · exact h.pure _

theorem checkKey (var : String) {type : String} (own : L type) : P (m.checkKey var type) := by
  unfold Model.checkKey
  split
  · exact h.pure _
  · exact h.bind (h.lockRead own) fun _ => h.bind (h.comment _) fun _ => h.assert _ _

theorem deferChecks {type : String} (id : Ref) (guard? : Option Ref)
    (looks : ∀ t, m.schema.typeDef type = .ok t → ∀ f d C, m.schema.LooksAt t f d C → L C) :
    P (m.deferChecks type id guard?) :=
  h.toComposes.deferChecks id guard? (fun _ own => h.lockRead own) h.defer looks

/-- An edge, if writing it has the property. -/
theorem insertEdge {type field : String} {source target : Ref} {targetType : String} (given : InputObject)
    {exports : Option Selection} (var? : Option String) {ends : EndChecks}
    (locked : P (lockWrite (edgeCollection type field)))
    (inserted : ∀ var doc imported,
      P (push (.insert var (edgeCollection type field) doc imported (some (source, target)))))
    (exported : ∀ var, P (Synthesis.exportSelection var exports)) (own : L (edgeCollection type field))
    (sources : ends.source = true →
      ∀ names, m.schema.possibleCollections type = .ok names → ∀ C ∈ names, L C)
    (targets : ends.target = true →
      ∀ names, m.schema.possibleCollections targetType = .ok names → ∀ C ∈ names, L C)
    (looks : ∀ t, m.schema.typeDef type = .ok t → ∀ f d C, m.schema.LooksAt t f d C → L C) :
    P (m.insertEdge type field source target targetType given exports var? ends) := by
  unfold Model.insertEdge
  refine h.bind locked fun _ => h.bind (h.comment _) fun _ => h.bind (h.imports given) fun imported => ?_
  refine h.bind (h.varOr var?) fun var => h.ofExcept_bind fun _ _ => h.bind (h.freshParam _) fun doc => ?_
  refine h.bind (h.checkEdge source target own sources targets) fun _ => ?_
  refine h.bind (inserted var doc imported) fun _ => h.bind (exported var) fun _ => ?_
  exact h.bind (h.deferChecks _ _ looks) fun _ => h.pure _

end Covers

end DocGraph
