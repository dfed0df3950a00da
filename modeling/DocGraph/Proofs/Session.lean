import DocGraph.Proofs.Keys
import DocGraph.Proofs.Moves

/-! # Sessions keep keys unique

Every transaction that a session runs keeps keys unique, and keeps each document under the key in its
id. So this is so in every session that can be reached; `reachable_unique_keys` is what it comes to. -/

namespace DocGraph

variable {m : Model} {s : Session}

/-- No two documents of a type agree on its key, and every document is stored under the key in its
id. -/
structure Database.Orderly (schema : Schema) (db : Database) : Prop where
  distinct : db.store.Distinct schema
  keyed : db.store.Keyed

theorem Database.Orderly.of_vacant {schema : Schema} {db : Database} (h : db.store.Vacant) :
    db.Orderly schema where
  distinct type _ k _ a ha := by
    rw [h type] at ha
    cases ha
  keyed name e he := by
    rw [h name] at he
    cases he

theorem kept_orderly (m : Model) (D : Demands) : Kept m D (Database.Orderly m.schema) := by
  rintro db t ⟨c, _, _, _, _, course, rfl⟩ h
  refine ⟨course.distinct h.distinct, ?_⟩
  rcases execute_store db c.transaction with same | ⟨run, p, ran⟩
  · exact same ▸ h.keyed
  · exact ran ▸ p.keyed h.keyed

theorem Session.Reachable.sound {kind : EngineKind} (h : Session.Reachable m kind s) :
    s.engine.database.Orderly m.schema :=
  (h.reachableBy.sound (kept_orderly m .any) (fun mutation _ => mutation.meets_any)
    fun _ new => .of_vacant new.vacant).database

/-- Documents of a store are told apart by their ids. -/
theorem Store.Keyed.not_alike {st : Store} {type : String} {a b : String × Document} (h : st.Keyed)
    (ha : a ∈ st.documents type) (hb : b ∈ st.documents type)
    (ids : Document.id a.2 ≠ Document.id b.2) : (Document.id a.2).alike (Document.id b.2) = false := by
  rw [h.id_eq ha, h.id_eq hb] at ids ⊢
  refine Bool.eq_false_iff.mpr fun alike => ids ?_
  rw [Json.alike_str.mp alike]

/-- In every session that can be reached, whatever requests have been made in whatever order, no two
documents of a type with different ids agree on all fields of the key. -/
theorem reachable_unique_keys (m : Model) (kind : EngineKind) (s : Session)
    (reachable : Session.Reachable m kind s) (type : String) (k : TypeDef) (c : Collection)
    (a b : Document) (stored : type ∈ m.schema.documentCollections)
    (key : m.schema.keyType? type = some k)
    (there : s.engine.database.store.collection? type = some c) (ha : a ∈ c.rows) (hb : b ∈ c.rows)
    (ids : Document.id a ≠ Document.id b) :
    ∃ f ∈ k.fields, (Document.read a f.name).alike (Document.read b f.name) = false := by
  have sound := reachable.sound
  obtain ⟨x, hx, rfl⟩ := List.mem_map.mp ha
  obtain ⟨y, hy, rfl⟩ := List.mem_map.mp hb
  rw [← Store.documents_eq there] at hx hy
  have apart := sound.distinct type stored k key x hx y hy
  unfold Document.rivals at apart
  rw [sound.keyed.not_alike hx hy ids, Bool.not_false, Bool.true_and] at apart
  obtain ⟨name, hn, differ⟩ := List.all_eq_false.mp apart
  obtain ⟨f, hf, rfl⟩ := List.mem_map.mp hn
  exact ⟨f, hf, Bool.eq_false_iff.mpr differ⟩

/-- Persons with a name as their key. -/
def members : Model where
  schema := .ofTypes [
    ⟨"Person", .object, [⟨"name", .named "String", []⟩, ⟨"knows", .list (.named "Person"), []⟩],
      [], [], []⟩,
    ⟨"_KeyForPerson", .input, [⟨"name", .named "String", []⟩], [], [], []⟩]
  settings := .default
  now := 0

/-- A person is created, and with it another one that is checked first. -/
def introduction : Operation where
  isRoot := true
  selection := ⟨"ann", []⟩
  mutation := .create "Person"
    [("name", .str "Ann"), ("knows", .list [.obj [("create", .obj [("name", .str "Ben")])]])]
  slot := "ann"

theorem reachable_unique_keys_members :
    ∃ s k c a b, Session.Reachable members .plain s ∧ members.schema.keyType? "Person" = some k ∧
      s.engine.database.store.collection? "Person" = some c ∧ a ∈ c.rows ∧ b ∈ c.rows ∧
      Document.id a ≠ Document.id b ∧
      ∃ f ∈ k.fields, (Document.read a f.name).alike (Document.read b f.name) = false := by
  have ids : (match Session.start members .plain with
      | .ok s => ((s.run [introduction]).2.2.engine.database.store.collection? "Person").map
          fun c => c.rows.map fun d => (Document.id d).str?
      | .error _ => none) = some [some "Person/1", some "Person/2"] := by decide +kernel
  rcases hs : Session.start members .plain with e | s
  · rw [hs] at ids
    cases ids
  · rw [hs] at ids
    obtain ⟨c, there, rows⟩ := Option.map_eq_some_iff.mp ids
    obtain ⟨k, key⟩ : ∃ k, members.schema.keyType? "Person" = some k :=
      Option.isSome_iff_exists.mp (by decide +kernel)
    obtain ⟨a, rest, split, first, others⟩ := List.map_eq_cons_iff.mp rows
    obtain ⟨b, _, rfl, second, _⟩ := List.map_eq_cons_iff.mp others
    have ha : a ∈ c.rows := split ▸ List.mem_cons_self
    have hb : b ∈ c.rows := split ▸ List.mem_cons_of_mem a List.mem_cons_self
    have differ : Document.id a ≠ Document.id b := by
      intro same
      rw [same, second] at first
      exact absurd first (by decide)
    have reachable : Session.Reachable members .plain (s.run [introduction]).2.2 :=
      .move (.start hs) (.run [introduction])
    exact ⟨_, k, c, a, b, reachable, key, there, ha, hb, differ, reachable_unique_keys members .plain _
      reachable "Person" k c a b (by decide +kernel) key there ha hb differ⟩

end DocGraph
