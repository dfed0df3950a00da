import DocGraph.Proofs.Store

/-! # Transactions as a whole

A transaction works on a copy of the store that takes the place of the store only at the end. So one that
fails leaves no trace in it, however far it came. One that succeeds has changed documents of collections
that it locked for writing and nothing else: every write asks for the lock first, at whatever depth of
guards it stands (`PerformsAll.frame`). -/

namespace DocGraph

variable {write : NameSet} {params : Record Json} {ss : List Statement} {run run' : Run}

/-! ### Frames -/

/-- `s'` differs from `s` at most in the documents of collections that are locked for writing. The
collections that are there and their kinds are the same. -/
structure Store.Frame (write : NameSet) (s s' : Store) : Prop where
  outside : ∀ C, C ∉ write → s'.collection? C = s.collection? C
  kinds : ∀ C, (s'.collection? C).map Collection.kind = (s.collection? C).map Collection.kind

namespace Store.Frame

variable {s s' : Store} {C : String} {c c' : Collection}

theorem refl (write : NameSet) (s : Store) : Frame write s s where
  outside _ _ := rfl
  kinds _ := rfl

/-- Replacing a locked collection by one of the same kind. -/
theorem set (h : Frame write s s') (locked : C ∈ write) (there : s'.collection? C = some c)
    (kind : c'.kind = c.kind) : Frame write s (s'.set C c') where
  outside D unlocked := by
    have other : D ≠ C := by
      rintro rfl
      exact unlocked locked
    rw [collection?_set, if_neg other]
    exact h.outside D unlocked
  kinds D := by
    rw [← h.kinds D, collection?_set]
    split
    · rename_i same
      rw [same, there, Option.map_some, Option.map_some, kind]
    · rfl

/-- A collection has the kind that it had before. -/
theorem kind_eq (h : Frame write s s') (after : s'.collection? C = some c') :
    ∃ c, s.collection? C = some c ∧ c'.kind = c.kind := by
  have same := h.kinds C
  rw [after, Option.map_some] at same
  obtain ⟨c, before, kind⟩ := Option.map_eq_some_iff.mp same.symm
  exact ⟨c, before, kind.symm⟩

end Store.Frame

/-- Statements that succeed stay within the collections locked for writing. -/
theorem PerformsAll.frame (p : PerformsAll write params ss run run') :
    Store.Frame write run.store run'.store := by
  refine p.invariant (I := fun r => Store.Frame write run.store r.store) ss
    (fun b hb r r' q hr => ?_) (.refl write run.store)
  cases q with
  | insert _ _ locked there => exact hr.set locked there rfl
  | update _ _ locked there => exact hr.set locked there rfl
  | remove _ locked there => exact hr.set locked there rfl
  | removeEdges _ locked there => exact hr.set locked there rfl
  | comment | bind | miss | setResult | assert => exact hr
  | pass | enter => exact absurd rfl (not_guarded_of_mem_partsOf ss hb _ _)

/-! ### Transactions -/

/-- A transaction that fails, at whatever statement, leaves the store as it was. One that succeeds
leaves every collection as it was that it has not locked for writing, and no collection comes, goes or
changes its kind. -/
theorem execute_atomic (db : Database) (t : Transaction) :
    (∀ e, (db.execute t).1 = .error e → (db.execute t).2.store = db.store) ∧
      ∀ result, (db.execute t).1 = .ok result →
        Store.Frame t.write db.store (db.execute t).2.store := by
  rw [execute_eq]
  rcases ho : outcome (Run.performAll t.write t.params t.statements) (Run.start db) with ⟨e | _, run⟩
  · refine ⟨fun _ _ => rfl, fun result h => ?_⟩
    cases h
  · refine ⟨fun e h => ?_, fun _ _ => ?_⟩
    · cases h
    · exact (Run.performsAll_of_ok t.statements ho).frame

/-- Accounts, and transfers between them. -/
def ledger : Database :=
  ((Database.empty.createCollection "Account" .document).2.createCollection "Transfer" .edge).2

/-- Opens an account, then runs further statements; only accounts are locked. -/
def opening (others : List Statement) : Transaction where
  write := ["Account"]
  read := []
  statements := .insert "account" "Account" (.param "body") [] none :: others
  params := [("body", .obj [("owner", .str "Ann")])]

/-- A transfer under a guard, which is refused for want of a lock. -/
def transfer : Statement :=
  .guarded (.doc "account") [.insert "transfer" "Transfer" (.param "body") []
    (some (.field (.doc "account") Field.id, .field (.doc "account") Field.id))]

theorem execute_atomic_ledger :
    (∃ e, (ledger.execute (opening [transfer])).1 = .error e) ∧
      (ledger.execute (opening [transfer])).2.lastKey = 1 ∧
      (ledger.execute (opening [transfer])).2.store = ledger.store ∧
      (∃ result, (ledger.execute (opening [])).1 = .ok result) ∧
      ((ledger.execute (opening [])).2.store.documents "Account").length = 1 ∧
      Store.Frame ["Account"] ledger.store (ledger.execute (opening [])).2.store := by
  have refused : (ledger.execute (opening [transfer])).1.toOption.isNone = true := by decide +kernel
  have done : (ledger.execute (opening [])).1.toOption.isSome = true := by decide +kernel
  rcases failed : (ledger.execute (opening [transfer])).1 with e | result
  · rcases ran : (ledger.execute (opening [])).1 with e' | result
    · rw [ran] at done
      cases done
    · exact ⟨⟨e, rfl⟩, by decide +kernel, (execute_atomic _ _).1 e failed, ⟨result, rfl⟩,
        by decide +kernel, (execute_atomic _ _).2 result ran⟩
  · rw [failed] at refused
    cases refused

end DocGraph
