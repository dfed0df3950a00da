import DocGraph.Proofs.Existence

/-! # Keys that have been given out

Keys are numbers, given out one after another over all collections. So an id tells which collection and
which key it is made of, and a key is never given out again: a document that has been taken out does not
come back. The main statement is `PerformsAll.isSome_document?`: an id that had been given out before a
script, and that means a document after it, has meant one all along. A script that fails keeps the keys
that it has given out until then, and they too are the next ones in order: `givenAll_execute`. -/

namespace DocGraph

variable {write : NameSet} {params : Record Json} {ss : List Statement} {run run' : Run}

/-! ### Ids of keys -/

theorem slash_not_mem_toString (n : Nat) : '/' ∉ (toString n).toList := by
  intro h
  have h : '/' ∈ Nat.toDigits 10 n := Nat.toList_repr ▸ h
  have digit := Nat.isDigit_of_mem_toDigits (by decide) (by decide) h
  exact absurd digit (by decide)

theorem toString_inj {n n' : Nat} (h : toString n = toString n') : n = n' := by
  have same : "" ++ toString n = "" ++ toString n' := by rw [h]
  exact append_toString_injective same

/-- What stands behind the last occurrence of an element, and before it. -/
theorem append_cons_inj {α : Type} {x : α} {l l' a a' : List α} (ha : x ∉ a) (ha' : x ∉ a')
    (h : l ++ x :: a = l' ++ x :: a') : l = l' ∧ a = a' := by
  rcases List.append_eq_append_iff.mp h with ⟨m, rfl, rest⟩ | ⟨m, rfl, rest⟩
  · cases m with
    | nil => exact ⟨(List.append_nil l).symm, (List.cons.inj rest).2⟩
    | cons y m =>
        obtain ⟨_, rfl⟩ := List.cons.inj rest
        exact absurd (by simp) ha
  · cases m with
    | nil => exact ⟨List.append_nil l', (List.cons.inj rest).2.symm⟩
    | cons y m =>
        obtain ⟨_, rfl⟩ := List.cons.inj rest
        exact absurd (by simp) ha'

/-- An id tells the collection and the number of the key. -/
theorem ofKey_toString_inj {C C' : String} {n n' : Nat}
    (h : (DocumentId.ofKey C (toString n)).text = (DocumentId.ofKey C' (toString n')).text) :
    C = C' ∧ n = n' := by
  have chars : C.toList ++ '/' :: (toString n).toList = C'.toList ++ '/' :: (toString n').toList := by
    have := congrArg String.toList h
    simpa [DocumentId.ofKey, String.toList_append] using this
  obtain ⟨same, keys⟩ := append_cons_inj (slash_not_mem_toString n) (slash_not_mem_toString n') chars
  exact ⟨String.toList_inj.mp same, toString_inj (String.toList_inj.mp keys)⟩

/-- An id of a collection that has been given out. -/
def IssuedIn (lastKey : Nat) (collection i : String) : Prop :=
  ∃ n, n ≤ lastKey ∧ i = (DocumentId.ofKey collection (toString n)).text

theorem IssuedIn.mono {k k' : Nat} {C i : String} (h : IssuedIn k C i) (le : k ≤ k') : IssuedIn k' C i := by
  obtain ⟨n, hn, rfl⟩ := h
  exact ⟨n, Nat.le_trans hn le, rfl⟩

/-! ### Documents under keys that have been given out -/

/-- Every document is stored under a key that has been given out. -/
def Store.Issued (s : Store) (lastKey : Nat) : Prop :=
  ∀ C, ∀ e ∈ s.documents C, ∃ n, n ≤ lastKey ∧ e.1 = toString n

theorem PerformsAll.lastKey_le (p : PerformsAll write params ss run run') :
    run.lastKey ≤ run'.lastKey := by
  refine p.invariant (I := fun r => run.lastKey ≤ r.lastKey) ss (fun b hb r r' q hr => ?_)
    (Nat.le_refl _)
  cases q with
  | insert => exact Nat.le_succ_of_le hr
  | comment | update | remove | miss | removeEdges | bind | setResult | assert => exact hr
  | pass | enter => exact absurd rfl (not_guarded_of_mem_partsOf ss hb _ _)

theorem PerformsAll.issued (p : PerformsAll write params ss run run')
    (h : run.store.Issued run.lastKey) : run'.store.Issued run'.lastKey := by
  refine p.invariant (I := fun r => r.store.Issued r.lastKey) ss (fun b hb r r' q hr => ?_) h
  cases q with
  | insert _ _ _ there =>
      intro C e he
      rcases Store.eq_or_mem_of_mem_documents_put there he with ⟨rfl, rfl⟩ | he
      · exact ⟨r.lastKey + 1, Nat.le_refl _, rfl⟩
      · obtain ⟨n, hn, key⟩ := hr C e he
        exact ⟨n, Nat.le_succ_of_le hn, key⟩
  | update _ _ _ there _ found =>
      intro C e he
      rcases Store.eq_or_mem_of_mem_documents_put there he with ⟨rfl, rfl⟩ | he
      · have old := NameMap.mem_of_get? found
        rw [← Store.documents_eq there] at old
        obtain ⟨n, hn, key⟩ := hr _ _ old
        exact ⟨n, hn, key⟩
      · exact hr C e he
  | remove _ _ there | removeEdges _ _ there =>
      intro C e he
      exact hr C e (Store.mem_of_mem_documents_set there (fun e he => (List.mem_filter.mp he).1) he)
  | comment | bind | miss | setResult | assert => exact hr
  | pass | enter => exact absurd rfl (not_guarded_of_mem_partsOf ss hb _ _)

/-- A document under a key that had been given out has been there before. -/
theorem PerformsAll.stores_of_issued {C : String} {n : Nat} (p : PerformsAll write params ss run run')
    (given : n ≤ run.lastKey) (h : run'.store.Stores C (toString n)) :
    run.store.Stores C (toString n) := by
  -- The counter has passed the key, so no later insertion uses it.
  refine (p.invariant (I := fun r => run.lastKey ≤ r.lastKey ∧
    (r.store.Stores C (toString n) → run.store.Stores C (toString n))) ss (fun b hb r r' q hr => ?_)
    ⟨Nat.le_refl _, id⟩).2 h
  obtain ⟨le, hr⟩ := hr
  cases q with
  | insert _ _ _ there =>
      refine ⟨Nat.le_succ_of_le le, fun ⟨d, hd⟩ => hr ?_⟩
      rcases Store.eq_or_mem_of_mem_documents_put there hd with ⟨_, new⟩ | old
      · have key : n = r.lastKey + 1 := toString_inj (congrArg Prod.fst new)
        omega
      · exact ⟨d, old⟩
  | update _ _ _ there _ found =>
      refine ⟨le, fun ⟨d, hd⟩ => hr ?_⟩
      rcases Store.eq_or_mem_of_mem_documents_put there hd with ⟨rfl, new⟩ | old
      · cases new
        exact ⟨_, Store.documents_eq there ▸ NameMap.mem_of_get? found⟩
      · exact ⟨d, old⟩
  | remove _ _ there | removeEdges _ _ there =>
      refine ⟨le, fun ⟨d, hd⟩ => hr ⟨d, ?_⟩⟩
      exact Store.mem_of_mem_documents_set there (fun e he => (List.mem_filter.mp he).1) hd
  | comment | bind | miss | setResult | assert => exact ⟨le, hr⟩
  | pass | enter => exact absurd rfl (not_guarded_of_mem_partsOf ss hb _ _)

/-! ### Documents of ids -/

theorem eq_of_splitSlash {l a b : List Char} (h : splitSlash l = some (a, b)) : l = a ++ '/' :: b := by
  induction l generalizing a with
  | nil => cases h
  | cons x l ih =>
      unfold splitSlash at h
      split at h
      · rename_i slash
        cases h
        rw [slash]
        rfl
      · obtain ⟨⟨a', b'⟩, split, same⟩ := Option.map_eq_some_iff.mp h
        cases same
        rw [ih split]
        rfl

/-- An id that can be read is made of its collection and its key. -/
theorem text_of_parse {t : String} {d : DocumentId} (h : DocumentId.parse t = .ok d) :
    t = (DocumentId.ofKey d.collection d.key).text := by
  unfold DocumentId.parse at h
  split at h
  · rename_i x a y b split
    cases h
    apply String.toList_inj.mp
    simp only [DocumentId.ofKey, DocumentId.collection, DocumentId.key, split, String.toList_append,
      String.toList_ofList]
    rw [eq_of_splitSlash split]
    simp
  · cases h

theorem NameMap.isSome_get?_of_mem {α : Type} {m : NameMap α} {e : String × α} (h : e ∈ m) :
    (NameMap.get? m e.1).isSome = true := by
  induction m with
  | nil => cases h
  | cons a m ih =>
      rw [get?_cons]
      split
      · rfl
      · rename_i ne
        rcases List.mem_cons.mp h with rfl | h
        · exact absurd rfl ne
        · exact ih h

/-- An id means a document if it can be read and there is a document under its key. -/
theorem Store.isSome_document?_iff {s : Store} {i : String} :
    (s.document? i).isSome = true ↔ ∃ d, DocumentId.parse i = .ok d ∧ s.Stores d.collection d.key := by
  have found : ∀ C key, ((s.collection? C).bind fun c => c.get? key).isSome = true ↔
      s.Stores C key := by
    intro C key
    unfold Stores documents
    cases s.collection? C with
    | none => simp
    | some c =>
        refine ⟨fun h => ?_, fun ⟨d, hd⟩ => NameMap.isSome_get?_of_mem hd⟩
        obtain ⟨d, hd⟩ := Option.isSome_iff_exists.mp h
        exact ⟨d, NameMap.mem_of_get? hd⟩
  unfold document?
  split
  · rename_i d parsed
    rw [found]
    refine ⟨fun h => ⟨d, parsed, h⟩, fun ⟨d', same, h⟩ => ?_⟩
    cases parsed.symm.trans same
    exact h
  · rename_i e parsed
    constructor
    · intro h
      cases h
    · rintro ⟨d, same, _⟩
      cases parsed.symm.trans same

/-- An id that had been given out and means a document has meant one before. -/
theorem PerformsAll.isSome_document? {C i : String} (p : PerformsAll write params ss run run')
    (issued : run.store.Issued run.lastKey) (given : IssuedIn run.lastKey C i)
    (h : (run'.store.document? i).isSome = true) : (run.store.document? i).isSome = true := by
  obtain ⟨d, parsed, stored⟩ := Store.isSome_document?_iff.mp h
  obtain ⟨n, hn, rfl⟩ := given
  obtain ⟨k, key⟩ : ∃ k, d.key = toString k := by
    obtain ⟨_, he⟩ := stored
    obtain ⟨k, _, key⟩ := p.issued issued _ _ he
    exact ⟨k, key⟩
  have same := text_of_parse parsed
  rw [key] at same stored
  obtain ⟨rfl, rfl⟩ := ofKey_toString_inj same
  refine Store.isSome_document?_iff.mpr ⟨d, parsed, ?_⟩
  rw [key]
  exact p.stores_of_issued hn stored

/-! ### Keys given out by runs that may fail -/

/-- The keys of the numbers above one number up to another. -/
def keysBetween (a b : Nat) : List String :=
  (List.range' (a + 1) (b - a)).map toString

theorem keysBetween_self (a : Nat) : keysBetween a a = [] := by
  simp [keysBetween]

theorem keysBetween_append {a b c : Nat} (ab : a ≤ b) (bc : b ≤ c) :
    keysBetween a b ++ keysBetween b c = keysBetween a c := by
  have start : b + 1 = a + 1 + (b - a) := by omega
  have length : c - a = b - a + (c - b) := by omega
  unfold keysBetween
  rw [← List.map_append, start, List.range'_append_1, length]

/-- The key of the document in a variable. -/
def Run.keyIn? (run : Run) (var : String) : Option String :=
  match run.vars.get? var with
  | some (.obj d) => Document.text? d Field.key
  | _ => none

open Run in
mutual

/-- The keys that a statement gives out: an insertion that succeeds gives out the key of its document,
even if the script fails later on. -/
def Run.given (write : NameSet) (params : Record Json) : Statement → Run → List String
  | .insert var collection doc imports ends, run =>
    match outcome (perform write params (.insert var collection doc imports ends)) run with
    | (.ok _, after) => (after.keyIn? var).toList
    | (.error _, _) => []
  | .guarded condition body, run =>
    match condition.value (run.scope params) with
    | .ok v => if v.isTrue then givenAll write params body run else []
    | .error _ => []
  | _, _ => []

/-- The keys that statements give out one after another, up to the first one that fails. -/
def Run.givenAll (write : NameSet) (params : Record Json) : List Statement → Run → List String
  | [], _ => []
  | s :: rest, run =>
    given write params s run ++
      match outcome (perform write params s) run with
      | (.ok _, after) => givenAll write params rest after
      | (.error _, _) => []

end

/-- A step that leaves the counter of keys alone, whether it fails or not. -/
def Still {α : Type} (x : Step α) : Prop :=
  ∀ run, (outcome x run).2.lastKey = run.lastKey

namespace Still

theorem of_look {α : Type} {x : Step α} (look : ∀ run, (outcome x run).2 = run) : Still x := by
  intro run
  rw [look run]

theorem bind {α β : Type} {x : Step α} {f : α → Step β} (first : Still x) (second : ∀ a, Still (f a)) :
    Still (x >>= f) := by
  intro run
  have same := first run
  rw [outcome_bind]
  rcases ho : outcome x run with ⟨e | a, run₁⟩
  · rw [ho] at same
    exact same
  · rw [ho] at same
    exact (second a run₁).trans same

theorem pure {α : Type} (a : α) : Still (Pure.pure a : Step α) :=
  fun _ => rfl

theorem value (r : Ref) : Still (Run.value params r) :=
  of_look fun run => by rw [Run.outcome_value]

theorem body (doc : Ref) (imports : List (String × Ref)) : Still (Run.body params doc imports) :=
  of_look fun run => by rw [Run.outcome_body]

theorem fail (message : Message) : Still (Run.fail params message) :=
  of_look fun run => by rw [Run.outcome_fail]

theorem setVar (name : String) (v : Json) : Still (Run.setVar name v) :=
  fun _ => rfl

theorem update (collection : String) (id : Json) (patch : Document) :
    Still (Run.update write collection id patch) := by
  intro run
  rcases Run.outcome_update write collection id patch run with
    ⟨_, _, _, _, _, _, _, ho⟩ | ⟨_, _, ho⟩
  · rw [ho]
  · rw [ho]

theorem remove (collection : String) (id : Json) : Still (Run.remove write collection id) := by
  intro run
  rcases Run.outcome_remove write collection id run with
    ⟨_, _, _, _, _, _, _, ho⟩ | ⟨_, _, _, _, ho⟩ | ⟨_, _, ho⟩
  · rw [ho]
  · rw [ho]
  · rw [ho]

theorem removeEdges (collection : String) (v : Json) (which : EdgeMatch) :
    Still (Run.removeEdges write collection v which) := by
  intro run
  rcases Run.outcome_removeEdges write collection v which run with ⟨_, _, _, ho⟩ | ⟨_, _, ho⟩
  · rw [ho]
  · rw [ho]

end Still

/-- A step gives out some keys: those of the numbers by which it moves the counter, in order. -/
def GivesOut (keys : Run → List String) (x : Step Unit) : Prop :=
  ∀ run, run.lastKey ≤ (outcome x run).2.lastKey ∧
    keys run = keysBetween run.lastKey (outcome x run).2.lastKey

theorem Still.givesOut {x : Step Unit} (still : Still x) : GivesOut (fun _ => []) x := by
  intro run
  rw [still run, keysBetween_self]
  exact ⟨Nat.le_refl _, rfl⟩

/-- An insertion that fails has given out no key. -/
theorem lastKey_eq_of_insert_error {var collection : String} {doc : Ref}
    {imports : List (String × Ref)} {ends : Option (Ref × Ref)} {e : Error}
    (h : outcome (Run.perform write params (.insert var collection doc imports ends)) run =
      (.error e, run')) : run'.lastKey = run.lastKey := by
  rw [Run.perform, outcome_bind, Run.outcome_body] at h
  rcases hb : Run.bodyOf (run.scope params) doc imports with _ | d
  · rw [hb] at h
    cases h
    rfl
  · simp only [hb] at h
    rw [outcome_bind, Run.outcome_withEnds] at h
    rcases hd : Run.endsOf (run.scope params) d ends with _ | d
    · rw [hd] at h
      cases h
      rfl
    · simp only [hd] at h
      rw [outcome_bind] at h
      rcases Run.outcome_insert write collection d run with ⟨_, _, _, _, ho⟩ | ⟨_, _, ho⟩
      · rw [ho] at h
        cases h
      · rw [ho] at h
        cases h
        rfl

namespace GivesOut

theorem insert (var collection : String) (doc : Ref) (imports : List (String × Ref))
    (ends : Option (Ref × Ref)) :
    GivesOut (Run.given write params (.insert var collection doc imports ends))
      (Run.perform write params (.insert var collection doc imports ends)) := by
  intro run
  rw [Run.given]
  rcases ho : outcome (Run.perform write params (.insert var collection doc imports ends)) run with
    ⟨_ | _, after⟩
  · rw [lastKey_eq_of_insert_error ho, keysBetween_self]
    exact ⟨Nat.le_refl _, rfl⟩
  · cases Run.performs_of_ok _ ho with
    | insert =>
        refine ⟨Nat.le_succ _, ?_⟩
        simp [Run.keyIn?, keysBetween, Record.get?_insert, Document.text?, Run.keyed, Field.key,
          Field.id, Json.str?, Run.nextKey]

mutual

theorem perform : ∀ s : Statement, GivesOut (Run.given write params s) (Run.perform write params s)
  | .insert var collection doc imports ends => insert var collection doc imports ends
  | .guarded condition body => by
      intro run
      rw [Run.given, Run.perform, outcome_bind, Run.outcome_value]
      rcases condition.value (run.scope params) with _ | v
      · exact (Still.pure ()).givesOut run
      · dsimp only
        split
        · exact performAll body run
        · exact (Still.pure ()).givesOut run
  | .comment _ => by
      simp only [Run.given, Run.perform]
      exact (Still.pure ()).givesOut
  | .update var collection id doc imports => by
      simp only [Run.given, Run.perform]
      exact ((Still.body doc imports).bind fun d => (Still.value id).bind fun v =>
        (Still.update collection v d).bind fun d => Still.setVar var _).givesOut
  | .remove var collection id => by
      simp only [Run.given, Run.perform]
      exact ((Still.value id).bind fun v =>
        (Still.remove collection v).bind fun old => Still.setVar var old).givesOut
  | .removeEdges collection endpoint which => by
      simp only [Run.given, Run.perform]
      exact ((Still.value endpoint).bind fun v => Still.removeEdges collection v which).givesOut
  | .bind name r => by
      simp only [Run.given, Run.perform]
      exact ((Still.value r).bind fun v => Still.setVar name v).givesOut
  | .setResult name r => by
      simp only [Run.given, Run.perform]
      exact ((Still.value r).bind fun v _ => rfl).givesOut
  | .assert check message => by
      simp only [Run.given, Run.perform]
      refine Still.givesOut (.bind (.of_look fun _ => rfl) fun now =>
        .bind (.of_look fun run => ?_) fun b => ?_)
      · rw [Run.outcome_ofExcept]
      · split
        · exact Still.fail message
        · exact .pure ()
  | .fail message => by
      simp only [Run.given, Run.perform]
      exact (Still.fail message).givesOut

theorem performAll : ∀ ss : List Statement,
    GivesOut (Run.givenAll write params ss) (Run.performAll write params ss)
  | [] => by
      simp only [Run.givenAll, Run.performAll]
      exact (Still.pure ()).givesOut
  | s :: rest => by
      intro run
      obtain ⟨le, first⟩ := perform s run
      rw [Run.givenAll, Run.performAll, outcome_bind, first]
      rcases ho : outcome (Run.perform write params s) run with ⟨_ | _, after⟩
      · rw [ho] at le
        exact ⟨le, by simp⟩
      · rw [ho] at le
        obtain ⟨le', others⟩ := performAll rest after
        refine ⟨Nat.le_trans le le', ?_⟩
        dsimp only at le' ⊢
        rw [others, keysBetween_append le le']

end

end GivesOut

/-- A transaction gives out the keys of the numbers by which it moves the counter, whether it fails or
not. -/
theorem givenAll_execute (db : Database) (t : Transaction) :
    db.lastKey ≤ (db.execute t).2.lastKey ∧
      Run.givenAll t.write t.params t.statements (Run.start db) =
        keysBetween db.lastKey (db.execute t).2.lastKey := by
  have gives : GivesOut (Run.givenAll t.write t.params t.statements)
      (Run.performAll t.write t.params t.statements) := GivesOut.performAll t.statements
  have gives := gives (Run.start db)
  rw [execute_eq]
  rcases ho : outcome (Run.performAll t.write t.params t.statements) (Run.start db) with ⟨e | _, run⟩
  · rw [ho] at gives
    exact gives
  · rw [ho] at gives
    exact gives

/-- A transaction takes no key back, whether it fails or not. -/
theorem lastKey_le_execute (db : Database) (t : Transaction) :
    db.lastKey ≤ (db.execute t).2.lastKey :=
  (givenAll_execute db t).1

theorem Database.Reachable.issued {db : Database} (h : db.Reachable) :
    db.store.Issued db.lastKey := by
  induction h with
  | empty | dropAll => exact fun C e he => by cases he
  | @execute db _ t ih =>
      have le := lastKey_le_execute db t
      rw [execute_eq] at le ⊢
      rcases ho : outcome (Run.performAll t.write t.params t.statements) (Run.start db) with ⟨_ | _, run⟩
      · rw [ho] at le
        intro C e he
        obtain ⟨n, hn, key⟩ := ih C e he
        exact ⟨n, Nat.le_trans hn le, key⟩
      · exact (Run.performsAll_of_ok t.statements ho).issued ih
  | createCollection _ name kind ih =>
      exact fun C e he => ih C e (Store.documents_create _ name C kind ▸ he)
  | setup _ done ih =>
      rw [(documents_of_setup done).2]
      exact fun C e he => ih C e (mem_documents_of_setup done he)

end DocGraph
