import DocGraph.Error

/-! # Outcomes of steps that may fail

Transactions are made and run by steps of one kind: a step reads and changes a state and may fail, and
what it changed before failing stays. `outcome x s` is where the step `x` leads from the state `s`.
The lemmas here take a step apart: `outcome_bind_ok` and `outcome_bind_error` say how a sequence of
two steps succeeds and how it fails, and `outcome_forM_modify` is about a loop of changes. -/

namespace DocGraph

variable {σ α β : Type}

/-- Where a step leads from a state: its result, or its error, and the state afterwards. -/
def outcome (x : ExceptT Error (StateM σ) α) (s : σ) : Except Error α × σ :=
  x.run s

@[simp] theorem outcome_pure (a : α) (s : σ) :
    outcome (pure a : ExceptT Error (StateM σ) α) s = (.ok a, s) := rfl

@[simp] theorem outcome_throw (e : Error) (s : σ) :
    outcome (throw e : ExceptT Error (StateM σ) α) s = (.error e, s) := rfl

@[simp] theorem outcome_get (s : σ) :
    outcome (get : ExceptT Error (StateM σ) σ) s = (.ok s, s) := rfl

@[simp] theorem outcome_modify (f : σ → σ) (s : σ) :
    outcome (modify f : ExceptT Error (StateM σ) PUnit) s = (.ok ⟨⟩, f s) := rfl

theorem outcome_bind (x : ExceptT Error (StateM σ) α) (f : α → ExceptT Error (StateM σ) β)
    (s : σ) :
    outcome (x >>= f) s =
      match outcome x s with
      | (.ok a, t) => outcome (f a) t
      | (.error e, t) => (.error e, t) := by
  unfold outcome
  show (ExceptT.bindCont f (x.run s).1).run (x.run s).2 = _
  rcases x.run s with ⟨a | e, t⟩ <;> rfl

theorem outcome_bind_of_ok {x : ExceptT Error (StateM σ) α} {s t : σ} {a : α}
    (h : outcome x s = (.ok a, t)) (f : α → ExceptT Error (StateM σ) β) :
    outcome (x >>= f) s = outcome (f a) t := by
  rw [outcome_bind, h]

theorem outcome_bind_of_error {x : ExceptT Error (StateM σ) α} {s t : σ} {e : Error}
    (h : outcome x s = (.error e, t)) (f : α → ExceptT Error (StateM σ) β) :
    outcome (x >>= f) s = (.error e, t) := by
  rw [outcome_bind, h]

theorem outcome_map (f : α → β) (x : ExceptT Error (StateM σ) α) (s : σ) :
    outcome (f <$> x) s = ((outcome x s).1.map f, (outcome x s).2) := by
  rw [map_eq_pure_bind, outcome_bind]
  rcases outcome x s with ⟨e | a, t⟩ <;> rfl

/-- A sequence succeeds when both of its parts do. -/
theorem outcome_bind_ok {x : ExceptT Error (StateM σ) α} {f : α → ExceptT Error (StateM σ) β}
    {s u : σ} {b : β} :
    outcome (x >>= f) s = (.ok b, u) ↔
      ∃ a t, outcome x s = (.ok a, t) ∧ outcome (f a) t = (.ok b, u) := by
  rw [outcome_bind]
  rcases outcome x s with ⟨e | a, t⟩
  · simp
  · constructor
    · intro h
      exact ⟨a, t, rfl, h⟩
    · rintro ⟨a', t', h, h'⟩
      obtain ⟨h₁, rfl⟩ := Prod.mk.inj h
      obtain rfl := Except.ok.inj h₁
      exact h'

/-- A sequence fails in its first part, or in its second after the first has succeeded. -/
theorem outcome_bind_error {x : ExceptT Error (StateM σ) α}
    {f : α → ExceptT Error (StateM σ) β} {s u : σ} {e : Error} :
    outcome (x >>= f) s = (.error e, u) ↔
      outcome x s = (.error e, u) ∨
        ∃ a t, outcome x s = (.ok a, t) ∧ outcome (f a) t = (.error e, u) := by
  rw [outcome_bind]
  rcases outcome x s with ⟨e' | a, t⟩
  · simp
  · constructor
    · intro h
      exact Or.inr ⟨a, t, rfl, h⟩
    · rintro (h | ⟨a', t', h, h'⟩)
      · cases (Prod.mk.inj h).1
      · obtain ⟨h₁, rfl⟩ := Prod.mk.inj h
        obtain rfl := Except.ok.inj h₁
        exact h'

/-- A sequence whose first part only looks at the state succeeds when the look-up does. -/
theorem exists_of_bind_ok {x : ExceptT Error (StateM σ) α} {f : α → ExceptT Error (StateM σ) β}
    {s u : σ} {y : Except Error α} {b : β} (hx : outcome x s = (y, s))
    (h : outcome (x >>= f) s = (.ok b, u)) : ∃ a, y = .ok a ∧ outcome (f a) s = (.ok b, u) := by
  rw [outcome_bind, hx] at h
  cases y with
  | error e => cases h
  | ok a => exact ⟨a, rfl, h⟩

/-- A loop over a list of changes makes them one after another. -/
theorem outcome_forM_modify (f : α → σ → σ) (l : List α) (s : σ) :
    outcome (l.forM fun a => (modify (f a) : ExceptT Error (StateM σ) PUnit)) s =
      (.ok ⟨⟩, l.foldl (fun s a => f a s) s) := by
  induction l generalizing s with
  | nil => rfl
  | cons a l ih =>
      show outcome ((modify (f a) : ExceptT Error (StateM σ) PUnit) >>= fun _ =>
        l.forM fun a => modify (f a)) s = _
      rw [outcome_bind, outcome_modify]
      exact ih (f a s)

/-- A computation in two parts has a result when both parts do. -/
theorem exists_of_andThen_ok {x : Except Error α} {f : α → Except Error β} {b : β}
    (h : x >>= f = .ok b) : ∃ a, x = .ok a ∧ f a = .ok b := by
  cases x with
  | error e => cases h
  | ok a => exact ⟨a, rfl, h⟩

theorem exists_of_map_ok {x : Except Error α} {f : α → β} {b : β} (h : x.map f = .ok b) :
    ∃ a, x = .ok a ∧ f a = b := by
  cases x with
  | error e => cases h
  | ok a => exact ⟨a, rfl, Except.ok.inj h⟩

theorem exists_of_toBool {x : Except Error α} (h : x.toBool = true) : ∃ a, x = .ok a := by
  cases x with
  | error e => cases h
  | ok a => exact ⟨a, rfl⟩

/-- What a list of results holds comes from the elements of the list. -/
theorem exists_of_mem_mapM {f : α → Except Error β} {l : List α} {bs : List β}
    (h : l.mapM f = .ok bs) {b : β} (hb : b ∈ bs) : ∃ a ∈ l, f a = .ok b := by
  induction l generalizing bs with
  | nil =>
      cases h
      cases hb
  | cons a l ih =>
      rw [List.mapM_cons] at h
      rcases ha : f a with e | b'
      · rw [ha] at h
        cases h
      · rcases hl : l.mapM f with e | bs'
        · rw [ha, hl] at h
          cases h
        · rw [ha, hl] at h
          cases h
          rcases List.mem_cons.mp hb with rfl | hb
          · exact ⟨a, List.mem_cons_self, ha⟩
          · obtain ⟨x, hx, hfx⟩ := ih hl hb
            exact ⟨x, List.mem_cons_of_mem a hx, hfx⟩

/-- When a list of results is there, each of them is. -/
theorem exists_of_mapM_ok {f : α → Except Error β} {l : List α} {bs : List β}
    (h : l.mapM f = .ok bs) {a : α} (ha : a ∈ l) : ∃ b, f a = .ok b := by
  induction l generalizing bs with
  | nil => cases ha
  | cons x l ih =>
      rw [List.mapM_cons] at h
      rcases hx : f x with e | b
      · rw [hx] at h
        cases h
      · rcases hl : l.mapM f with e | bs'
        · rw [hx, hl] at h
          cases h
        · rcases List.mem_cons.mp ha with rfl | ha
          · exact ⟨b, hx⟩
          · exact ih hl ha

/-- The result of each element is in the list of results. -/
theorem mem_of_mapM_ok {f : α → Except Error β} {l : List α} {bs : List β} (h : l.mapM f = .ok bs)
    {a : α} {b : β} (ha : a ∈ l) (hb : f a = .ok b) : b ∈ bs := by
  induction l generalizing bs with
  | nil => cases ha
  | cons x l ih =>
      rw [List.mapM_cons] at h
      rcases hx : f x with e | y
      · rw [hx] at h
        cases h
      · rcases hl : l.mapM f with e | bs'
        · rw [hx, hl] at h
          cases h
        · rw [hx, hl] at h
          cases h
          rcases List.mem_cons.mp ha with rfl | ha
          · cases hb.symm.trans hx
            exact List.mem_cons_self
          · exact List.mem_cons_of_mem _ (ih hl ha)

/-- A list of results that are known one by one. -/
theorem mapM_eq_ok {f : α → Except Error β} {g : α → β} {l : List α} (h : ∀ a ∈ l, f a = .ok (g a)) :
    l.mapM f = .ok (l.map g) := by
  induction l with
  | nil => rfl
  | cons a l ih =>
      rw [List.mapM_cons, h a List.mem_cons_self, ih fun x hx => h x (List.mem_cons_of_mem a hx)]
      rfl

/-- A list of results is there when each of them is. -/
theorem exists_mapM_ok {f : α → Except Error β} {l : List α} (h : ∀ a ∈ l, ∃ b, f a = .ok b) :
    ∃ bs, l.mapM f = .ok bs := by
  induction l with
  | nil => exact ⟨[], rfl⟩
  | cons a l ih =>
      obtain ⟨b, hb⟩ := h a List.mem_cons_self
      obtain ⟨bs, hbs⟩ := ih fun x hx => h x (List.mem_cons_of_mem a hx)
      exact ⟨b :: bs, by rw [List.mapM_cons, hb, hbs]; rfl⟩

end DocGraph
