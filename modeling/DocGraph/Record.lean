/-! # Records and sorted names

A *record* keeps named values in the order in which their names first came. A *name map* keeps them
in the order of the names, and a *name set* keeps names alone in that order. All three are plain lists
whose names are pairwise different, so a record can stand inside a recursive type. -/

namespace DocGraph

/-- Named values in order of insertion. -/
abbrev Record (α : Type) := List (String × α)

namespace Record

variable {α : Type}

/-- The value under a name. -/
def get? (r : Record α) (name : String) : Option α :=
  r.lookup name

/-- Whether a name occurs. -/
def contains (r : Record α) (name : String) : Bool :=
  (r.get? name).isSome

/-- The names in order. -/
def names (r : Record α) : List String :=
  r.map Prod.fst

/-- Sets the value under a name: a known name keeps its place, a new one goes to the end. -/
def insert (r : Record α) (name : String) (value : α) : Record α :=
  match r with
  | [] => [(name, value)]
  | (n, v) :: rest =>
    if n == name then (name, value) :: rest else (n, v) :: insert rest name value

/-- Takes a name out; the entries after it move up. -/
def erase (r : Record α) (name : String) : Record α :=
  match r with
  | [] => []
  | (n, v) :: rest => if n == name then rest else (n, v) :: erase rest name

/-- Takes a name out; the last entry fills the hole. -/
def swapErase (r : Record α) (name : String) : Record α :=
  match r with
  | [] => []
  | (n, v) :: rest =>
    if n == name then
      match rest.getLast? with
      | none => []
      | some last => last :: rest.dropLast
    else (n, v) :: swapErase rest name

/-- The entries of `s` set one after another. -/
def insertAll (r : Record α) (s : List (String × α)) : Record α :=
  s.foldl (fun r e => r.insert e.1 e.2) r

/-- The record of a list of entries: a repeated name keeps its first place and its last value. -/
def ofList (entries : List (String × α)) : Record α :=
  insertAll [] entries

@[simp]
theorem get?_nil (name : String) : get? ([] : Record α) name = none := rfl

theorem get?_cons (e : String × α) (r : Record α) (name : String) :
    get? (e :: r) name = if name = e.1 then some e.2 else r.get? name := by
  obtain ⟨k, v⟩ := e
  by_cases h : name = k
  · simp [get?, h]
  · have : (name == k) = false := by simpa using h
    simp [get?, List.lookup_cons, this, h]

/-- A look-up after an insertion finds the new value under its name, and else what was there. -/
theorem get?_insert (r : Record α) (n : String) (v : α) (m : String) :
    (r.insert n v).get? m = if m = n then some v else r.get? m := by
  induction r with
  | nil => simp [insert, get?_cons]
  | cons e rest ih =>
    obtain ⟨k, w⟩ := e
    by_cases h : k = n
    · subst h
      by_cases hm : m = k <;> simp [insert, get?_cons, hm]
    · by_cases hm : m = k
      · simp [insert, get?_cons, h, hm]
      · simp [insert, get?_cons, h, hm, ih]

/-- A known name keeps its place and a new one goes to the end. -/
theorem names_insert (r : Record α) (n : String) (v : α) :
    (r.insert n v).names = if n ∈ r.names then r.names else r.names ++ [n] := by
  induction r with
  | nil => simp [insert, names]
  | cons e rest ih =>
    obtain ⟨k, w⟩ := e
    by_cases h : k = n
    · subst h
      simp [insert, names]
    · have h' : ¬ n = k := fun c => h c.symm
      simp only [names] at ih
      by_cases hm : n ∈ rest.map Prod.fst <;> simp_all [insert, names]

theorem get?_eq_none_iff (r : Record α) (name : String) : r.get? name = none ↔ name ∉ r.names := by
  induction r with
  | nil => simp [names]
  | cons e rest ih =>
    rw [get?_cons]
    split <;> simp_all [names]

theorem contains_iff (r : Record α) (name : String) : r.contains name = true ↔ name ∈ r.names := by
  rw [contains, Option.isSome_iff_ne_none, Ne, get?_eq_none_iff, Classical.not_not]

theorem insert_of_not_mem {r : Record α} {n : String} (h : n ∉ r.names) (v : α) :
    r.insert n v = r ++ [(n, v)] := by
  induction r with
  | nil => rfl
  | cons e rest ih =>
    obtain ⟨k, w⟩ := e
    obtain ⟨other, later⟩ := not_or.mp (mt List.mem_cons.mpr h)
    rw [insert, if_neg (by simpa using Ne.symm other), ih later]
    rfl

/-- Entries whose names are new and different keep their order. -/
theorem insertAll_of_nodup {r : Record α} {entries : List (String × α)}
    (h : (r.names ++ names entries).Nodup) : r.insertAll entries = r ++ entries := by
  induction entries generalizing r with
  | nil => simp [insertAll]
  | cons e rest ih =>
    have new : e.1 ∉ r.names := fun old =>
      (List.nodup_append.mp h).2.2 e.1 old e.1 (by simp [names]) rfl
    have grown : r.insert e.1 e.2 = r ++ [e] := insert_of_not_mem new e.2
    show insertAll (r.insert e.1 e.2) rest = r ++ e :: rest
    rw [grown, ih (by simpa [names] using h)]
    simp

theorem ofList_of_nodup {entries : List (String × α)} (h : (names entries).Nodup) :
    ofList entries = entries :=
  insertAll_of_nodup (by simpa [names] using h)

theorem nodup_insert {r : Record α} (h : (r.map Prod.fst).Nodup) (n : String) (v : α) :
    ((r.insert n v).map Prod.fst).Nodup := by
  have names := names_insert r n v
  unfold Record.names at names
  rw [names]
  split
  · exact h
  · rename_i new
    refine List.nodup_append.mpr ⟨h, by simp, ?_⟩
    rintro a ha b hb rfl
    rw [List.mem_singleton.mp hb] at ha
    exact new ha

theorem nodup_insertAll {d es : List (String × α)} (h : (d.map Prod.fst).Nodup) :
    ((insertAll d es).map Prod.fst).Nodup := by
  induction es generalizing d with
  | nil => exact h
  | cons e rest ih => exact ih (nodup_insert h e.1 e.2)

end Record

/-- Named values in order of their names. -/
abbrev NameMap (α : Type) := List (String × α)

namespace NameMap

variable {α : Type}

/-- The value under a name. -/
def get? (m : NameMap α) (name : String) : Option α :=
  m.lookup name

/-- Sets the value under a name, in its place by the order of names. -/
def insert (m : NameMap α) (name : String) (value : α) : NameMap α :=
  match m with
  | [] => [(name, value)]
  | (n, v) :: rest =>
    if name < n then (name, value) :: (n, v) :: rest
    else if n == name then (name, value) :: rest
    else (n, v) :: insert rest name value

/-- Takes a name out. -/
def erase (m : NameMap α) (name : String) : NameMap α :=
  m.filter fun e => e.1 != name

/-- The values in order of their names. -/
def values (m : NameMap α) : List α :=
  m.map Prod.snd

theorem get?_cons (e : String × α) (m : NameMap α) (name : String) :
    get? (e :: m) name = if name = e.1 then some e.2 else get? m name :=
  Record.get?_cons e m name

/-- A look-up after an insertion finds the new value under its name, and else what was there. -/
theorem get?_insert (m : NameMap α) (n : String) (v : α) (k : String) :
    get? (insert m n v) k = if k = n then some v else get? m k := by
  induction m with
  | nil => simp [insert, get?_cons]
  | cons e rest ih =>
    obtain ⟨j, w⟩ := e
    unfold insert
    split
    · simp [get?_cons]
    · split
      · rename_i h
        have : j = n := by simpa using h
        subst this
        by_cases hk : k = j <;> simp [get?_cons, hk]
      · rename_i h
        have hj : ¬ j = n := by simpa using h
        by_cases hk : k = j
        · simp [get?_cons, hk, hj]
        · simp [get?_cons, hk, ih]

/-- A look-up after taking a name out finds nothing under it, and else what was there. -/
theorem get?_erase (m : NameMap α) (n k : String) :
    get? (erase m n) k = if k = n then none else get? m k := by
  induction m with
  | nil => simp [erase, get?]
  | cons e rest ih =>
    simp only [erase] at ih
    by_cases h : e.1 = n
    · by_cases hk : k = n <;> simp_all [erase, get?_cons]
    · by_cases hk : k = e.1 <;> simp_all [erase, get?_cons]

end NameMap

/-- Names in order, each once. -/
abbrev NameSet := List String

namespace NameSet

/-- Adds a name in its place. -/
def insert (s : NameSet) (name : String) : NameSet :=
  match s with
  | [] => [name]
  | n :: rest =>
    if name < n then name :: n :: rest
    else if n == name then n :: rest
    else n :: insert rest name

/-- Takes a name out. -/
def erase (s : NameSet) (name : String) : NameSet :=
  s.filter fun n => n != name

/-- The names of a list, in order and each once. -/
def ofList (names : List String) : NameSet :=
  names.foldl insert []

theorem mem_insert {s : NameSet} {n m : String} : m ∈ insert s n ↔ m = n ∨ m ∈ s := by
  induction s with
  | nil => simp [insert]
  | cons a rest ih =>
    unfold insert
    split
    · simp
    · split
      · rename_i h
        have : a = n := by simpa using h
        subst this
        simp
      · simp only [List.mem_cons, ih]
        grind

theorem mem_erase {s : NameSet} {n m : String} : m ∈ erase s n ↔ m ∈ s ∧ m ≠ n := by
  simp [erase]

end NameSet

end DocGraph
