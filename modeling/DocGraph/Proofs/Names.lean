import DocGraph.Mutation.Export
import DocGraph.Record

/-! # Names in order

Name sets are lists in strictly increasing order, and adding a name that is there changes nothing. An
insertion into a name map adds one entry and keeps those of other names; in a map in order, each name has
one entry. The second half is about the names that a script uses: numbered names are different for
different numbers, and no exported name is one of them. -/

namespace DocGraph

namespace NameSet

/-- The names are in strictly increasing order. -/
def Sorted (s : NameSet) : Prop := List.Pairwise (· < ·) s

theorem Sorted.erase {s : NameSet} (h : Sorted s) (n : String) : Sorted (NameSet.erase s n) :=
  List.Pairwise.filter _ h

theorem Sorted.insert {s : NameSet} (h : Sorted s) (n : String) : Sorted (NameSet.insert s n) := by
  induction s with
  | nil => simp [NameSet.insert, Sorted]
  | cons a s ih =>
      obtain ⟨ha, hs⟩ := List.pairwise_cons.mp h
      unfold NameSet.insert
      split
      · rename_i hn
        refine List.pairwise_cons.mpr ⟨?_, h⟩
        intro b hb
        rcases List.mem_cons.mp hb with rfl | hb
        · exact hn
        · exact String.lt_trans hn (ha b hb)
      · split
        · exact h
        · rename_i hlt hne
          refine List.pairwise_cons.mpr ⟨?_, ih hs⟩
          intro b hb
          rcases mem_insert.mp hb with rfl | hb
          · have : a ≠ b := by simpa using hne
            grind
          · exact ha b hb

theorem Sorted.nodup {s : NameSet} (h : Sorted s) : List.Nodup s := by
  refine List.Pairwise.imp ?_ h
  intro a b lt same
  exact String.lt_irrefl b (same ▸ lt)

/-- Adding a name that is there changes nothing. -/
theorem insert_of_mem {s : NameSet} (h : Sorted s) {n : String} (hn : n ∈ s) :
    NameSet.insert s n = s := by
  induction s with
  | nil => cases hn
  | cons a s ih =>
      obtain ⟨ha, hs⟩ := List.pairwise_cons.mp h
      unfold NameSet.insert
      rcases List.mem_cons.mp hn with rfl | hn
      · rw [if_neg (String.lt_irrefl n), if_pos (by simp)]
      · have hlt : a < n := ha n hn
        have hne : ¬ a = n := fun e => String.lt_irrefl n (e ▸ hlt)
        rw [if_neg (String.lt_asymm hlt), if_neg (by simpa using hne), ih hs hn]

end NameSet

namespace NameMap

variable {α : Type} {m : NameMap α} {n : String} {v : α} {e : String × α}

theorem mem_of_get? (h : get? m n = some v) : (n, v) ∈ m := by
  induction m with
  | nil => cases h
  | cons a m ih =>
      rw [get?_cons] at h
      split at h
      · rename_i hn
        cases h
        rw [hn]
        exact List.mem_cons_self
      · exact List.mem_cons_of_mem _ (ih h)

/-- An insertion adds one entry. -/
theorem eq_or_mem_of_mem_insert (h : e ∈ insert m n v) : e = (n, v) ∨ e ∈ m := by
  induction m with
  | nil => exact Or.inl (List.mem_singleton.mp h)
  | cons a m ih =>
      unfold insert at h
      split at h
      · exact List.mem_cons.mp h
      · split at h
        · rcases List.mem_cons.mp h with h | h
          · exact Or.inl h
          · exact Or.inr (List.mem_cons_of_mem _ h)
        · rcases List.mem_cons.mp h with h | h
          · exact Or.inr (List.mem_cons.mpr (Or.inl h))
          · exact (ih h).imp_right (List.mem_cons_of_mem _)

theorem mem_insert_self : (n, v) ∈ insert m n v := by
  induction m with
  | nil => exact List.mem_cons_self
  | cons a m ih =>
      unfold insert
      split
      · exact List.mem_cons_self
      · split
        · exact List.mem_cons_self
        · exact List.mem_cons_of_mem _ ih

/-- An insertion keeps the entries of other names. -/
theorem mem_insert_of_ne (h : e ∈ m) (hne : e.1 ≠ n) : e ∈ insert m n v := by
  induction m with
  | nil => cases h
  | cons a m ih =>
      unfold insert
      split
      · exact List.mem_cons_of_mem _ h
      · split
        · rename_i ha
          rcases List.mem_cons.mp h with rfl | h
          · exact absurd (by simpa using ha) hne
          · exact List.mem_cons_of_mem _ h
        · rcases List.mem_cons.mp h with rfl | h
          · exact List.mem_cons_self
          · exact List.mem_cons_of_mem _ (ih h)

/-- The names are in strictly increasing order. -/
def Sorted (m : NameMap α) : Prop := NameSet.Sorted (m.map Prod.fst)

theorem names_insert (m : NameMap α) (n : String) (v : α) :
    (insert m n v).map Prod.fst = NameSet.insert (m.map Prod.fst) n := by
  induction m with
  | nil => rfl
  | cons a m ih =>
      obtain ⟨k, w⟩ := a
      rw [List.map_cons]
      unfold insert NameSet.insert
      split
      · rfl
      · split
        · rename_i same
          rw [List.map_cons, beq_iff_eq.mp same]
        · rw [List.map_cons, ih]

theorem Sorted.insert (h : Sorted m) (n : String) (v : α) : Sorted (NameMap.insert m n v) := by
  unfold Sorted
  rw [names_insert]
  exact NameSet.Sorted.insert h n

theorem Sorted.filter (h : Sorted m) (test : String × α → Bool) : Sorted (m.filter test) :=
  List.Pairwise.sublist (List.filter_sublist.map Prod.fst) h

/-- The values of the entries of one name. -/
theorem Sorted.values_filter (h : Sorted m) (n : String) :
    values (m.filter fun e => e.1 == n) = (get? m n).toList := by
  induction m with
  | nil => rfl
  | cons a m ih =>
      obtain ⟨later, rest⟩ := List.pairwise_cons.mp h
      rw [get?_cons, List.filter_cons]
      by_cases same : a.1 = n
      · have none : (m.filter fun e => e.1 == n) = [] := by
          refine List.filter_eq_nil_iff.mpr fun e he => ?_
          have lt := later e.1 (List.mem_map_of_mem he)
          rw [same] at lt
          simpa using fun eq : e.1 = n => String.lt_irrefl n (eq ▸ lt)
        simp [same, none, values]
      · rw [if_neg (by simpa using same), if_neg (Ne.symm same)]
        exact ih rest

/-- Entries of one name only are at most one. -/
theorem Sorted.length_le_one (h : Sorted m) (same : ∀ a ∈ m, ∀ b ∈ m, a.1 = b.1) : m.length ≤ 1 := by
  cases m with
  | nil => exact Nat.zero_le 1
  | cons a m =>
      cases m with
      | nil => exact Nat.le_refl 1
      | cons b m =>
          have lt : a.1 < b.1 := (List.pairwise_cons.mp h).1 b.1 List.mem_cons_self
          rw [same a List.mem_cons_self b (List.mem_cons_of_mem a List.mem_cons_self)] at lt
          exact absurd lt (String.lt_irrefl b.1)

/-- What an entry holds is the value of its name. -/
theorem Sorted.get?_of_mem (h : Sorted m) (he : e ∈ m) : get? m e.1 = some e.2 := by
  have entry : e.2 ∈ values (m.filter fun a => a.1 == e.1) :=
    List.mem_map_of_mem (List.mem_filter.mpr ⟨he, by simp⟩)
  rw [h.values_filter] at entry
  exact Option.mem_toList.mp entry

end NameMap

/-! ### Names in a script -/

/-- The name of a document variable. -/
def varName (n : Nat) : String := "_x" ++ toString n

/-- The name of a parameter. -/
def paramName (n : Nat) : String := "_" ++ toString n

/-- Numbered names are different for different numbers. -/
theorem append_toString_injective {start : String} {a b : Nat}
    (h : start ++ toString a = start ++ toString b) : a = b := by
  have hl := congrArg String.toList h
  rw [String.toList_append, String.toList_append] at hl
  have hd : Nat.toDigits 10 a = Nat.toDigits 10 b := by
    rw [← Nat.toList_repr, ← Nat.toList_repr]
    exact List.append_cancel_left hl
  rw [← Nat.ofDigitChars_ten_toDigits (n := a), hd, Nat.ofDigitChars_ten_toDigits]

/-- An exported name starts with a letter, so it is no document variable. -/
theorem isExportName_varName (n : Nat) : isExportName (varName n) = false := by
  have h : (varName n).toList = '_' :: 'x' :: (toString n).toList := by
    simp [varName, String.toList_append]
  have underscore : Char.isAlpha '_' = false := by decide
  simp [isExportName, h, underscore]

theorem varName_not_reserved (n : Nat) : varName n ∉ reservedNames := by
  have h : (varName n).toList = '_' :: 'x' :: (toString n).toList := by
    simp [varName, String.toList_append]
  intro hr
  simp only [reservedNames, List.mem_cons, List.not_mem_nil, or_false] at hr
  rcases hr with hr | hr | hr | hr <;> rw [hr] at h <;> simp at h

theorem not_reserved_of_isExportName {name : String} (h : isExportName name = true) :
    name ∉ reservedNames := by
  unfold isExportName at h
  intro hr
  split at h
  · cases h
  · simp [hr] at h

end DocGraph
