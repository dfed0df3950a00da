import DocGraph.Proofs.Keys
import DocGraph.Proofs.Readability

/-! # The order of values is a total preorder

Values are compared by kind, then by what they hold, and what arrays and objects hold is compared one thing
after another. Each of these steps breaks the ties of another one, so it is enough that three comparisons
that fit together (`Coherent`) still do when their ties are broken by three others (`Coherent.break_ties`): the
rest is an induction on the first of three values (`Json.compareSorted_coherent`). Values that are equal up to
the order of fields (`Json.Equals`) are the same to the program (`Json.same_iff_equals`), and they tie. Main
statement: `Json.order_preorder`. -/

namespace DocGraph

/-! ### Comparisons of three things -/

/-- How a first thing compares to a second, that to a third, and the first to the third, if they are in some
total preorder. -/
structure Coherent (ab bc ac : Ordering) : Prop where
  left : ab = .eq → ac = bc
  right : bc = .eq → ac = ab
  both : ab = bc → ac = ab

namespace Coherent

variable {ab bc ac ab' bc' ac' : Ordering}

theorem of_transCmp {α : Type} (cmp : α → α → Ordering) [Std.TransCmp cmp] (a b c : α) :
    Coherent (cmp a b) (cmp b c) (cmp a c) where
  left := Std.TransCmp.congr_left
  right tie := (Std.TransCmp.congr_right tie).symm
  both same := by
    cases h : cmp a b with
    | lt => exact Std.TransCmp.lt_trans h (same ▸ h)
    | eq => exact Std.TransCmp.eq_trans h (same ▸ h)
    | gt => exact Std.TransCmp.gt_trans h (same ▸ h)

/-- The second and the third compare to the first in the same way. -/
theorem apart_left (ab o : Ordering) (ne : ab ≠ .eq) : Coherent ab o ab :=
  ⟨fun tie => absurd tie ne, fun _ => rfl, fun _ => rfl⟩

/-- The first and the second compare to the third in the same way. -/
theorem apart_right (o bc : Ordering) (ne : bc ≠ .eq) : Coherent o bc bc :=
  ⟨fun _ => rfl, fun tie => absurd tie ne, Eq.symm⟩

/-- Nothing follows from a third thing on the same side as the first. -/
theorem apart_middle (ab o : Ordering) (ne : ab ≠ .eq) : Coherent ab ab.swap o := by
  cases ab with
  | eq => exact absurd rfl ne
  | lt | gt => exact ⟨fun tie => (by cases tie), fun tie => (by cases tie), fun same => (by cases same)⟩

theorem tie_left {o : Ordering} : Coherent .eq o o :=
  ⟨fun _ => rfl, id, Eq.symm⟩

theorem isLE (h : Coherent ab bc ac) (first : ab.isLE = true) (second : bc.isLE = true) :
    ac.isLE = true := by
  cases ab with
  | lt =>
      cases bc with
      | lt => rw [h.both rfl, first]
      | eq => rw [h.right rfl, first]
      | gt => cases second
  | eq => rw [h.left rfl, second]
  | gt => cases first

/-- Ties may be broken by any comparisons that fit together where all three tie. -/
theorem break_ties (h : Coherent ab bc ac) (ties : ab = .eq → bc = .eq → Coherent ab' bc' ac') :
    Coherent (ab.then ab') (bc.then bc') (ac.then ac') := by
  cases ab with
  | eq =>
      rw [h.left rfl]
      cases bc with
      | lt => exact apart_right _ .lt (by decide)
      | eq => exact ties rfl rfl
      | gt => exact apart_right _ .gt (by decide)
  | lt =>
      cases bc with
      | lt =>
          rw [h.both rfl]
          exact apart_left .lt _ (by decide)
      | eq =>
          rw [h.right rfl]
          exact apart_left .lt _ (by decide)
      | gt => exact apart_middle .lt _ (by decide)
  | gt =>
      cases bc with
      | lt => exact apart_middle .gt _ (by decide)
      | eq =>
          rw [h.right rfl]
          exact apart_left .gt _ (by decide)
      | gt =>
          rw [h.both rfl]
          exact apart_left .gt _ (by decide)

end Coherent

/-! ### Names in order -/

namespace NameMap

variable {α : Type} {m n : NameMap α}

theorem isSome_get?_iff {k : String} : (get? m k).isSome = true ↔ k ∈ m.map Prod.fst := by
  induction m with
  | nil => simp [get?]
  | cons a m ih =>
      rw [get?_cons, List.map_cons, List.mem_cons, ← ih]
      split <;> simp [*]

/-- Maps in order with the same names have the same first name. -/
theorem Sorted.head_eq {a b : String × α} (hm : Sorted (a :: m)) (hn : Sorted (b :: n))
    (names : ∀ k, k ∈ (a :: m).map Prod.fst ↔ k ∈ (b :: n).map Prod.fst) : a.1 = b.1 := by
  rcases List.mem_cons.mp ((names a.1).mp List.mem_cons_self) with same | later
  · exact same
  · rcases List.mem_cons.mp ((names b.1).mpr List.mem_cons_self) with same | later'
    · exact same.symm
    · have lt := (List.pairwise_cons.mp hn).1 _ later
      exact absurd ((List.pairwise_cons.mp hm).1 _ later') (String.lt_asymm lt)

end NameMap

namespace Json

/-! ### Transitivity -/

/-- The kind counts first. -/
theorem compareSorted_eq_then (a b : Json) :
    compareSorted a b = (compare a.kindRank b.kindRank).then (compareSorted a b) := by
  cases a <;> cases b <;> rfl

theorem compareNames_eq (xs ys : List (String × Json)) :
    compareNames xs ys = compare (xs.map Prod.fst) (ys.map Prod.fst) := by
  induction xs generalizing ys with
  | nil => cases ys <;> rfl
  | cons x xs ih =>
      cases ys with
      | nil => rfl
      | cons y ys =>
          rw [compareNames, ih, List.map_cons, List.map_cons, List.compare_cons_cons]

theorem length_eq_of_compareNames {xs ys : List (String × Json)} (h : compareNames xs ys = .eq) :
    xs.length = ys.length := by
  rw [compareNames_eq] at h
  simpa using congrArg List.length (Std.LawfulEqOrd.eq_of_compare h)

theorem compareNames_coherent (xs ys zs : List (String × Json)) :
    Coherent (compareNames xs ys) (compareNames ys zs) (compareNames xs zs) := by
  rw [compareNames_eq, compareNames_eq, compareNames_eq]
  exact .of_transCmp compare _ _ _

mutual

theorem compareSorted_coherent (a b c : Json) :
    Coherent (compareSorted a b) (compareSorted b c) (compareSorted a c) := by
  rw [compareSorted_eq_then a b, compareSorted_eq_then b c, compareSorted_eq_then a c]
  refine Coherent.break_ties (.of_transCmp compare _ _ _) fun first second => ?_
  -- What is left is three values of one kind.
  cases a with
  | null =>
      cases b with
      | null => exact .tie_left
      | bool | num | str | arr | obj => cases first
  | bool x =>
      cases b with
      | bool y =>
          cases c with
          | bool z => exact .of_transCmp compare x y z
          | null | num | str | arr | obj => cases second
      | null | num | str | arr | obj => cases first
  | num x =>
      cases b with
      | num y =>
          cases c with
          | num z => exact .of_transCmp compare x.rank y.rank z.rank
          | null | bool | str | arr | obj => cases second
      | null | bool | str | arr | obj => cases first
  | str x =>
      cases b with
      | str y =>
          cases c with
          | str z => exact .of_transCmp compare x y z
          | null | bool | num | arr | obj => cases second
      | null | bool | num | arr | obj => cases first
  | arr xs =>
      cases b with
      | arr ys =>
          cases c with
          | arr zs => exact compareItems_coherent xs ys zs
          | null | bool | num | str | obj => cases second
      | null | bool | num | str | obj => cases first
  | obj xs =>
      cases b with
      | obj ys =>
          cases c with
          | obj zs =>
              refine (compareNames_coherent xs ys zs).break_ties fun same same' => ?_
              exact compareFields_coherent xs ys zs (length_eq_of_compareNames same)
                (length_eq_of_compareNames same')
          | null | bool | num | str | arr => cases second
      | null | bool | num | str | arr => cases first
termination_by structural a

theorem compareItems_coherent (xs ys zs : List Json) :
    Coherent (compareItems xs ys) (compareItems ys zs) (compareItems xs zs) := by
  cases xs with
  | nil =>
      cases ys with
      | nil => exact .tie_left
      | cons y ys =>
          cases zs with
          | nil => exact .apart_middle .lt _ (by decide)
          | cons z zs => exact .apart_left .lt _ (by decide)
  | cons x xs =>
      cases ys with
      | nil =>
          cases zs with
          | nil => exact .apart_left .gt _ (by decide)
          | cons z zs => exact .apart_middle .gt _ (by decide)
      | cons y ys =>
          cases zs with
          | nil => exact .apart_right _ .gt (by decide)
          | cons z zs =>
              rw [compareItems, compareItems, compareItems]
              exact (compareSorted_coherent x y z).break_ties fun _ _ => compareItems_coherent xs ys zs
termination_by structural xs

theorem compareFields_coherent (xs ys zs : List (String × Json)) (first : xs.length = ys.length)
    (second : ys.length = zs.length) :
    Coherent (compareFields xs ys) (compareFields ys zs) (compareFields xs zs) := by
  cases xs with
  | nil =>
      rw [List.length_eq_zero_iff.mp first.symm] at second ⊢
      rw [List.length_eq_zero_iff.mp second.symm]
      exact .tie_left
  | cons x xs =>
      obtain ⟨y, ys, rfl⟩ := List.exists_cons_of_length_eq_add_one first.symm
      obtain ⟨z, zs, rfl⟩ := List.exists_cons_of_length_eq_add_one second.symm
      obtain ⟨_, x⟩ := x
      rw [compareFields, compareFields, compareFields]
      refine (compareSorted_coherent x y.2 z.2).break_ties fun _ _ => ?_
      exact compareFields_coherent xs ys zs (Nat.succ.inj first) (Nat.succ.inj second)
termination_by structural xs

end

instance : Std.TransCmp order where
  eq_swap := compareSorted_swap _ _
  isLE_trans := (compareSorted_coherent _ _ _).isLE

/-! ### Equal values -/

/-- Equal up to the order of fields: objects have fields of the same names with equal values. -/
inductive Equals : Json → Json → Prop
  | null : Equals null null
  | bool (b : Bool) : Equals (bool b) (bool b)
  | num {x y : Number} (same : x.same y = true) : Equals (num x) (num y)
  | str (s : String) : Equals (str s) (str s)
  | arr {xs ys : List Json} (count : xs.length = ys.length)
      (items : ∀ (i : Nat) x y, xs[i]? = some x → ys[i]? = some y → Equals x y) : Equals (arr xs) (arr ys)
  | obj {xs ys : Record Json} (names : ∀ n, Record.contains xs n = Record.contains ys n)
      (values : ∀ n x y, Record.get? xs n = some x → Record.get? ys n = some y → Equals x y) :
      Equals (obj xs) (obj ys)

theorem same_arr_iff {xs ys : List Json} :
    (arr xs).same (arr ys) = true ↔ xs.length = ys.length ∧
      ∀ (i : Nat) x y, xs[i]? = some x → ys[i]? = some y → x.same y = true := by
  show sameItems (sortedItems xs) (sortedItems ys) = true ↔ _
  induction xs generalizing ys with
  | nil => cases ys <;> simp [sortedItems, sameItems]
  | cons x xs ih =>
      cases ys with
      | nil => simp [sortedItems, sameItems]
      | cons y ys =>
          rw [sortedItems, sortedItems, sameItems, Bool.and_eq_true, ih]
          constructor
          · rintro ⟨first, count, items⟩
            refine ⟨congrArg Nat.succ count, fun i => ?_⟩
            cases i with
            | zero =>
                rintro _ _ ⟨⟩ ⟨⟩
                exact first
            | succ i => exact items i
          · rintro ⟨count, items⟩
            exact ⟨items 0 x y rfl rfl, Nat.succ.inj count, fun i => items (i + 1)⟩

theorem sorted_sortedFields (fields : Record Json) : NameMap.Sorted (sortedFields fields) := by
  induction fields with
  | nil => exact List.Pairwise.nil
  | cons e rest ih => exact ih.insert e.1 e.2.sorted

theorem names_eq_of_sameFields {m n : NameMap Json} (h : sameFields m n = true) :
    m.map Prod.fst = n.map Prod.fst := by
  induction m generalizing n with
  | nil =>
      cases n with
      | nil => rfl
      | cons b n => cases h
  | cons a m ih =>
      cases n with
      | nil => cases h
      | cons b n =>
          rw [sameFields, Bool.and_eq_true, Bool.and_eq_true, beq_iff_eq] at h
          rw [List.map_cons, List.map_cons, h.1.1, ih h.2]

/-- Maps in order with the same names and equal values are the same field by field. -/
theorem sameFields_of_get? {m n : NameMap Json} (hm : NameMap.Sorted m) (hn : NameMap.Sorted n)
    (names : ∀ k, k ∈ m.map Prod.fst ↔ k ∈ n.map Prod.fst)
    (values : ∀ k x y, NameMap.get? m k = some x → NameMap.get? n k = some y → sameSorted x y = true) :
    sameFields m n = true := by
  induction m generalizing n with
  | nil =>
      cases n with
      | nil => rfl
      | cons b n => exact absurd ((names b.1).mpr List.mem_cons_self) List.not_mem_nil
  | cons a m ih =>
      cases n with
      | nil => exact absurd ((names a.1).mp List.mem_cons_self) List.not_mem_nil
      | cons b n =>
          have first := hm.head_eq hn names
          obtain ⟨k, x⟩ := a
          obtain ⟨_, y⟩ := b
          cases first
          obtain ⟨later, restm⟩ := List.pairwise_cons.mp hm
          obtain ⟨later', restn⟩ := List.pairwise_cons.mp hn
          have other : ∀ {j : String}, j ∈ m.map Prod.fst ∨ j ∈ n.map Prod.fst → j ≠ k := by
            rintro j (mem | mem) rfl
            · exact String.lt_irrefl j (later j mem)
            · exact String.lt_irrefl j (later' j mem)
          rw [sameFields, Bool.and_eq_true, Bool.and_eq_true, beq_self_eq_true]
          refine ⟨⟨rfl, values k x y (by simp [NameMap.get?_cons]) (by simp [NameMap.get?_cons])⟩, ?_⟩
          refine ih restm restn (fun j => ⟨fun mem => ?_, fun mem => ?_⟩) fun j v w hv hw => ?_
          · have there := List.mem_cons.mp ((names j).mp (List.mem_cons_of_mem k mem))
            exact there.resolve_left (other (.inl mem))
          · have there := List.mem_cons.mp ((names j).mpr (List.mem_cons_of_mem k mem))
            exact there.resolve_left (other (.inr mem))
          · have ne : j ≠ k := other (.inl (NameMap.isSome_get?_iff.mp (Option.isSome_of_eq_some hv)))
            refine values j v w ?_ ?_
            · rw [NameMap.get?_cons, if_neg ne, hv]
            · rw [NameMap.get?_cons, if_neg ne, hw]

theorem contains_iff_mem_sortedFields {fields : Record Json} {n : String} :
    Record.contains fields n = true ↔ n ∈ (sortedFields fields).map Prod.fst := by
  rw [← NameMap.isSome_get?_iff, get?_sortedFields, Option.isSome_map]
  rfl

theorem same_obj_iff {xs ys : Record Json} :
    (obj xs).same (obj ys) = true ↔ (∀ n, Record.contains xs n = Record.contains ys n) ∧
      ∀ n x y, Record.get? xs n = some x → Record.get? ys n = some y → x.same y = true := by
  constructor
  · intro h
    refine ⟨fun n => ?_, fun n x y hx hy => ?_⟩
    · rw [Bool.eq_iff_iff, contains_iff_mem_sortedFields, contains_iff_mem_sortedFields,
        names_eq_of_sameFields h]
    · obtain ⟨w, there, same⟩ := exists_of_same_obj h hx
      cases hy.symm.trans there
      exact same
  · rintro ⟨names, values⟩
    refine sameFields_of_get? (sorted_sortedFields xs) (sorted_sortedFields ys) (fun k => ?_) ?_
    · rw [← contains_iff_mem_sortedFields, ← contains_iff_mem_sortedFields, names]
    · intro k v w hv hw
      rw [get?_sortedFields] at hv hw
      obtain ⟨x, hx, rfl⟩ := Option.map_eq_some_iff.mp hv
      obtain ⟨y, hy, rfl⟩ := Option.map_eq_some_iff.mp hw
      exact values k x y hx hy

theorem Equals.same {a b : Json} (h : a.Equals b) : a.same b = true := by
  induction h with
  | null => rfl
  | bool b => exact beq_self_eq_true b
  | num same => exact same
  | str s => exact beq_self_eq_true s
  | arr count _ items => exact same_arr_iff.mpr ⟨count, items⟩
  | obj names _ values => exact same_obj_iff.mpr ⟨names, values⟩

mutual

theorem equals_of_same (a b : Json) (h : a.same b = true) : a.Equals b := by
  cases a with
  | null =>
      cases b with
      | null => exact .null
      | bool | num | str | arr | obj => cases h
  | bool x =>
      cases b with
      | bool y => exact beq_iff_eq.mp h ▸ .bool x
      | null | num | str | arr | obj => cases h
  | num x =>
      cases b with
      | num y => exact .num h
      | null | bool | str | arr | obj => cases h
  | str x =>
      cases b with
      | str y => exact beq_iff_eq.mp h ▸ .str x
      | null | bool | num | arr | obj => cases h
  | arr xs =>
      cases b with
      | arr ys =>
          obtain ⟨count, items⟩ := same_arr_iff.mp h
          refine .arr count fun i x y hx hy => ?_
          exact items_equal xs x (List.mem_of_getElem? hx) y (items i x y hx hy)
      | null | bool | num | str | obj => cases h
  | obj xs =>
      cases b with
      | obj ys =>
          obtain ⟨names, values⟩ := same_obj_iff.mp h
          refine .obj names fun n x y hx hy => ?_
          exact fields_equal xs (n, x) (NameMap.mem_of_get? hx) y (values n x y hx hy)
      | null | bool | num | str | arr => cases h
termination_by structural a

theorem items_equal (xs : List Json) (x : Json) (mem : x ∈ xs) (y : Json) (h : x.same y = true) :
    x.Equals y := by
  cases xs with
  | nil => cases mem
  | cons z xs =>
      rcases List.mem_cons.mp mem with same | mem
      · rw [same] at h ⊢
        exact equals_of_same z y h
      · exact items_equal xs x mem y h
termination_by structural xs

theorem fields_equal (xs : List (String × Json)) (e : String × Json) (mem : e ∈ xs) (y : Json)
    (h : e.2.same y = true) : e.2.Equals y := by
  cases xs with
  | nil => cases mem
  | cons f xs =>
      rcases List.mem_cons.mp mem with same | mem
      · obtain ⟨_, z⟩ := f
        rw [same] at h ⊢
        exact equals_of_same z y h
      · exact fields_equal xs e mem y h
termination_by structural xs

end

/-- To be the same is to be equal up to the order of fields. -/
theorem same_iff_equals {a b : Json} : a.same b = true ↔ a.Equals b :=
  ⟨equals_of_same a b, Equals.same⟩

/-- The order of values is a total preorder: every value ties with itself, exchanging two values reverses
the comparison, at most is transitive, and so is a tie, and values that tie compare in the same way to every
third one. Values that are equal up to the order of fields tie. -/
theorem order_preorder (a b c : Json) :
    a.order a = .eq ∧ b.order a = (a.order b).swap ∧
    ((a.order b).isLE = true → (b.order c).isLE = true → (a.order c).isLE = true) ∧
    (a.order b = .eq → b.order c = .eq → a.order c = .eq) ∧
    (a.order b = .eq → a.order c = b.order c ∧ c.order a = c.order b) ∧
    (a.same b = true ↔ a.Equals b) ∧ (a.Equals b → a.order b = .eq) := by
  refine ⟨Std.ReflCmp.compare_self, Std.OrientedCmp.eq_swap, Std.TransCmp.isLE_trans, Std.TransCmp.eq_trans,
    fun tie => ⟨Std.TransCmp.congr_left tie, Std.TransCmp.congr_right tie⟩, same_iff_equals, fun equal => ?_⟩
  rw [← order_congr equal.same a]
  exact Std.ReflCmp.compare_self

end Json

end DocGraph
