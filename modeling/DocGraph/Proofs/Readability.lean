import Mathlib.Data.List.Forall2
import DocGraph.Proofs.Placeholders

/-! # Conditions read off their text

The text of conditions can be read in one way only, as long as names are made of letters, digits and
underscores: whatever follows, the text of a condition shows its outline and where it ends
(`Condition.written_inj`, by induction on two conditions at once). Conditions of one outline with equal
literals mean the same (`Condition.holds_congr`), and equal bindings give equal literals. Main statement: two
lists of conditions with one text and equal bindings hold of the same documents
(`Condition.allHold_eq_of_clause`). -/

namespace DocGraph

/-! ### Words -/

/-- A name of letters, digits and underscores. -/
def IsName (name : String) : Prop := ∀ c ∈ name.toList, isWord c = true

instance (name : String) : Decidable (IsName name) :=
  decidable_of_iff (name.toList.all isWord = true) List.all_eq_true

/-- A word ends where the first other character stands. -/
theorem word_inj {w v r s : List Char} {a b : Char} (hw : ∀ c ∈ w, isWord c = true)
    (hv : ∀ c ∈ v, isWord c = true) (ha : isWord a = false) (hb : isWord b = false)
    (h : w ++ a :: r = v ++ b :: s) : w = v ∧ a = b ∧ r = s := by
  have same : w = v := by
    have taken := congrArg (List.takeWhile isWord) h
    rwa [takeWhile_isWord hw (closed_of_head rfl ha), takeWhile_isWord hv (closed_of_head rfl hb)] at taken
  subst same
  have rest := List.append_cancel_left h
  exact ⟨rfl, List.cons.inj rest⟩

/-! ### Openings -/

/-- How the text of a condition begins. -/
inductive Opening where
  | field (target : FieldRef)
  | pattern (negated : Bool)
  | group
  | negation

namespace Opening

/-- The first word of an opening. -/
def word : Opening → List Char
  | field target => target.row.toList
  | pattern false => ['L', 'I', 'K', 'E']
  | pattern true => ['N', 'O', 'T']
  | group => []
  | negation => ['N', 'O', 'T']

/-- The character after the first word. -/
def mark : Opening → Char
  | field _ => '.'
  | pattern false => '('
  | pattern true => ' '
  | group => '('
  | negation => ' '

/-- What an opening has after its first word. -/
def rest : Opening → List Char
  | field target => target.field.toList ++ [' ']
  | pattern false => []
  | pattern true => ['L', 'I', 'K', 'E', '(']
  | group => []
  | negation => ['(']

/-- The text of an opening. -/
def chars (o : Opening) : List Char :=
  o.word ++ o.mark :: o.rest

/-- The names in an opening. -/
def names : Opening → List String
  | field target => [target.row, target.field]
  | _ => []

variable {o p : Opening}

theorem isWord_word (h : ∀ name ∈ o.names, IsName name) : ∀ c ∈ o.word, isWord c = true := by
  cases o with
  | field target => exact h target.row List.mem_cons_self
  | pattern negated => cases negated <;> exact List.all_eq_true.mp (by decide)
  | group | negation => exact List.all_eq_true.mp (by decide)

theorem isWord_mark (o : Opening) : isWord o.mark = false := by
  cases o with
  | field => rfl
  | pattern negated => cases negated <;> rfl
  | group | negation => rfl

/-- The opening of a text can be told from the text. -/
theorem chars_inj {r s : List Char} (ho : ∀ name ∈ o.names, IsName name) (hp : ∀ name ∈ p.names, IsName name)
    (h : o.chars ++ r = p.chars ++ s) : o = p ∧ r = s := by
  rw [chars, chars, List.append_assoc, List.append_assoc, List.cons_append, List.cons_append] at h
  obtain ⟨word, mark, rest⟩ := word_inj (isWord_word ho) (isWord_word hp) o.isWord_mark p.isWord_mark h
  cases o with
  | field target =>
      cases p with
      | field other =>
          have field := word_inj (ho target.field (List.mem_cons_of_mem _ List.mem_cons_self))
            (hp other.field (List.mem_cons_of_mem _ List.mem_cons_self)) (a := ' ') (b := ' ') rfl rfl
            (by simpa [Opening.rest] using rest)
          obtain ⟨row, name⟩ := target
          obtain ⟨row', name'⟩ := other
          have rows : row = row' := String.toList_injective word
          have names : name = name' := String.toList_injective field.1
          rw [rows, names]
          exact ⟨rfl, field.2.2⟩
      | pattern negated => cases negated <;> cases mark
      | group | negation => cases mark
  | pattern negated =>
      cases negated with
      | false =>
          cases p with
          | pattern negated =>
              cases negated with
              | false => exact ⟨rfl, rest⟩
              | true => cases mark
          | group => cases word
          | field | negation => cases mark
      | true =>
          cases p with
          | pattern negated =>
              cases negated with
              | false => cases mark
              | true => exact ⟨rfl, List.append_cancel_left rest⟩
          | negation => cases rest
          | field | group => cases mark
  | group =>
      cases p with
      | pattern negated =>
          cases negated with
          | false => cases word
          | true => cases mark
      | group => exact ⟨rfl, rest⟩
      | field | negation => cases mark
  | negation =>
      cases p with
      | pattern negated =>
          cases negated with
          | false => cases mark
          | true => cases rest
      | negation => exact ⟨rfl, List.append_cancel_left rest⟩
      | field | group => cases mark

end Opening

namespace Condition

/-- How the text of a condition begins. -/
def opening : Condition → Opening
  | compare target _ _ => .field target
  | among target _ _ => .field target
  | like _ _ _ negated => .pattern negated
  | all _ => .group
  | any _ => .group
  | notAll _ => .negation

/-- The text of a condition after its opening. -/
def body (n : Nat) : Condition → List Char
  | compare _ comparison _ => comparison.sign.toList ++ ' ' :: (valuePlace n).toList
  | among _ _ negated => (if negated then "NOT IN " else "IN ").toList ++ (valuePlace n).toList
  | like target _ ignoreCase _ =>
    target.row.toList ++ '.' :: (target.field.toList ++ ',' :: ' ' :: ((valuePlace n).toList ++
      ',' :: ' ' :: ((if ignoreCase then "true" else "false").toList ++ [')'])))
  | all parts => (joined " AND " (partsWritten n parts)).toList ++ [')']
  | any parts => (joined " OR " (partsWritten n parts)).toList ++ [')']
  | notAll parts => (joined " AND " (partsWritten n parts)).toList ++ [')']

theorem toList_written (n : Nat) (c : Condition) : (c.written n).toList = c.opening.chars ++ c.body n := by
  cases c with
  | compare target comparison v =>
      simp [written, opening, body, Opening.chars, Opening.word, Opening.mark, Opening.rest, FieldRef.text,
        String.toList_append]
  | among target vs negated =>
      cases negated <;> simp [written, opening, body, Opening.chars, Opening.word, Opening.mark, Opening.rest,
        FieldRef.text, String.toList_append]
  | like target pattern ignoreCase negated =>
      cases negated <;> simp [written, opening, body, Opening.chars, Opening.word, Opening.mark, Opening.rest,
        FieldRef.text, String.toList_append]
  | all parts | any parts | notAll parts =>
      simp [written, opening, body, Opening.chars, Opening.word, Opening.mark, Opening.rest,
        String.toList_append]

theorem names_opening {c : Condition} (named : ∀ name ∈ c.names, IsName name) :
    ∀ name ∈ c.opening.names, IsName name := by
  cases c with
  | compare | among => exact named
  | like | all | any | notAll => exact fun name mem => absurd mem List.not_mem_nil

/-! ### Reading on after an opening -/

theorem sign_inj {a b : Comparison} {r s : List Char}
    (h : a.sign.toList ++ ' ' :: r = b.sign.toList ++ ' ' :: s) : a = b ∧ r = s := by
  cases a <;> cases b <;> simp_all [Comparison.sign]

/-- A sign is not taken for the word before a list. -/
theorem sign_ne (a : Comparison) (negated : Bool) (r s : List Char) :
    a.sign.toList ++ ' ' :: r ≠ (if negated then "NOT IN " else "IN ").toList ++ s := by
  cases a <;> cases negated <;> simp [Comparison.sign]

theorem among_inj {a b : Bool} {r s : List Char}
    (h : (if a then "NOT IN " else "IN ").toList ++ r = (if b then "NOT IN " else "IN ").toList ++ s) :
    a = b ∧ r = s := by
  cases a <;> cases b <;> simp_all

theorem flag_inj {a b : Bool} {r s : List Char}
    (h : (if a then "true" else "false").toList ++ r = (if b then "true" else "false").toList ++ s) :
    a = b ∧ r = s := by
  cases a <;> cases b <;> simp_all

theorem body_like_inj {target other : FieldRef} {pattern pattern' : String} {i j a b : Bool} {n : Nat}
    {r s : List Char} (ht : ∀ name ∈ [target.row, target.field], IsName name)
    (ho : ∀ name ∈ [other.row, other.field], IsName name)
    (h : (like target pattern i a).body n ++ r = (like other pattern' j b).body n ++ s) :
    target = other ∧ i = j ∧ r = s := by
  simp only [body, List.append_assoc, List.cons_append] at h
  obtain ⟨row, _, h⟩ := word_inj (ht _ List.mem_cons_self) (ho _ List.mem_cons_self) rfl rfl h
  obtain ⟨field, _, h⟩ := word_inj (ht _ (List.mem_cons_of_mem _ List.mem_cons_self))
    (ho _ (List.mem_cons_of_mem _ List.mem_cons_self)) rfl rfl h
  have flags := List.append_cancel_left (List.cons.inj h).2
  obtain ⟨same, h⟩ := flag_inj (List.cons.inj (List.cons.inj flags).2).2
  refine ⟨?_, same, (List.cons.inj h).2⟩
  obtain ⟨row', field'⟩ := other
  have rows : target.row = row' := String.toList_injective row
  have fields : target.field = field' := String.toList_injective field
  rw [← rows, ← fields]

/-- The text of no part is taken for that of an empty group. -/
theorem true_ne_written {c : Condition} (named : ∀ name ∈ c.names, IsName name) (n : Nat) (r s : List Char) :
    "true".toList ++ ')' :: r ≠ (c.written n).toList ++ s := by
  intro h
  rw [toList_written, Opening.chars, List.append_assoc, List.append_assoc, List.cons_append] at h
  obtain ⟨_, mark, _⟩ := word_inj (List.all_eq_true.mp (by decide)) (Opening.isWord_word (names_opening named))
    (by decide) (Opening.isWord_mark _) h
  cases c with
  | like target pattern ignoreCase negated => cases negated <;> cases mark
  | compare | among | all | any | notAll => cases mark

/-- The words between the parts of a group. -/
def IsSeparator (separator : String) : Prop := separator = " AND " ∨ separator = " OR "

theorem separator_inj {t u : String} (ht : IsSeparator t) (hu : IsSeparator u) {r s : List Char}
    (h : t.toList ++ r = u.toList ++ s) : t = u ∧ r = s := by
  rcases ht with rfl | rfl <;> rcases hu with rfl | rfl <;> simp_all

theorem close_ne_separator {t : String} (ht : IsSeparator t) (r s : List Char) :
    ')' :: r ≠ t.toList ++ s := by
  rcases ht with rfl | rfl <;> simp

/-- The rest of a group after its first part. -/
def groupRest (separator : String) (n : Nat) (parts : List Condition) (r : List Char) : List Char :=
  if parts.isEmpty then ')' :: r
  else separator.toList ++ ((joined separator (partsWritten n parts)).toList ++ ')' :: r)

theorem toList_group (separator : String) (n : Nat) (c : Condition) (rest : List Condition) (r : List Char) :
    (joined separator (partsWritten n (c :: rest))).toList ++ ')' :: r =
      (c.written n).toList ++ groupRest separator (n + c.literals.length) rest r := by
  cases rest with
  | nil => simp [groupRest, joined, partsWritten, String.intercalate_singleton]
  | cons d rest =>
      simp [groupRest, joined, partsWritten, String.intercalate_cons_cons, String.toList_append]

variable {c d : Condition} {cs ds : List Condition}

theorem length_literals_of_outline (h : c.outline = d.outline) : c.literals.length = d.literals.length := by
  rw [← length_literals_outline c, h, length_literals_outline d]

theorem outline_any_eq_any (outlines : partOutlines cs = partOutlines ds) :
    (any cs).outline = (any ds).outline := by
  rw [outline, outline, outlines, ← length_partOutlines cs, outlines, length_partOutlines ds]

theorem outline_all_eq_any (outlines : partOutlines cs = partOutlines ds) (short : cs.length < 2) :
    (all cs).outline = (any ds).outline := by
  rw [← length_partOutlines cs, outlines, length_partOutlines ds] at short
  rw [outline, outline, if_pos short, outlines]

/-- Parts that do not show how they are joined are fewer than two. -/
theorem short_of_joints {t u : String} (joints : 2 ≤ cs.length → t = u) (ne : t ≠ u) : cs.length < 2 :=
  Nat.lt_of_not_le fun long => ne (joints long)

mutual

/-- Whatever follows, the text of a condition shows its outline and where it ends. -/
theorem written_inj (c d : Condition) (hc : ∀ name ∈ c.names, IsName name)
    (hd : ∀ name ∈ d.names, IsName name) {n : Nat} {r s : List Char}
    (h : (c.written n).toList ++ r = (d.written n).toList ++ s) : c.outline = d.outline ∧ r = s := by
  rw [toList_written, toList_written, List.append_assoc, List.append_assoc] at h
  -- The openings are the same, which leaves the pairs of one kind, two kinds of tests and two of groups.
  obtain ⟨opened, rest⟩ := Opening.chars_inj (names_opening hc) (names_opening hd) h
  cases c with
  | compare target comparison v =>
      cases d with
      | compare other comparison' w =>
          cases opened
          simp only [body, List.append_assoc, List.cons_append] at rest
          obtain ⟨rfl, places⟩ := sign_inj rest
          exact ⟨rfl, List.append_cancel_left places⟩
      | among other ws negated =>
          simp only [body, List.append_assoc, List.cons_append] at rest
          exact absurd rest (sign_ne _ _ _ _)
      | like | all | any | notAll => cases opened
  | among target vs negated =>
      cases d with
      | compare other comparison' w =>
          simp only [body, List.append_assoc, List.cons_append] at rest
          exact absurd rest.symm (sign_ne _ _ _ _)
      | among other ws negated' =>
          cases opened
          simp only [body, List.append_assoc] at rest
          obtain ⟨rfl, places⟩ := among_inj rest
          exact ⟨rfl, List.append_cancel_left places⟩
      | like | all | any | notAll => cases opened
  | like target pattern ignoreCase negated =>
      cases d with
      | like other pattern' ignoreCase' negated' =>
          cases opened
          obtain ⟨rfl, rfl, after⟩ := body_like_inj hc hd rest
          exact ⟨rfl, after⟩
      | compare | among | all | any | notAll => cases opened
  | all parts =>
      cases d with
      | all others =>
          simp only [body, List.append_assoc, List.cons_append, List.nil_append] at rest
          obtain ⟨outlines, _, after⟩ := group_inj parts others hc hd (.inl rfl) (.inl rfl) rest
          exact ⟨congrArg all outlines, after⟩
      | any others =>
          simp only [body, List.append_assoc, List.cons_append, List.nil_append] at rest
          obtain ⟨outlines, joints, after⟩ := group_inj parts others hc hd (.inl rfl) (.inr rfl) rest
          exact ⟨outline_all_eq_any outlines (short_of_joints joints (by decide)), after⟩
      | compare | among | like | notAll => cases opened
  | any parts =>
      cases d with
      | all others =>
          simp only [body, List.append_assoc, List.cons_append, List.nil_append] at rest
          obtain ⟨outlines, joints, after⟩ := group_inj parts others hc hd (.inr rfl) (.inl rfl) rest
          have short := short_of_joints joints (by decide)
          rw [← length_partOutlines parts, outlines, length_partOutlines others] at short
          exact ⟨(outline_all_eq_any outlines.symm short).symm, after⟩
      | any others =>
          simp only [body, List.append_assoc, List.cons_append, List.nil_append] at rest
          obtain ⟨outlines, _, after⟩ := group_inj parts others hc hd (.inr rfl) (.inr rfl) rest
          exact ⟨outline_any_eq_any outlines, after⟩
      | compare | among | like | notAll => cases opened
  | notAll parts =>
      cases d with
      | notAll others =>
          simp only [body, List.append_assoc, List.cons_append, List.nil_append] at rest
          obtain ⟨outlines, _, after⟩ := group_inj parts others hc hd (.inl rfl) (.inl rfl) rest
          exact ⟨congrArg notAll outlines, after⟩
      | compare | among | like | all | any => cases opened

/-- The parts of a group show their outlines, and two or more of them show how they are joined. -/
theorem group_inj (cs ds : List Condition) (hcs : ∀ name ∈ partNames cs, IsName name)
    (hds : ∀ name ∈ partNames ds, IsName name) {t u : String} (ht : IsSeparator t) (hu : IsSeparator u)
    {n : Nat} {r s : List Char}
    (h : (joined t (partsWritten n cs)).toList ++ ')' :: r =
      (joined u (partsWritten n ds)).toList ++ ')' :: s) :
    partOutlines cs = partOutlines ds ∧ (2 ≤ cs.length → t = u) ∧ r = s := by
  cases cs with
  | nil =>
      cases ds with
      | nil =>
          have rest := List.append_cancel_left h
          exact ⟨rfl, by simp, (List.cons.inj rest).2⟩
      | cons d ds =>
          rw [toList_group] at h
          exact absurd h (true_ne_written (fun name mem => hds name (List.mem_append_left _ mem)) _ _ _)
  | cons c cs =>
      cases ds with
      | nil =>
          rw [toList_group] at h
          exact absurd h.symm (true_ne_written (fun name mem => hcs name (List.mem_append_left _ mem)) _ _ _)
      | cons d ds =>
          rw [toList_group, toList_group] at h
          obtain ⟨first, rest⟩ := written_inj c d (fun name mem => hcs name (List.mem_append_left _ mem))
            (fun name mem => hds name (List.mem_append_left _ mem)) h
          -- Both have bound as many literals, so what follows is numbered alike.
          rw [length_literals_of_outline first] at rest
          cases cs with
          | nil =>
              cases ds with
              | nil => exact ⟨congrArg (· :: []) first, by simp, (List.cons.inj rest).2⟩
              | cons d' ds => exact absurd rest (close_ne_separator hu _ _)
          | cons c' cs =>
              cases ds with
              | nil => exact absurd rest.symm (close_ne_separator ht _ _)
              | cons d' ds =>
                  obtain ⟨joints, others⟩ := separator_inj ht hu rest
                  obtain ⟨outlines, _, after⟩ := group_inj (c' :: cs) (d' :: ds)
                    (fun name mem => hcs name (List.mem_append_right _ mem))
                    (fun name mem => hds name (List.mem_append_right _ mem)) ht hu others
                  refine ⟨?_, fun _ => joints, after⟩
                  rw [partOutlines, first, outlines]
                  rfl

end

end Condition

/-! ### Equal literals -/

namespace Json

theorem compareNames_congr {xs ys : List (String × Json)} (h : sameFields xs ys = true)
    (us : List (String × Json)) : compareNames us xs = compareNames us ys := by
  induction xs generalizing ys us with
  | nil =>
      cases ys with
      | nil => rfl
      | cons y ys => cases h
  | cons x xs ih =>
      cases ys with
      | nil => cases h
      | cons y ys =>
          rw [sameFields, Bool.and_eq_true, Bool.and_eq_true, beq_iff_eq] at h
          cases us with
          | nil => rfl
          | cons u us => rw [compareNames, compareNames, h.1.1, ih h.2]

theorem rank_eq_of_same {a b : Number} (h : a.same b = true) : a.rank = b.rank := by
  cases a <;> cases b <;> simp_all [Number.same, Number.rank, Number.toDouble, Double.sameValue]

mutual

/-- Equal values have the same place in the order. -/
theorem compareSorted_congr (x y : Json) (h : sameSorted x y = true) (u : Json) :
    compareSorted u x = compareSorted u y := by
  cases x with
  | null =>
      cases y with
      | null => rfl
      | bool | num | str | arr | obj => cases h
  | bool a =>
      cases y with
      | bool b => rw [beq_iff_eq.mp h]
      | null | num | str | arr | obj => cases h
  | num a =>
      cases y with
      | num b =>
          cases u with
          | num c => rw [compareSorted, compareSorted, rank_eq_of_same h]
          | null | bool | str | arr | obj => rfl
      | null | bool | str | arr | obj => cases h
  | str a =>
      cases y with
      | str b => rw [beq_iff_eq.mp h]
      | null | bool | num | arr | obj => cases h
  | arr xs =>
      cases y with
      | arr ys =>
          cases u with
          | arr us => exact compareItems_congr xs ys h us
          | null | bool | num | str | obj => rfl
      | null | bool | num | str | obj => cases h
  | obj xs =>
      cases y with
      | obj ys =>
          cases u with
          | obj us => rw [compareSorted, compareSorted, compareNames_congr h, compareFields_congr xs ys h]
          | null | bool | num | str | arr => rfl
      | null | bool | num | str | arr => cases h
termination_by structural x

theorem compareItems_congr (xs ys : List Json) (h : sameItems xs ys = true) (us : List Json) :
    compareItems us xs = compareItems us ys := by
  cases xs with
  | nil =>
      cases ys with
      | nil => rfl
      | cons y ys => cases h
  | cons x xs =>
      cases ys with
      | nil => cases h
      | cons y ys =>
          rw [sameItems, Bool.and_eq_true] at h
          cases us with
          | nil => rfl
          | cons u us =>
              rw [compareItems, compareItems, compareSorted_congr x y h.1, compareItems_congr xs ys h.2]
termination_by structural xs

theorem compareFields_congr (xs ys : List (String × Json)) (h : sameFields xs ys = true)
    (us : List (String × Json)) : compareFields us xs = compareFields us ys := by
  cases xs with
  | nil =>
      cases ys with
      | nil => rfl
      | cons y ys => cases h
  | cons x xs =>
      cases ys with
      | nil => cases h
      | cons y ys =>
          obtain ⟨m, x⟩ := x
          obtain ⟨n, y⟩ := y
          rw [sameFields, Bool.and_eq_true, Bool.and_eq_true] at h
          cases us with
          | nil => rfl
          | cons u us =>
              rw [compareFields, compareFields, compareSorted_congr x y h.1.2, compareFields_congr xs ys h.2]
termination_by structural xs

end

/-- Equal values are ordered alike. -/
theorem order_congr {v w : Json} (h : v.same w = true) (u : Json) : u.order v = u.order w :=
  compareSorted_congr _ _ h _

theorem any_alike_congr {vs ws : List Json} (h : (arr vs).same (arr ws) = true) (u : Json) :
    vs.any u.alike = ws.any u.alike := by
  have items : sameItems (sortedItems vs) (sortedItems ws) = true := h
  clear h
  induction vs generalizing ws with
  | nil =>
      cases ws with
      | nil => rfl
      | cons w ws => cases items
  | cons v vs ih =>
      cases ws with
      | nil => cases items
      | cons w ws =>
          rw [sortedItems, sortedItems, sameItems, Bool.and_eq_true] at items
          rw [List.any_cons, List.any_cons, ih items.2, alike, alike, order_congr items.1]

theorem eq_of_same_str {p q : String} (h : (str p).same (str q) = true) : p = q :=
  beq_iff_eq.mp h

end Json

/-- Lists of equal values. -/
abbrev SameValues : List Json → List Json → Prop :=
  List.Forall₂ fun v w => v.same w = true

theorem SameValues.split {vs ws vs' ws' : List Json} (h : SameValues (vs ++ vs') (ws ++ ws'))
    (count : vs.length = ws.length) : SameValues vs ws ∧ SameValues vs' ws' := by
  have front := List.forall₂_take_append _ ws ws' h
  have back := List.forall₂_drop_append _ ws ws' h
  rw [← count, List.take_left] at front
  rw [← count, List.drop_left] at back
  exact ⟨front, back⟩

namespace Condition

variable {c d : Condition}

/-- Of fewer than two conditions, one holds or the list is empty just when all hold. -/
theorem holds_any_of_short {parts : List Condition} (short : parts.length < 2) (doc : Document) :
    (any parts).holds doc = allHold doc parts := by
  rcases parts with _ | ⟨c, _ | ⟨d, rest⟩⟩
  · rfl
  · simp [holds, allHold, anyHolds]
  · simp only [List.length_cons] at short
    omega

/-- A condition with the outline of a conjunction is a group that means one. -/
theorem exists_of_outline_all {outlines : List Condition} (h : c.outline = all outlines) :
    ∃ parts, partOutlines parts = outlines ∧ c.literals = partLiterals parts ∧
      ∀ doc, c.holds doc = allHold doc parts := by
  cases c with
  | compare | among | like | notAll => cases h
  | all parts =>
      cases h
      exact ⟨parts, rfl, rfl, fun doc => rfl⟩
  | any parts =>
      rw [outline] at h
      split at h
      · rename_i short
        cases h
        exact ⟨parts, rfl, rfl, holds_any_of_short short⟩
      · cases h

theorem exists_of_outline_any {outlines : List Condition} (h : c.outline = any outlines) :
    ∃ parts, c = any parts ∧ partOutlines parts = outlines := by
  cases c with
  | compare | among | like | all | notAll => cases h
  | any parts =>
      rw [outline] at h
      split at h
      · cases h
      · cases h
        exact ⟨parts, rfl, rfl⟩

theorem opening_outline (c : Condition) : c.outline.opening = c.opening := by
  cases c with
  | compare | among | like | all | notAll => rfl
  | any parts =>
      rw [outline]
      split <;> rfl

mutual

/-- Conditions of one outline with equal literals mean the same. -/
theorem holds_congr (c d : Condition) (outlines : c.outline = d.outline)
    (values : SameValues c.literals d.literals) (doc : Document) : c.holds doc = d.holds doc := by
  have opened : c.opening = d.opening := by
    rw [← opening_outline c, outlines, opening_outline d]
  cases c with
  | compare target comparison v =>
      cases d with
      | compare other comparison' w =>
          cases outlines
          obtain ⟨same, _⟩ := List.forall₂_cons.mp values
          rw [holds, holds, Json.order_congr same]
      | among => cases outlines
      | like | all | any | notAll => cases opened
  | among target vs negated =>
      cases d with
      | among other ws negated' =>
          cases outlines
          obtain ⟨same, _⟩ := List.forall₂_cons.mp values
          rw [holds, holds, Json.any_alike_congr same]
      | compare => cases outlines
      | like | all | any | notAll => cases opened
  | like target pattern ignoreCase negated =>
      cases d with
      | like other pattern' ignoreCase' negated' =>
          cases outlines
          obtain ⟨same, _⟩ := List.forall₂_cons.mp values
          rw [Json.eq_of_same_str same]
      | compare | among | all | any | notAll => cases opened
  | all parts =>
      obtain ⟨others, same, literals, meaning⟩ := exists_of_outline_all outlines.symm
      rw [literals] at values
      rw [meaning, holds, (parts_congr parts others same.symm values doc).1]
  | any parts =>
      by_cases short : parts.length < 2
      · rw [outline, if_pos short] at outlines
        obtain ⟨others, same, literals, meaning⟩ := exists_of_outline_all outlines.symm
        rw [literals] at values
        rw [meaning, holds_any_of_short short, (parts_congr parts others same.symm values doc).1]
      · rw [outline, if_neg short] at outlines
        obtain ⟨others, rfl, same⟩ := exists_of_outline_any outlines.symm
        have empty : parts.isEmpty = others.isEmpty := by
          cases parts <;> cases others <;> first | rfl | cases same
        rw [holds, holds, (parts_congr parts others same.symm values doc).2, empty]
  | notAll parts =>
      cases d with
      | notAll others =>
          rw [holds, holds, (parts_congr parts others (Condition.notAll.inj outlines) values doc).1]
      | compare | among | like | all | any => cases opened

theorem parts_congr (cs ds : List Condition) (outlines : partOutlines cs = partOutlines ds)
    (values : SameValues (partLiterals cs) (partLiterals ds)) (doc : Document) :
    allHold doc cs = allHold doc ds ∧ anyHolds doc cs = anyHolds doc ds := by
  cases cs with
  | nil =>
      cases ds with
      | nil => exact ⟨rfl, rfl⟩
      | cons d ds => cases outlines
  | cons c cs =>
      cases ds with
      | nil => cases outlines
      | cons d ds =>
          obtain ⟨first, rest⟩ := List.cons.inj outlines
          obtain ⟨front, back⟩ := values.split (length_literals_of_outline first)
          have one := holds_congr c d first front doc
          have others := parts_congr cs ds rest back doc
          rw [allHold, allHold, anyHolds, anyHolds, one, others.1, others.2]
          exact ⟨rfl, rfl⟩

end

end Condition

/-! ### Equal bindings -/

theorem Json.get?_sortedFields (fields : Record Json) (name : String) :
    NameMap.get? (Json.sortedFields fields) name = (Record.get? fields name).map Json.sorted := by
  induction fields with
  | nil => rfl
  | cons e rest ih =>
      obtain ⟨n, v⟩ := e
      rw [Json.sortedFields, NameMap.get?_insert, Record.get?_cons, ih]
      split <;> rfl

theorem Json.exists_of_sameFields {xs ys : NameMap Json} (h : Json.sameFields xs ys = true) {name : String}
    {v : Json} (found : NameMap.get? xs name = some v) :
    ∃ w, NameMap.get? ys name = some w ∧ Json.sameSorted v w = true := by
  induction xs generalizing ys with
  | nil => cases found
  | cons x xs ih =>
      cases ys with
      | nil => cases h
      | cons y ys =>
          obtain ⟨m, a⟩ := x
          obtain ⟨n, b⟩ := y
          rw [Json.sameFields, Bool.and_eq_true, Bool.and_eq_true, beq_iff_eq] at h
          obtain ⟨⟨rfl, same⟩, rest⟩ := h
          rw [NameMap.get?_cons] at found ⊢
          split at found
          · rename_i first
            cases found
            exact ⟨b, if_pos first, same⟩
          · rename_i other
            rw [if_neg other]
            exact ih rest found

/-- Equal objects have equal values under each name. -/
theorem Json.exists_of_same_obj {xs ys : Record Json} (h : (Json.obj xs).same (.obj ys) = true)
    {name : String} {v : Json} (found : Record.get? xs name = some v) :
    ∃ w, Record.get? ys name = some w ∧ v.same w = true := by
  have sorted : NameMap.get? (Json.sortedFields xs) name = some v.sorted := by
    rw [Json.get?_sortedFields, found, Option.map_some]
  obtain ⟨w, there, same⟩ := Json.exists_of_sameFields h sorted
  rw [Json.get?_sortedFields] at there
  obtain ⟨w, found', rfl⟩ := Option.map_eq_some_iff.mp there
  exact ⟨w, found', same⟩

/-- Values that are equal under each numbered name are equal one by one. -/
theorem sameValues_of_numbered {vs ws : List Json} (count : vs.length = ws.length) {n : Nat}
    (h : ∀ name v, Record.get? (numbered n (vs.map .value)) name = some v →
      ∃ w, Record.get? (numbered n (ws.map .value)) name = some w ∧ v.same w = true) :
    SameValues vs ws := by
  induction vs generalizing ws n with
  | nil =>
      rw [List.length_eq_zero_iff.mp count.symm]
      exact .nil
  | cons v vs ih =>
      obtain ⟨w, ws, rfl⟩ := List.exists_cons_of_length_eq_add_one count.symm
      obtain ⟨w', there, same⟩ := h ((Literal.value v).name n) v
        (by simp [numbered, Record.get?_cons, Literal.json])
      have first : w' = w := by
        simpa [numbered, Record.get?_cons, Literal.name, Literal.json, eq_comm] using there
      refine .cons (first ▸ same) (ih (Nat.succ.inj count) (n := n + 1) ?_)
      intro name u found
      have other : name ≠ (Literal.value v).name n := by
        rintro rfl
        have mem : (Literal.value v).name n ∈ (numbered (n + 1) (vs.map .value)).names :=
          List.mem_map_of_mem (f := Prod.fst) (NameMap.mem_of_get? found)
        exact name_not_mem_numbered (.inl (Nat.lt_succ_self n)) mem
      have later := h name u (by simpa [numbered, Record.get?_cons, other] using found)
      simpa [numbered, Record.get?_cons, show name ≠ (Literal.value w).name n from other] using later

namespace Condition

theorem clause_nil (cs : List Condition) :
    clause cs [] = (clauseWritten 0 cs, numbered 0 ((partLiterals cs).map .value)) :=
  clause_writes cs []

/-- The text of a filter clause shows the outlines of its conditions. -/
theorem partOutlines_of_clauseWritten (hcs : ∀ name ∈ partNames cs, IsName name)
    (hds : ∀ name ∈ partNames ds, IsName name) {n : Nat} (h : clauseWritten n cs = clauseWritten n ds) :
    partOutlines cs = partOutlines ds := by
  have chars := congrArg String.toList h
  cases cs with
  | nil =>
      cases ds with
      | nil => rfl
      | cons d ds => simp [clauseWritten, String.toList_append] at chars
  | cons c cs =>
      cases ds with
      | nil => simp [clauseWritten, String.toList_append] at chars
      | cons d ds =>
          simp only [clauseWritten, List.isEmpty_cons, Bool.false_eq_true, if_false,
            String.toList_append] at chars
          -- a closing bracket after both texts makes them groups
          have closed := congrArg (· ++ [')']) (List.append_cancel_left chars)
          exact (group_inj _ _ hcs hds (.inl rfl) (.inl rfl) closed).1

/-- Two lists of conditions whose clauses have one text and equal bindings hold of the same documents. -/
theorem allHold_eq_of_clause (cs ds : List Condition) (hcs : ∀ name ∈ partNames cs, IsName name)
    (hds : ∀ name ∈ partNames ds, IsName name) (texts : (clause cs []).1 = (clause ds []).1)
    (binds : (Json.obj (clause cs []).2).same (.obj (clause ds []).2) = true) (doc : Document) :
    allHold doc cs = allHold doc ds := by
  rw [clause_nil, clause_nil] at texts binds
  have outlines := partOutlines_of_clauseWritten hcs hds texts
  have count : (partLiterals cs).length = (partLiterals ds).length := by
    rw [← length_partLiterals_outlines cs, outlines, length_partLiterals_outlines ds]
  have values : SameValues (partLiterals cs) (partLiterals ds) :=
    sameValues_of_numbered count fun name v => Json.exists_of_same_obj binds
  exact (parts_congr cs ds outlines values doc).1

/-- A home with its city and zip code. -/
def bonn : List (String × Json) := [("city", .str "Bonn"), ("zip", .num (.int 53111))]

/-- Adults who live there. The other wording has other kinds of short groups, and the fields of the home in
another order. -/
def residents (reworded : Bool) : List Condition :=
  let age := compare ⟨"x", "age"⟩ .ge (.num (.int 18))
  if reworded then [any [age], notAll [compare ⟨"x", "home"⟩ .ne (.obj bonn.reverse)], any []]
  else [all [age], notAll [compare ⟨"x", "home"⟩ .ne (.obj bonn)], all []]

/-- One of them. -/
def resident : Document := [("age", .num (.int 31)), ("home", .obj bonn)]

theorem allHold_eq_of_clause_residents :
    (clause (residents true) []).1 = " FILTER (x.age >= @value0) AND NOT (x.home != @value1) AND (true)" ∧
      allHold resident (residents true) = allHold resident (residents false) ∧
      allHold resident (residents false) = true :=
  ⟨by decide, allHold_eq_of_clause _ _ (by decide) (by decide) (by decide) (by decide) _, by decide +kernel⟩

end Condition

end DocGraph
