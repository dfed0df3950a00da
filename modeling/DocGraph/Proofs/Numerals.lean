import DocGraph.Number.Reader

/-! # The texts of numbers

The text of a number is read alike wherever it stands: it is made of characters of numerals
(`Number.parts_text`), and the reader of numerals takes of it what it would take of the text alone if
what follows cannot belong to a numeral (`Numeral.read_append`). `Number.reread?` is the number that it is read
as. For whole numbers of 64 bits that is the number itself (`Number.reread?_int`); of doubles some are read as
their neighbours, since digits are gathered first and scaled afterwards with rounding. -/

namespace DocGraph

namespace Numeral

variable {cs rest : List Char} {c : Char}

/-! ### What follows a numeral -/

/-- The characters that numerals are made of. -/
def isPart (c : Char) : Bool :=
  c.isDigit || ['+', '-', '.', 'e', 'E'].contains c

/-- A numeral cannot go on with the text. -/
def Stops (rest : List Char) : Prop :=
  ∀ c ∈ rest.head?, isPart c = false

theorem stops_nil : Stops [] := by
  intro c mem
  cases mem

theorem stops_cons : Stops (c :: rest) ↔ isPart c = false := by
  simp [Stops]

theorem Stops.head?_ne (stops : Stops rest) (part : isPart c = true) : rest.head? ≠ some c := by
  intro same
  have other := stops c same
  rw [other] at part
  cases part

theorem Stops.head?_append_ne (stops : Stops rest) (part : isPart c = true) (h : cs.head? ≠ some c) :
    (cs ++ rest).head? ≠ some c := by
  cases cs with
  | nil => exact stops.head?_ne part
  | cons d cs => exact h

theorem digits_of_stops (stops : Stops rest) : digits rest = ([], rest) := by
  cases rest with
  | nil => rfl
  | cons c rest =>
      have other : c.isDigit = false := by
        have := stops_cons.mp stops
        simp_all [isPart]
      simp [digits, other]

theorem digits_cons (digit : c.isDigit = true) (cs : List Char) :
    digits (c :: cs) = ((c.toNat - '0'.toNat) :: (digits cs).1, (digits cs).2) := by
  simp [digits, digit, digit?]

theorem digits_append (stops : Stops rest) (cs : List Char) :
    digits (cs ++ rest) = ((digits cs).1, (digits cs).2 ++ rest) := by
  induction cs with
  | nil => exact digits_of_stops stops
  | cons c cs ih =>
      by_cases digit : c.isDigit = true
      · rw [List.cons_append, digits_cons digit, digits_cons digit, ih]
      · simp [digits, digit]

/-- What is read of a text, with more text after it. -/
abbrev before {α : Type} (rest : List Char) : α × List Char → α × List Char :=
  fun p => (p.1, p.2 ++ rest)

theorem readWhole_of_digits (h : cs.head? ≠ some '0') :
    readWhole cs = if (digits cs).1 = [] then none else some (digits cs) := by
  unfold readWhole
  split
  · exact absurd rfl h
  · split
    · rename_i none
      rw [none]
      rfl
    · rename_i ds rest nonempty read
      rw [read, if_neg fun empty => nonempty empty]

theorem readWhole_append (stops : Stops rest) (cs : List Char) :
    readWhole (cs ++ rest) = (readWhole cs).map (before rest) := by
  cases cs with
  | nil =>
      rw [List.nil_append, readWhole_of_digits (stops.head?_ne (by decide)), digits_of_stops stops]
      rfl
  | cons c cs =>
      by_cases zero : c = '0'
      · subst zero
        rfl
      · have other : ∀ l, (c :: l).head? ≠ some '0' := by
          intro l same
          exact zero (Option.some.inj same)
        rw [List.cons_append, readWhole_of_digits (other _), readWhole_of_digits (other _), ← List.cons_append,
          digits_append stops]
        split <;> rfl

theorem readFraction_append (stops : Stops rest) (cs : List Char) :
    readFraction (cs ++ rest) = (readFraction cs).map (before rest) := by
  have plain : ∀ l : List Char, l.head? ≠ some '.' → readFraction l = some (none, l) := by
    intro l other
    unfold readFraction
    split
    · exact absurd rfl other
    · rfl
  by_cases point : cs.head? = some '.'
  · obtain ⟨cs, rfl⟩ := List.head?_eq_some_iff.mp point
    simp only [List.cons_append, readFraction, digits_append stops]
    rcases digits cs with ⟨_ | _, _⟩ <;> rfl
  · rw [plain _ point, plain _ (stops.head?_append_ne (by decide) point)]
    rfl

theorem readSign_append (stops : Stops rest) (cs : List Char) :
    readSign (cs ++ rest) = before rest (readSign cs) := by
  cases cs with
  | nil =>
      rw [List.nil_append]
      unfold readSign
      split
      · exact absurd rfl (stops.head?_ne (by decide))
      · exact absurd rfl (stops.head?_ne (by decide))
      · rfl
  | cons c cs =>
      rw [List.cons_append]
      unfold readSign
      split <;> simp_all

theorem readExponent_append (stops : Stops rest) (cs : List Char) :
    readExponent (cs ++ rest) = (readExponent cs).map (before rest) := by
  cases cs with
  | nil =>
      cases rest with
      | nil => rfl
      | cons c rest =>
          have unmarked : ¬ (c = 'e' ∨ c = 'E') := by
            rintro (rfl | rfl) <;> exact stops.head?_ne (by decide) rfl
          simp [readExponent, unmarked]
  | cons c cs =>
      rw [List.cons_append, readExponent, readExponent]
      split
      · simp only [readSign_append stops, digits_append stops]
        rcases digits (readSign cs).2 with ⟨_ | _, _⟩ <;> rfl
      · rfl

theorem readUnsigned_append (stops : Stops rest) (negative : Bool) (cs : List Char) :
    readUnsigned negative (cs ++ rest) = (readUnsigned negative cs).map (before rest) := by
  unfold readUnsigned
  rw [readWhole_append stops]
  rcases readWhole cs with _ | ⟨whole, cs₁⟩
  · rfl
  · simp only [Option.map_some, Option.bind_eq_bind, Option.bind_some, readFraction_append stops]
    rcases readFraction cs₁ with _ | ⟨fraction, cs₂⟩
    · rfl
    · simp only [Option.map_some, Option.bind_some, readExponent_append stops]
      rcases readExponent cs₂ with _ | ⟨exponent, cs₃⟩ <;> rfl

theorem read_of_head? (h : cs.head? ≠ some '-') : read cs = readUnsigned false cs := by
  unfold read
  split
  · exact absurd rfl h
  · rfl

/-- The numeral at the head of a text does not depend on what follows, if that cannot belong to it. -/
theorem read_append (stops : Stops rest) (cs : List Char) :
    read (cs ++ rest) = (read cs).map (before rest) := by
  by_cases negative : cs.head? = some '-'
  · obtain ⟨cs, rfl⟩ := List.head?_eq_some_iff.mp negative
    exact readUnsigned_append stops true cs
  · rw [read_of_head? negative, read_of_head? (stops.head?_append_ne (by decide) negative)]
    exact readUnsigned_append stops false cs

/-! ### What is left over -/

theorem digits_suffix (cs : List Char) : (digits cs).2 <:+ cs :=
  List.dropWhile_suffix _

theorem readWhole_suffix {p : List Nat × List Char} (h : readWhole cs = some p) : p.2 <:+ cs := by
  unfold readWhole at h
  split at h
  · cases h
    exact List.suffix_cons _ _
  · have suffix := digits_suffix cs
    split at h
    · cases h
    · rename_i read
      cases h
      rw [read] at suffix
      exact suffix

theorem readFraction_suffix {p : Option (List Nat) × List Char} (h : readFraction cs = some p) : p.2 <:+ cs := by
  unfold readFraction at h
  split at h
  · rename_i cs
    have suffix := digits_suffix cs
    split at h
    · cases h
    · rename_i read
      cases h
      rw [read] at suffix
      exact suffix.trans (List.suffix_cons _ _)
  · cases h
    exact List.suffix_refl _

theorem readSign_suffix (cs : List Char) : (readSign cs).2 <:+ cs := by
  unfold readSign
  split
  · exact List.suffix_cons _ _
  · exact List.suffix_cons _ _
  · exact List.suffix_refl _

theorem readExponent_suffix {p : Option (Bool × List Nat) × List Char} (h : readExponent cs = some p) :
    p.2 <:+ cs := by
  unfold readExponent at h
  split at h
  · cases h
    exact List.suffix_refl _
  · rename_i c cs
    split at h
    · have suffix := (digits_suffix (readSign cs).2).trans (readSign_suffix cs)
      dsimp only at h
      split at h
      · cases h
      · rename_i read
        cases h
        rw [read] at suffix
        exact suffix.trans (List.suffix_cons _ _)
    · cases h
      exact List.suffix_refl _

theorem readUnsigned_suffix {negative : Bool} {w : Numeral} {left : List Char}
    (h : readUnsigned negative cs = some (w, left)) : left <:+ cs := by
  obtain ⟨⟨whole, cs₁⟩, first, h⟩ := Option.bind_eq_some_iff.mp h
  obtain ⟨⟨fraction, cs₂⟩, second, h⟩ := Option.bind_eq_some_iff.mp h
  obtain ⟨⟨exponent, cs₃⟩, third, h⟩ := Option.bind_eq_some_iff.mp h
  cases h
  exact (readExponent_suffix third).trans ((readFraction_suffix second).trans (readWhole_suffix first))

theorem read_suffix {w : Numeral} {left : List Char} (h : read cs = some (w, left)) : left <:+ cs := by
  unfold read at h
  split at h
  · exact (readUnsigned_suffix h).trans (List.suffix_cons _ _)
  · exact readUnsigned_suffix h

/-! ### Texts of numbers -/

/-- A text of characters of numerals. -/
def Parts (cs : List Char) : Prop :=
  ∀ c ∈ cs, isPart c = true

instance (cs : List Char) : Decidable (Parts cs) :=
  List.decidableBAll (fun c => isPart c = true) cs

theorem Parts.append {ds : List Char} (h : Parts cs) (h' : Parts ds) : Parts (cs ++ ds) :=
  List.forall_mem_append.mpr ⟨h, h'⟩

theorem parts_zeros (k : Nat) : Parts (List.replicate k '0') := by
  intro c mem
  rw [List.eq_of_mem_replicate mem]
  decide

theorem parts_toDigits (n : Nat) : Parts (Nat.toDigits 10 n) := by
  intro c mem
  simp [isPart, Nat.isDigit_of_mem_toDigits (by decide) (by decide) mem]

end Numeral

open Numeral

theorem Double.parts_layout {digits : List Char} (parts : Parts digits) (point : Int) :
    Parts (layout digits point) := by
  have taken : ∀ k, Parts (digits.take k) := fun k c mem => parts c (List.mem_of_mem_take mem)
  have dropped : ∀ k, Parts (digits.drop k) := fun k c mem => parts c (List.mem_of_mem_drop mem)
  have start : Parts ['0', '.'] := by decide
  have dot : Parts ['.'] := by decide
  have zero : Parts ['0'] := by decide
  unfold layout
  split
  · split
    · exact (start.append (parts_zeros _)).append parts
    · refine (((taken _).append (parts_zeros _)).append dot).append ?_
      split
      · exact zero
      · exact dropped _
  · have fraction : Parts (if (digits.drop 1).isEmpty then [] else '.' :: digits.drop 1) := by
      split
      · decide
      · exact dot.append (dropped 1)
    have mark : Parts ['e', if point - 1 < 0 then '-' else '+'] := by
      split <;> decide
    exact (((taken 1).append fraction).append mark).append (parts_toDigits _)

theorem Double.layout_ne_nil (digits : List Char) (point : Int) : layout digits point ≠ [] := by
  unfold layout
  split
  · split <;> simp
  · simp

namespace Number

theorem toList_text_nat (n : Nat) : (Number.int n).text.toList = Nat.toDigits 10 n :=
  Nat.toList_repr

theorem toList_text_neg (n : Nat) :
    (Number.int (Int.negSucc n)).text.toList = '-' :: Nat.toDigits 10 (n + 1) := by
  show ("-" ++ (n + 1).repr).toList = _
  rw [String.toList_append, Nat.toList_repr]
  rfl

theorem parts_text (n : Number) : Parts n.text.toList := by
  have minus : Parts ['-'] := by decide
  cases n with
  | int n =>
      cases n with
      | ofNat n => exact (toList_text_nat n).symm ▸ parts_toDigits n
      | negSucc n => exact (toList_text_neg n).symm ▸ minus.append (parts_toDigits (n + 1))
  | double x =>
      have sign : Parts (if x.negative then ['-'] else []) := by
        split <;> decide
      have zero : Parts ['0', '.', '0'] := by decide
      show Parts x.text.toList
      unfold Double.text
      dsimp only
      split
      · rw [String.toList_ofList]
        exact sign.append zero
      · rw [String.toList_ofList]
        exact sign.append (Double.parts_layout (parts_toDigits _) _)

theorem text_ne_nil (n : Number) : n.text.toList ≠ [] := by
  cases n with
  | int n =>
      cases n with
      | ofNat n => exact (toList_text_nat n).symm ▸ Nat.toDigits_ne_nil
      | negSucc n => exact (toList_text_neg n).symm ▸ List.cons_ne_nil _ _
  | double x =>
      show x.text.toList ≠ []
      unfold Double.text
      dsimp only
      split
      · simp
      · simp [Double.layout_ne_nil]

/-! ### Reading the text of a number -/

/-- The number that the text of a number is read as, if it is a numeral of a number. -/
def reread? (n : Number) : Option Number :=
  match Numeral.read n.text.toList with
  | some (w, []) => w.number?
  | _ => none

end Number

namespace Numeral

/-! ### Whole numbers -/

theorem head?_toDigits {n : Nat} (pos : 0 < n) : (Nat.toDigits 10 n).head? ≠ some '0' := by
  induction n using Nat.strongRecOn with
  | ind n ih =>
      rw [Nat.toDigits_eq_if (by decide)]
      split
      · rename_i small
        have digits : ∀ n < 10, 0 < n → Nat.digitChar n ≠ '0' := by decide
        intro same
        exact digits n small pos (Option.some.inj same)
      · have first := ih (n / 10) (by omega) (by omega)
        cases start : Nat.toDigits 10 (n / 10) with
        | nil => exact absurd start Nat.toDigits_ne_nil
        | cons c cs =>
            rw [start] at first
            exact first

/-- The values of the digits of a number. -/
def digitsOf (n : Nat) : List Nat :=
  (Nat.toDigits 10 n).map fun c => c.toNat - '0'.toNat

theorem digits_toDigits (n : Nat) : digits (Nat.toDigits 10 n) = (digitsOf n, []) := by
  have all : ∀ c ∈ Nat.toDigits 10 n, c.isDigit = true := fun c mem =>
    Nat.isDigit_of_mem_toDigits (by decide) (by decide) mem
  unfold digitsOf
  generalize Nat.toDigits 10 n = cs at all
  induction cs with
  | nil => rfl
  | cons c cs ih =>
      obtain ⟨digit, others⟩ := List.forall_mem_cons.mp all
      rw [digits_cons digit, ih others, List.map_cons]

theorem readWhole_toDigits (n : Nat) : readWhole (Nat.toDigits 10 n) = some (digitsOf n, []) := by
  rcases Nat.eq_zero_or_pos n with rfl | pos
  · rfl
  · have some_digits : digitsOf n ≠ [] := by
      simp [digitsOf, Nat.toDigits_ne_nil]
    rw [readWhole_of_digits (head?_toDigits pos), digits_toDigits, if_neg some_digits]

theorem readUnsigned_toDigits (negative : Bool) (n : Nat) :
    readUnsigned negative (Nat.toDigits 10 n) = some (⟨negative, digitsOf n, none, none⟩, []) := by
  rw [readUnsigned, readWhole_toDigits]
  rfl

theorem le_foldl (ds : List Nat) (n : Nat) : n ≤ ds.foldl (fun n d => n * 10 + d) n := by
  induction ds generalizing n with
  | nil => exact Nat.le_refl n
  | cons d ds ih =>
      have := ih (n * 10 + d)
      rw [List.foldl_cons]
      omega

/-- Digits are gathered up to their value if that fits in 64 bits; otherwise some are left over. -/
theorem gather_eq (ds : List Nat) (n : Nat) (small : n < Nat.pow 2 64) :
    (ds.foldl (fun n d => n * 10 + d) n < Nat.pow 2 64 → gather n ds = (ds.foldl (fun n d => n * 10 + d) n, [])) ∧
      (Nat.pow 2 64 ≤ ds.foldl (fun n d => n * 10 + d) n → (gather n ds).2 ≠ []) := by
  induction ds generalizing n with
  | nil => exact ⟨fun _ => rfl, fun large => absurd small (Nat.not_lt.mpr large)⟩
  | cons d ds ih =>
      rw [List.foldl_cons, gather]
      split
      · rename_i fits
        exact ih (n * 10 + d) fits
      · rename_i large
        have grows := le_foldl ds (n * 10 + d)
        refine ⟨fun fits => absurd (Nat.lt_of_le_of_lt grows fits) large, fun _ => List.cons_ne_nil _ _⟩

theorem foldl_digitsOf (n : Nat) : (digitsOf n).foldl (fun n d => n * 10 + d) 0 = n := by
  have value := Nat.ofDigitChars_ten_toDigits (n := n)
  rw [Nat.ofDigitChars_eq_foldl] at value
  rw [digitsOf, List.foldl_map]
  simpa only [Nat.mul_comm] using value

theorem number?_of_small {n : Nat} (small : n < Nat.pow 2 64) (negative : Bool) :
    number? ⟨negative, digitsOf n, none, none⟩ = some (if negative then
      if n = 0 ∨ Nat.pow 2 63 < n then .double { Double.ofInt n with negative := true } else .int (-n)
      else .int n) := by
  have gathered : gather 0 (digitsOf n) = (n, []) := by
    have value := (gather_eq (digitsOf n) 0 (by decide)).1
    rw [foldl_digitsOf] at value
    exact value small
  unfold number?
  dsimp only
  rw [gathered]
  cases negative <;> rfl

/-- Digits that do not fit in 64 bits make a double. -/
theorem number?_of_large {n : Nat} (large : Nat.pow 2 64 ≤ n) (negative : Bool) (m : Int) :
    number? ⟨negative, digitsOf n, none, none⟩ ≠ some (.int m) := by
  have left : (gather 0 (digitsOf n)).2 ≠ [] := by
    have value := (gather_eq (digitsOf n) 0 (by decide)).2
    rw [foldl_digitsOf] at value
    exact value large
  unfold number?
  dsimp only
  generalize gather 0 (digitsOf n) = gathered at left
  rcases gathered with ⟨k, _ | ⟨d, ds⟩⟩
  · exact absurd rfl left
  · intro same
    obtain ⟨x, _, number⟩ := Option.map_eq_some_iff.mp same
    cases number

end Numeral

namespace Number

theorem reread?_nat (n : Nat) :
    (Number.int n).reread? = (⟨false, digitsOf n, none, none⟩ : Numeral).number? := by
  have unsigned : (Nat.toDigits 10 n).head? ≠ some '-' := by
    intro minus
    have digit := Nat.isDigit_of_mem_toDigits (by decide) (by decide) (List.mem_of_mem_head? minus)
    cases digit
  rw [reread?, toList_text_nat, read_of_head? unsigned, readUnsigned_toDigits]

theorem reread?_neg (n : Nat) :
    (Number.int (Int.negSucc n)).reread? = (⟨true, digitsOf (n + 1), none, none⟩ : Numeral).number? := by
  rw [reread?, toList_text_neg, Numeral.read, readUnsigned_toDigits]

/-- A whole number is read as itself if it is one of 64 bits, with a sign or without. -/
theorem reread?_int (n : Int) :
    (Number.int n).reread? = some (.int n) ↔ -(Nat.pow 2 63 : Int) ≤ n ∧ n < (Nat.pow 2 64 : Int) := by
  have half : Nat.pow 2 64 = 2 * Nat.pow 2 63 := rfl
  cases n with
  | ofNat n =>
      rw [Int.ofNat_eq_natCast, reread?_nat]
      by_cases small : n < Nat.pow 2 64
      · exact iff_of_true (number?_of_small small false) (by omega)
      · exact iff_of_false (number?_of_large (Nat.not_lt.mp small) false n) (by omega)
  | negSucc n =>
      rw [reread?_neg]
      by_cases small : n + 1 < Nat.pow 2 64
      · rw [number?_of_small small, if_pos rfl]
        by_cases wide : n + 1 = 0 ∨ Nat.pow 2 63 < n + 1
        · rw [if_pos wide]
          refine iff_of_false (fun same => ?_) (by omega)
          cases same
        · rw [if_neg wide]
          exact iff_of_true rfl (by omega)
      · exact iff_of_false (number?_of_large (Nat.not_lt.mp small) true _) (by omega)

end Number

end DocGraph
