import Mathlib.Data.List.Forall2
import Mathlib.Data.List.Pairwise
import DocGraph.Filter.Like

/-! # Patterns and the texts that match them

A pattern is read in one way only (`Like.Reads`), and a text matches it if it can be cut into pieces, one for
each token (`Like.Cuts`). Where case is ignored, characters are compared by what their lower-case forms begin
with (`Text.Lowers`). The matcher looks at no cuts: it keeps a row that says of each beginning of the text
whether the tokens so far match it (`Like.Marks`). One more token keeps the row right (`Like.Marks.advance`),
so it is right after all of them (`Like.Marks.foldl`), and its last place is about the whole text. Main
statement: `Like.test_exact`. -/

namespace DocGraph.Text

/-! ### Lower-case forms -/

/-- A code point belongs to a run. -/
def CaseRun.Has (r : CaseRun) (n : Nat) : Prop :=
  r.first ≤ n ∧ n ≤ r.last ∧ (n - r.first) % r.step = 0

/-- `Lowers c l`: the lower-case form of `c` begins with `l`. A character of a run is moved by the shift of
the run, and one that belongs to no run is its own form. -/
inductive Lowers (c l : Char) : Prop
  | moved {r : CaseRun} (known : r ∈ lowerRuns) (has : r.Has c.toNat)
      (image : (l.toNat : Int) = c.toNat + r.shift) : Lowers c l
  | own (others : ∀ r ∈ lowerRuns, ¬ r.Has c.toNat) (same : l = c) : Lowers c l

/-- One run ends before the other one begins. -/
def CaseRun.Before (r r' : CaseRun) : Prop :=
  r.last < r'.first ∧ r'.first ≤ r'.last

instance : DecidableRel CaseRun.Before :=
  fun r r' => inferInstanceAs (Decidable (r.last < r'.first ∧ r'.first ≤ r'.last))

instance : Trans CaseRun.Before CaseRun.Before CaseRun.Before :=
  ⟨fun h h' => ⟨Nat.lt_trans (Nat.lt_of_lt_of_le h.1 h.2) h'.1, h'.2⟩⟩

/-- No code point belongs to both runs. -/
def CaseRun.Apart (r r' : CaseRun) : Prop :=
  ∀ n, r.Has n → ¬ r'.Has n

instance : Std.Symm CaseRun.Apart := ⟨fun _ _ h n has' has => h n has has'⟩

theorem CaseRun.Before.apart {r r' : CaseRun} (h : r.Before r') : r.Apart r' := by
  intro n has has'
  have above := has.2.1
  have below := has'.1
  have between := h.1
  omega

theorem lowerRuns_apart : lowerRuns.Pairwise CaseRun.Apart := by
  have ordered : lowerRuns.IsChain CaseRun.Before := by decide +kernel
  exact ordered.pairwise.imp CaseRun.Before.apart

theorem lowerRuns_valid : ∀ r ∈ lowerRuns, 0 ≤ r.first + r.shift ∧
    (r.last + r.shift < 0xD800 ∨ 0xDFFF < r.first + r.shift ∧ r.last + r.shift < 0x110000) := by
  decide +kernel

/-- A run leads from characters to characters. -/
theorem toNat_image {r : CaseRun} {n : Nat} (known : r ∈ lowerRuns) (has : r.Has n) :
    ((Char.ofNat ((n : Int) + r.shift).toNat).toNat : Int) = n + r.shift := by
  obtain ⟨least, bounds⟩ := lowerRuns_valid r known
  obtain ⟨low, high, _⟩ := has
  have valid : ((n : Int) + r.shift).toNat.isValidChar := by
    unfold Nat.isValidChar
    omega
  have same : (Char.ofNat ((n : Int) + r.shift).toNat).toNat = ((n : Int) + r.shift).toNat := by
    rw [Char.ofNat, dif_pos valid]
    rfl
  omega

theorem lowers_toLower (c : Char) : Lowers c (toLower c) := by
  rcases found : lowerRuns.findSome? fun r => r.image? c.toNat with _ | n
  · refine .own (fun r known has => ?_) (by simp [toLower, found])
    have image : r.image? c.toNat = some _ := if_pos has
    have missed := List.findSome?_eq_none_iff.mp found r known
    cases image.symm.trans missed
  · obtain ⟨r, known, image⟩ := List.exists_of_findSome?_eq_some found
    unfold CaseRun.image? at image
    split at image
    · rename_i has
      cases image
      have lower : toLower c = Char.ofNat ((c.toNat : Int) + r.shift).toNat := by simp [toLower, found]
      refine .moved known has ?_
      rw [lower]
      exact toNat_image known has
    · cases image

theorem Lowers.unique {c l l' : Char} (h : Lowers c l) (h' : Lowers c l') : l = l' := by
  cases h with
  | @moved r known has image =>
      cases h' with
      | @moved r' known' has' image' =>
          have same : r = r' := by
            by_contra other
            exact lowerRuns_apart.forall known known' other _ has has'
          rw [same] at image
          exact Char.toNat_inj.mp (by omega)
      | own others _ => exact absurd has (others _ known)
  | own others same =>
      cases h' with
      | moved known has _ => exact absurd has (others _ known)
      | own _ same' => rw [same, same']

/-- On the first 128 characters the forms are those of `Char.toLower`. -/
theorem lowers_ascii_iff {c l : Char} (ascii : c.toNat < 128) : Lowers c l ↔ l = c.toLower := by
  have all : ∀ n < 128, toLower (Char.ofNat n) = (Char.ofNat n).toLower := by decide +kernel
  have same := all c.toNat ascii
  rw [Char.ofNat_toNat] at same
  rw [← same]
  constructor
  · intro lowers
    exact lowers.unique (lowers_toLower c)
  · rintro rfl
    exact lowers_toLower c

theorem toLower_eq_iff {c d : Char} : toLower c = toLower d ↔ ∃ l, Lowers c l ∧ Lowers d l := by
  constructor
  · intro same
    refine ⟨toLower c, lowers_toLower c, ?_⟩
    rw [same]
    exact lowers_toLower d
  · rintro ⟨l, first, second⟩
    rw [(lowers_toLower c).unique first, (lowers_toLower d).unique second]

end DocGraph.Text

namespace DocGraph.Like

variable {ignoreCase : Bool} {text : List Char} {row : List Bool} {P Q : List Char → Prop} {t : Token}
  {ts : List Token}

/-! ### Tokens -/

/-- How a pattern reads: a per cent sign, an underscore, a backslash with the character after it, a
backslash at the end, or any other character. -/
inductive Reads : List Char → List Token → Prop
  | nil : Reads [] []
  | any {p : List Char} {ts : List Token} (rest : Reads p ts) : Reads ('%' :: p) (.any :: ts)
  | one {p : List Char} {ts : List Token} (rest : Reads p ts) : Reads ('_' :: p) (.one :: ts)
  | escaped {p : List Char} {ts : List Token} (c : Char) (rest : Reads p ts) :
      Reads ('\\' :: c :: p) (.char c :: ts)
  | backslash : Reads ['\\'] [.char '\\']
  | plain {p : List Char} {ts : List Token} {c : Char} (notAny : c ≠ '%') (notOne : c ≠ '_')
      (notEscape : c ≠ '\\') (rest : Reads p ts) : Reads (c :: p) (.char c :: ts)

theorem reads_tokens (p : List Char) : Reads p (tokens p) := by
  fun_induction tokens p with
  | case1 => exact .nil
  | case2 p ih => exact .any ih
  | case3 p ih => exact .one ih
  | case4 c p ih => exact .escaped c ih
  | case5 c p notAny notOne notEscaped ih =>
      by_cases escape : c = '\\'
      · subst escape
        cases p with
        | nil => exact .backslash
        | cons d p => exact absurd rfl (notEscaped d p rfl)
      · exact .plain notAny notOne escape ih

theorem Reads.eq_tokens {p : List Char} (h : Reads p ts) : ts = tokens p := by
  induction h with
  | nil | backslash => rfl
  | any _ ih | one _ ih | escaped _ _ ih => rw [tokens, ih]
  | plain notAny notOne notEscape _ ih =>
      rw [tokens, ih]
      · exact notAny
      · exact notOne
      · exact fun _ _ same => absurd same notEscape

/-! ### Cuts -/

/-- The piece of a text that a token takes: anything, any one character, or the character of the token; if
case is ignored, also one whose lower-case form begins with the same character. -/
inductive Token.Takes (ignoreCase : Bool) : Token → List Char → Prop
  | any (piece : List Char) : Takes ignoreCase .any piece
  | one (d : Char) : Takes ignoreCase .one [d]
  | char (c : Char) : Takes ignoreCase (.char c) [c]
  | lower {c d l : Char} (ignored : ignoreCase = true) (token : Text.Lowers c l)
      (piece : Text.Lowers d l) : Takes ignoreCase (.char c) [d]

theorem Token.takes_char {c : Char} {w : List Char} :
    Token.Takes ignoreCase (.char c) w ↔ ∃ d, [d] = w ∧ Like.fold ignoreCase d = Like.fold ignoreCase c := by
  constructor
  · intro taken
    cases taken with
    | char => exact ⟨c, rfl, rfl⟩
    | @lower _ d l ignored token piece =>
        refine ⟨d, rfl, ?_⟩
        simp only [Like.fold, ignored, if_true]
        exact Text.toLower_eq_iff.mpr ⟨l, piece, token⟩
  · rintro ⟨d, rfl, same⟩
    cases ignoreCase with
    | false =>
        have same : d = c := same
        rw [same]
        exact .char c
    | true =>
        obtain ⟨l, piece, token⟩ := Text.toLower_eq_iff.mp same
        exact .lower rfl token piece

/-- A text can be cut into pieces that tokens take, one each. -/
def Cuts (ignoreCase : Bool) (ts : List Token) (text : List Char) : Prop :=
  ∃ pieces, pieces.flatten = text ∧ List.Forall₂ (Token.Takes ignoreCase) ts pieces

theorem cuts_nil : Cuts ignoreCase [] text ↔ text = [] := by
  constructor
  · rintro ⟨pieces, rfl, taken⟩
    cases taken
    rfl
  · rintro rfl
    exact ⟨[], rfl, .nil⟩

theorem cuts_cons :
    Cuts ignoreCase (t :: ts) text ↔ ∃ a b, a ++ b = text ∧ t.Takes ignoreCase a ∧ Cuts ignoreCase ts b := by
  constructor
  · rintro ⟨pieces, rfl, taken⟩
    cases taken with
    | cons first rest => exact ⟨_, _, List.flatten_cons.symm, first, _, rfl, rest⟩
  · rintro ⟨a, b, rfl, first, pieces, rfl, rest⟩
    exact ⟨a :: pieces, List.flatten_cons, .cons first rest⟩

/-! ### Rows -/

/-- A row says which beginnings of a text meet a condition. -/
structure Marks (text : List Char) (row : List Bool) (P : List Char → Prop) : Prop where
  length : row.length = text.length + 1
  get : ∀ j ≤ text.length, row[j]? = some true ↔ P (text.take j)

theorem Marks.congr (h : Marks text row P) (same : ∀ a, P a ↔ Q a) : Marks text row Q :=
  ⟨h.length, fun j hj => (h.get j hj).trans (same _)⟩

theorem marks_start (text : List Char) (f : Char → Char) :
    Marks text (start (text.map f)) fun a => a = [] := by
  refine ⟨by simp [start], fun j hj => ?_⟩
  cases j with
  | zero => simp [start]
  | succ j =>
      have nonempty : text ≠ [] := List.ne_nil_of_length_pos (Nat.zero_lt_of_lt hj)
      simp [start, nonempty, List.getElem?_replicate]

/-- The rows of tokens that take one character: a beginning is marked if the one before it was and its last
character is among those taken. -/
theorem Marks.shift (h : Marks text row P) (next : List Bool) (R : Char → Prop)
    (length : next.length = text.length + 1) (first : next[0]? = some false)
    (later : ∀ j d, text[j]? = some d → (next[j + 1]? = some true ↔ row[j]? = some true ∧ R d)) :
    Marks text next fun b => ∃ a d, a ++ [d] = b ∧ P a ∧ R d := by
  refine ⟨length, fun j hj => ?_⟩
  cases j with
  | zero => simp [first]
  | succ j =>
      have here := List.getElem?_eq_getElem hj
      rw [later j _ here, h.get j (Nat.le_of_lt hj), List.take_add_one, here, Option.toList_some]
      constructor
      · rintro ⟨held, taken⟩
        exact ⟨_, _, rfl, held, taken⟩
      · rintro ⟨a, d, cut, held, taken⟩
        obtain ⟨rfl, last⟩ := List.append_inj' cut rfl
        exact ⟨held, List.singleton_inj.mp last ▸ taken⟩

theorem length_spread (seen : Bool) (row : List Bool) : (spread seen row).length = row.length := by
  induction row generalizing seen with
  | nil => rfl
  | cons b row ih => rw [spread, List.length_cons, List.length_cons, ih]

/-- A place holds after spreading if it or one before it held. -/
theorem getElem?_spread (seen : Bool) (row : List Bool) {j : Nat} (hj : j < row.length) :
    (spread seen row)[j]? = some true ↔ seen = true ∨ ∃ k ≤ j, row[k]? = some true := by
  induction row generalizing seen j with
  | nil => exact absurd hj (Nat.not_lt_zero j)
  | cons b row ih =>
      cases j with
      | zero => simp [spread]
      | succ j =>
          rw [spread, List.getElem?_cons_succ, ih _ (Nat.lt_of_succ_lt_succ hj), Bool.or_eq_true, or_assoc]
          refine or_congr_right ⟨?_, ?_⟩
          · rintro (here | ⟨k, hk, later⟩)
            · exact ⟨0, Nat.zero_le _, by rw [here, List.getElem?_cons_zero]⟩
            · exact ⟨k + 1, Nat.succ_le_succ hk, later⟩
          · rintro ⟨k, hk, there⟩
            cases k with
            | zero => exact .inl (by simpa using there)
            | succ k => exact .inr ⟨k, Nat.le_of_succ_le_succ hk, there⟩

/-- The row of a token that takes any piece: a beginning is marked if some beginning of it was. -/
theorem Marks.spread (h : Marks text row P) :
    Marks text (spread false row) fun b => ∃ a w, a ++ w = b ∧ P a := by
  refine ⟨(length_spread _ _).trans h.length, fun j hj => ?_⟩
  rw [getElem?_spread false row (h.length ▸ Nat.lt_succ_of_le hj)]
  simp only [Bool.false_eq_true, false_or]
  constructor
  · rintro ⟨k, hk, marked⟩
    refine ⟨text.take k, (text.take j).drop k, ?_, (h.get k (Nat.le_trans hk hj)).mp marked⟩
    rw [← Nat.min_eq_left hk, ← List.take_take, Nat.min_eq_left hk, List.take_append_drop]
  · rintro ⟨a, w, cut, held⟩
    have beginning : a <+: text.take j := ⟨w, cut⟩
    have short : a.length ≤ j := Nat.le_trans beginning.length_le (List.length_take_le j text)
    rw [List.prefix_iff_eq_take.mp (beginning.trans (List.take_prefix j text))] at held
    exact ⟨a.length, short, (h.get _ (Nat.le_trans short hj)).mpr held⟩

/-- One more token: the beginnings that are marked now are those marked before with a piece that the token
takes. -/
theorem Marks.advance (h : Marks text row P) (t : Token) :
    Marks text (advance (text.map (fold ignoreCase)) row (t.fold ignoreCase)) fun b =>
      ∃ a w, a ++ w = b ∧ P a ∧ t.Takes ignoreCase w := by
  cases t with
  | any =>
      refine h.spread.congr fun b => ⟨?_, ?_⟩
      · rintro ⟨a, w, cut, held⟩
        exact ⟨a, w, cut, held, .any w⟩
      · rintro ⟨a, w, cut, held, _⟩
        exact ⟨a, w, cut, held⟩
  | one =>
      have shifted := h.shift (false :: row.dropLast) (fun _ => True) (by simp [h.length]) rfl ?_
      · refine shifted.congr fun b => ⟨?_, ?_⟩
        · rintro ⟨a, d, cut, held, _⟩
          exact ⟨a, [d], cut, held, .one d⟩
        · rintro ⟨a, w, cut, held, taken⟩
          cases taken with
          | one d => exact ⟨a, d, cut, held, trivial⟩
      · intro j d here
        have inside : j < row.length - 1 := by
          rw [h.length]
          exact (List.getElem?_eq_some_iff.mp here).1
        rw [List.getElem?_cons_succ, List.getElem?_dropLast, if_pos inside, and_true]
  | char c =>
      have shifted := h.shift
        (false :: List.zipWith (fun d b => b && d == fold ignoreCase c) (text.map (fold ignoreCase)) row)
        (fun d => fold ignoreCase d = fold ignoreCase c) (by simp [h.length]) rfl ?_
      · refine shifted.congr fun b => ⟨?_, ?_⟩
        · rintro ⟨a, d, cut, held, same⟩
          exact ⟨a, [d], cut, held, Token.takes_char.mpr ⟨d, rfl, same⟩⟩
        · rintro ⟨a, w, cut, held, taken⟩
          obtain ⟨d, rfl, same⟩ := Token.takes_char.mp taken
          exact ⟨a, d, cut, held, same⟩
      · intro j d here
        rw [List.getElem?_cons_succ, List.getElem?_zipWith, List.getElem?_map, here]
        cases row[j]? with
        | none => simp
        | some b => simp

/-- After all tokens, the beginnings that are marked are those marked before with a part that can be cut into
pieces for the tokens. -/
theorem Marks.foldl (h : Marks text row P) (ignoreCase : Bool) (ts : List Token) :
    Marks text ((ts.map (Token.fold ignoreCase)).foldl (Like.advance (text.map (fold ignoreCase))) row)
      fun b => ∃ a w, a ++ w = b ∧ P a ∧ Cuts ignoreCase ts w := by
  induction ts generalizing row P with
  | nil =>
      refine h.congr fun b => ⟨fun held => ⟨b, [], List.append_nil b, held, cuts_nil.mpr rfl⟩, ?_⟩
      rintro ⟨a, w, rfl, held, cut⟩
      rwa [cuts_nil.mp cut, List.append_nil]
  | cons t ts ih =>
      refine (ih (h.advance t)).congr fun b => ⟨?_, ?_⟩
      · rintro ⟨_, w, rfl, ⟨a, v, rfl, held, taken⟩, cut⟩
        exact ⟨a, v ++ w, (List.append_assoc a v w).symm, held, cuts_cons.mpr ⟨v, w, rfl, taken, cut⟩⟩
      · rintro ⟨a, w, rfl, held, cut⟩
        obtain ⟨v, w, rfl, taken, cut⟩ := cuts_cons.mp cut
        exact ⟨a ++ v, w, List.append_assoc a v w, ⟨a, v, rfl, held, taken⟩, cut⟩

/-- The last place of a row is about the whole text. -/
theorem Marks.getLastD (h : Marks text row P) : row.getLastD false = true ↔ P text := by
  have last := h.get text.length (Nat.le_refl _)
  rw [List.take_length] at last
  rw [← last, List.getLastD_eq_getLast?, List.getLast?_eq_getElem?, h.length, Nat.add_sub_cancel]
  cases row[text.length]? with
  | none => simp
  | some b => simp

/-- Matching is exact. A pattern has one reading, and a text matches the pattern just in case it can be cut
into consecutive pieces, one for each token: any text for a per cent sign, any one character for an
underscore, and else the character itself, or if case is ignored one whose lower-case form begins with the
same character. -/
theorem test_exact (value pattern : String) (ignoreCase : Bool) :
    ∃ ts, (∀ us, Reads pattern.toList us ↔ us = ts) ∧
      (test value pattern ignoreCase = true ↔ ∃ pieces, pieces.flatten = value.toList ∧
        List.Forall₂ (Token.Takes ignoreCase) ts pieces) := by
  refine ⟨tokens pattern.toList, fun us => ⟨Reads.eq_tokens, ?_⟩, ?_⟩
  · rintro rfl
    exact reads_tokens _
  · have marks := (marks_start value.toList (fold ignoreCase)).foldl ignoreCase (tokens pattern.toList)
    refine marks.getLastD.trans ⟨?_, fun cut => ⟨[], value.toList, rfl, rfl, cut⟩⟩
    rintro ⟨_, w, whole, rfl, cut⟩
    rwa [← whole]

end DocGraph.Like
