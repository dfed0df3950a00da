import DocGraph.Json.Reader
import DocGraph.Proofs.Numerals

/-! # Reading JSON text back

What is read from the text of a value (`parse?_text`): texts come back as they are, numbers as their texts are
read (`Number.reread?`), and objects with their fields collected anew; a value with too many arrays and objects
inside one another is refused. So a value comes back as it was just if it is not too deep, no object in it
repeats a name, and each of its numbers alone comes back (`reread?_eq_some_iff`). -/

namespace DocGraph

/-! ### Quoted texts -/

/-- How a character is quoted: as itself, by a letter, or by its number. -/
theorem Text.quotedChar_cases (c : Char) :
    (c ≠ '"' ∧ c ≠ '\\' ∧ ¬ c.toNat < 32 ∧ quotedChar c = [c]) ∨
      (∃ d, d ≠ 'u' ∧ Json.escape? d = some c ∧ quotedChar c = ['\\', d]) ∨
        (c.toNat < 32 ∧ quotedChar c = '\\' :: 'u' :: hex4 c.toNat) := by
  by_cases lettered : c ∈ ['"', '\\', '\n', '\r', '\t', '\x08', '\x0c']
  · refine .inr (.inl ?_)
    simp only [List.mem_cons, List.not_mem_nil, or_false] at lettered
    rcases lettered with rfl | rfl | rfl | rfl | rfl | rfl | rfl <;> exact ⟨_, by decide, rfl, rfl⟩
  · simp only [List.mem_cons, List.not_mem_nil, or_false, not_or] at lettered
    obtain ⟨quote, backslash, others⟩ := lettered
    by_cases control : c.toNat < 32
    · exact .inr (.inr ⟨control, by simp [quotedChar, *]⟩)
    · exact .inl ⟨quote, backslash, control, by simp [quotedChar, *]⟩

/-- The four digits of a small number. -/
theorem Text.hex4_of_small {n : Nat} (small : n < 32) :
    hex4 n = ['0', '0', Nat.digitChar (n / 16), Nat.digitChar (n % 16)] ∧
      Json.hexDigit? (Nat.digitChar (n / 16)) = some (n / 16) ∧
        Json.hexDigit? (Nat.digitChar (n % 16)) = some (n % 16) := by
  have all : ∀ n < 32, hex4 n = ['0', '0', Nat.digitChar (n / 16), Nat.digitChar (n % 16)] ∧
      Json.hexDigit? (Nat.digitChar (n / 16)) = some (n / 16) ∧
        Json.hexDigit? (Nat.digitChar (n % 16)) = some (n % 16) := by decide
  exact all n small

namespace Json

variable {depth room : Nat} {cs rest : List Char}

theorem readUnicode_hex4 {n : Nat} (small : n < 32) (rest : List Char) :
    readUnicode (Text.hex4 n ++ rest) = some (Char.ofNat n, rest) := by
  obtain ⟨written, high, low⟩ := Text.hex4_of_small small
  have zero : hexDigit? '0' = some 0 := by decide
  have value : n / 16 * 16 + n % 16 = n := by omega
  have upper : ¬ (0xD800 ≤ n ∧ n < 0xDC00) := by omega
  have lower : ¬ (0xDC00 ≤ n ∧ n < 0xE000) := by omega
  simp [readUnicode, written, readHex4, zero, high, low, value, upper, lower]

theorem readText_quotedChar (depth : Nat) (acc : List Char) (c : Char) (rest : List Char) :
    readText (depth + 1) acc (Text.quotedChar c ++ rest) = readText depth (c :: acc) rest := by
  rcases Text.quotedChar_cases c with ⟨quote, backslash, visible, itself⟩ | ⟨d, other, meant, lettered⟩ |
      ⟨control, numbered⟩
  · simp [itself, readText, quote, backslash, visible]
  · simp [lettered, readText, other, meant]
  · have read := readUnicode_hex4 control rest
    rw [Char.ofNat_toNat] at read
    simp [numbered, readText, read]

theorem readText_quoted (s : List Char) (depth : Nat) (acc rest : List Char) (enough : s.length < depth) :
    readText depth acc (s.flatMap Text.quotedChar ++ '"' :: rest) =
      some (String.ofList (acc.reverse ++ s), rest) := by
  induction s generalizing depth acc with
  | nil =>
      cases depth with
      | zero => omega
      | succ depth => simp [readText]
  | cons c s ih =>
      cases depth with
      | zero => omega
      | succ depth =>
          have less : s.length < depth := by simpa using enough
          rw [List.flatMap_cons, List.append_assoc, readText_quotedChar, ih depth (c :: acc) less]
          simp

theorem length_le_flatMap_quotedChar (s : List Char) : s.length ≤ (s.flatMap Text.quotedChar).length := by
  induction s with
  | nil => exact Nat.le_refl 0
  | cons c s ih =>
      have one : 1 ≤ (Text.quotedChar c).length := by
        rcases Text.quotedChar_cases c with ⟨_, _, _, h⟩ | ⟨d, _, _, h⟩ | ⟨_, h⟩ <;> simp [h]
      rw [List.flatMap_cons, List.length_append, List.length_cons]
      omega

theorem toList_quoted (s : String) : (Text.quoted s).toList = '"' :: (s.toList.flatMap Text.quotedChar ++ ['"']) := by
  simp [Text.quoted]

/-- A quoted text is read as the text. -/
theorem readText_toList (s : String) (rest : List Char) :
    readText ((s.toList.flatMap Text.quotedChar ++ '"' :: rest).length + 1) []
      (s.toList.flatMap Text.quotedChar ++ '"' :: rest) = some (s, rest) := by
  have short := length_le_flatMap_quotedChar s.toList
  rw [readText_quoted]
  · simp
  · simp only [List.length_append, List.length_cons]
    omega

/-! ### What the text of a value is read as -/

mutual

/-- The value that the text of a value is read as, with room for so many arrays and objects inside one
another. -/
def reread? : Json → (room : Nat) → Option Json
  | null, _ => some null
  | bool b, _ => some (bool b)
  | num n, _ => n.reread?.map num
  | str s, _ => some (str s)
  | arr items, room => if room = 0 then none else (rereadItems? items (room - 1)).map arr
  | obj fields, room =>
    if room = 0 then none else (rereadFields? fields (room - 1)).map fun fs => obj (Record.ofList fs)

def rereadItems? : List Json → (room : Nat) → Option (List Json)
  | [], _ => some []
  | v :: rest, room => do
    let w ← reread? v room
    let others ← rereadItems? rest room
    return w :: others

def rereadFields? : List (String × Json) → (room : Nat) → Option (List (String × Json))
  | [], _ => some []
  | (name, v) :: rest, room => do
    let w ← reread? v room
    let others ← rereadFields? rest room
    return (name, w) :: others

end

/-- A reading comes to a value and leaves the rest over; if it comes to none, it may still leave over the end
of a number, with which nothing goes on. -/
def Yields (read : Option (Json × List Char)) (v? : Option Json) (rest : List Char) : Prop :=
  match v? with
  | some v => read = some (v, rest)
  | none => ∀ v left, read = some (v, left) → ∃ c cs, left = c :: cs ∧ Numeral.isPart c = true

theorem Yields.of_none : Yields none none rest := by
  intro v left same
  cases same

/-- The characters that the text of a value starts with. -/
def isStart (c : Char) : Bool :=
  Numeral.isPart c || ['n', 't', 'f', '"', '[', '\x7b'].contains c

theorem skipLayout_cons {c : Char} (h : c ≠ ' ' ∧ c ≠ '\n' ∧ c ≠ '\t' ∧ c ≠ '\r') (cs : List Char) :
    skipLayout (c :: cs) = c :: cs := by
  simp [skipLayout, h]

theorem skipLayout_start {c : Char} (start : isStart c = true) (cs : List Char) :
    skipLayout (c :: cs) = c :: cs := by
  refine skipLayout_cons ⟨?_, ?_, ?_, ?_⟩ cs
  all_goals
    rintro rfl
    cases start

theorem isStart_of_isPart {c : Char} (part : Numeral.isPart c = true) : isStart c = true := by
  simp [isStart, part]

/-- The text of a value starts at once. -/
theorem exists_text_eq (v : Json) : ∃ c cs, v.text.toList = c :: cs ∧ isStart c = true := by
  cases v with
  | null => exact ⟨_, _, rfl, rfl⟩
  | bool b => cases b <;> exact ⟨_, _, rfl, rfl⟩
  | num n =>
      obtain ⟨c, cs, text⟩ := List.exists_cons_of_ne_nil n.text_ne_nil
      have part := n.parts_text c (text ▸ List.mem_cons_self)
      exact ⟨c, cs, text, isStart_of_isPart part⟩
  | str s => exact ⟨_, _, toList_quoted s, rfl⟩
  | arr items => exact ⟨'[', _, by rw [text, String.append_assoc, String.toList_append]; rfl, rfl⟩
  | obj fields => exact ⟨'\x7b', _, by rw [text, String.append_assoc, String.toList_append]; rfl, rfl⟩

/-! ### Steps of the reader -/

theorem readNumber_text (n : Number) (stops : Numeral.Stops rest) :
    Yields (readNumber (n.text.toList ++ rest)) (n.reread?.map num) rest := by
  have parts := n.parts_text
  unfold readNumber Number.reread?
  rw [Numeral.read_append stops]
  generalize n.text.toList = cs at parts
  rcases read : Numeral.read cs with _ | ⟨w, _ | ⟨c, left⟩⟩
  · exact Yields.of_none
  · cases number : w.number? with
    | none =>
        simp only [Option.map_some, Option.bind_eq_bind, Option.bind_some, number]
        exact Yields.of_none
    | some n =>
        simp only [Option.map_some, Option.bind_eq_bind, Option.bind_some, number]
        rfl
  · -- Characters of the number are left over, so that the value ends in the middle of it.
    have part := parts c ((Numeral.read_suffix read).subset List.mem_cons_self)
    intro v rest' same
    simp only [Option.map_some, Option.bind_eq_bind, Option.bind_some] at same
    obtain ⟨m, _, same⟩ := Option.bind_eq_some_iff.mp same
    cases same
    exact ⟨c, left ++ rest, rfl, part⟩

theorem readValue_number {c : Char} (part : Numeral.isPart c = true) (cs : List Char) :
    readValue (depth + 1) room (c :: cs) = readNumber (c :: cs) := by
  rw [readValue, skipLayout_start (isStart_of_isPart part)]
  split <;> first
    | rfl
    | (rename_i same; cases same; cases part)

theorem readValue_quoted (s : String) :
    readValue (depth + 1) room ((Text.quoted s).toList ++ rest) = some (str s, rest) := by
  have read := readText_toList s rest
  rw [toList_quoted, List.cons_append, List.append_assoc, List.singleton_append, readValue,
    skipLayout_start rfl]
  show (readText _ [] _).map _ = _
  rw [read]
  rfl

/-- How an array goes on after an item. -/
def afterItem (depth room : Nat) (items : List Json) : List Char → Option (Json × List Char)
  | ',' :: rest => readItems depth room items rest
  | ']' :: rest => some (arr items.reverse, rest)
  | _ => none

/-- How an object goes on after a field. -/
def afterField (depth room : Nat) (fields : List (String × Json)) : List Char → Option (Json × List Char)
  | ',' :: rest => readFields depth room fields rest
  | '\x7d' :: rest => some (obj (Record.ofList fields.reverse), rest)
  | _ => none

theorem afterItem_part {c : Char} (part : Numeral.isPart c = true) (items : List Json) (cs : List Char) :
    afterItem depth room items (c :: cs) = none := by
  unfold afterItem
  split <;> first
    | rfl
    | (rename_i same; cases same; cases part)

theorem afterField_part {c : Char} (part : Numeral.isPart c = true) (fields : List (String × Json))
    (cs : List Char) : afterField depth room fields (c :: cs) = none := by
  unfold afterField
  split <;> first
    | rfl
    | (rename_i same; cases same; cases part)

theorem readItems_succ (acc : List Json) (cs : List Char) :
    readItems (depth + 1) room acc cs =
      (readValue depth room cs).bind fun p => afterItem depth room (p.1 :: acc) (skipLayout p.2) := by
  rw [readItems]
  cases readValue depth room cs <;> rfl

theorem readFields_succ (acc : List (String × Json)) (name : String) (cs : List Char) :
    readFields (depth + 1) room acc ((Text.quoted name).toList ++ ':' :: cs) =
      (readValue depth room cs).bind fun p => afterField depth room ((name, p.1) :: acc) (skipLayout p.2) := by
  have read := readText_toList name (':' :: cs)
  have colon : skipLayout (':' :: cs) = ':' :: cs := skipLayout_cons (by decide) cs
  rw [toList_quoted, List.cons_append, List.append_assoc, List.singleton_append, readFields,
    skipLayout_start rfl]
  simp only [read, colon]
  cases readValue depth room cs <;> rfl

/-- Reading goes on after a value that is read whole, and comes to nothing in the middle of a number. -/
theorem Yields.bind_eq {read : Option (Json × List Char)} {v? : Option Json} {c : Char} {after : List Char}
    (h : Yields read v? (c :: after)) (plain : c ≠ ' ' ∧ c ≠ '\n' ∧ c ≠ '\t' ∧ c ≠ '\r')
    {next : Json → List Char → Option (Json × List Char)}
    (stuck : ∀ v c cs, Numeral.isPart c = true → next v (c :: cs) = none) :
    (read.bind fun p => next p.1 (skipLayout p.2)) = v?.bind fun v => next v (c :: after) := by
  cases v? with
  | some v =>
      have read : read = some (v, c :: after) := h
      rw [read, Option.bind_some, Option.bind_some, skipLayout_cons plain]
  | none =>
      cases read with
      | none => rfl
      | some p =>
          obtain ⟨d, cs, left, part⟩ := h p.1 p.2 rfl
          rw [Option.bind_some, left, skipLayout_start (isStart_of_isPart part), stuck p.1 d cs part]
          rfl

/-! ### The texts of arrays and objects -/

theorem toList_text_arr (items : List Json) :
    (arr items).text.toList = '[' :: ((",".intercalate (itemTexts items)).toList ++ [']']) := by
  simp [text]

theorem toList_text_obj (fields : List (String × Json)) :
    (obj fields).text.toList = '\x7b' :: ((",".intercalate (fieldTexts fields)).toList ++ ['\x7d']) := by
  simp [text]

theorem toList_itemTexts (v w : Json) (items : List Json) :
    (",".intercalate (itemTexts (v :: w :: items))).toList =
      v.text.toList ++ ',' :: (",".intercalate (itemTexts (w :: items))).toList := by
  rw [itemTexts, itemTexts, String.intercalate_cons_cons]
  simp

theorem toList_fieldTexts (name name' : String) (v w : Json) (fields : List (String × Json)) :
    (",".intercalate (fieldTexts ((name, v) :: (name', w) :: fields))).toList =
      (Text.quoted name).toList ++ ':' :: (v.text.toList ++
        ',' :: (",".intercalate (fieldTexts ((name', w) :: fields))).toList) := by
  rw [fieldTexts, fieldTexts, String.intercalate_cons_cons]
  simp

/-! ### Reading the text of a value -/

/-- The text of a value is read as `reread?` says, wherever it stands. -/
def Rereads (v : Json) : Prop :=
  ∀ {depth : Nat} (room : Nat) {rest : List Char}, 2 * v.text.toList.length < depth → Numeral.Stops rest →
    Yields (readValue depth room (v.text.toList ++ rest)) (v.reread? room) rest

theorem rereads_null : null.Rereads := by
  intro depth room rest enough _
  obtain _ | depth := depth
  · omega
  · rfl

theorem rereads_bool (b : Bool) : (bool b).Rereads := by
  intro depth room rest enough _
  obtain _ | depth := depth
  · omega
  · cases b <;> rfl

theorem rereads_num (n : Number) : (num n).Rereads := by
  intro depth room rest enough stops
  obtain _ | depth := depth
  · omega
  · obtain ⟨c, cs, written⟩ := List.exists_cons_of_ne_nil n.text_ne_nil
    have part := n.parts_text c (written ▸ List.mem_cons_self)
    have read := readNumber_text n stops
    rw [written, List.cons_append, ← readValue_number part, ← List.cons_append, ← written] at read
    exact read

theorem rereads_str (s : String) : (str s).Rereads := by
  intro depth room rest enough _
  obtain _ | depth := depth
  · omega
  · exact readValue_quoted s

theorem readItems_text {v : Json} {items : List Json} (each : ∀ w ∈ v :: items, w.Rereads) (room : Nat)
    (acc : List Json) (rest : List Char)
    (enough : 2 * (",".intercalate (itemTexts (v :: items))).toList.length + 1 < depth) :
    readItems depth room acc ((",".intercalate (itemTexts (v :: items))).toList ++ ']' :: rest) =
      (rereadItems? (v :: items) room).map fun vs => (arr (acc.reverse ++ vs), rest) := by
  induction items generalizing v acc depth with
  | nil =>
      obtain ⟨first, -⟩ := List.forall_mem_cons.mp each
      obtain _ | depth := depth
      · omega
      · have alone : ",".intercalate (itemTexts [v]) = v.text := String.intercalate_singleton
        rw [alone] at enough ⊢
        have short : 2 * v.text.toList.length < depth := by omega
        have stops : Numeral.Stops (']' :: rest) := Numeral.stops_cons.mpr rfl
        rw [readItems_succ, (first room short stops).bind_eq (by decide)
          fun w c cs part => afterItem_part part (w :: acc) cs]
        cases reread : v.reread? room <;> simp [rereadItems?, reread, afterItem]
  | cons w items ih =>
      obtain ⟨first, others⟩ := List.forall_mem_cons.mp each
      obtain _ | depth := depth
      · omega
      · rw [toList_itemTexts, List.length_append, List.length_cons] at enough
        have short : 2 * v.text.toList.length < depth := by omega
        have less : 2 * (",".intercalate (itemTexts (w :: items))).toList.length + 1 < depth := by omega
        have stops : Numeral.Stops (',' :: ((",".intercalate (itemTexts (w :: items))).toList ++ ']' :: rest)) :=
          Numeral.stops_cons.mpr rfl
        rw [toList_itemTexts, List.append_assoc, List.cons_append, readItems_succ,
          (first room short stops).bind_eq (by decide)
            fun u c cs part => afterItem_part part (u :: acc) cs, rereadItems?]
        cases v.reread? room with
        | none => rfl
        | some u =>
            simp only [Option.bind_some, afterItem, ih others (u :: acc) less, Option.bind_eq_bind]
            cases rereadItems? (w :: items) room <;> simp

theorem readFields_text {e : String × Json} {fields : List (String × Json)}
    (each : ∀ f ∈ e :: fields, f.2.Rereads) (room : Nat) (acc : List (String × Json)) (rest : List Char)
    (enough : 2 * (",".intercalate (fieldTexts (e :: fields))).toList.length + 1 < depth) :
    readFields depth room acc ((",".intercalate (fieldTexts (e :: fields))).toList ++ '\x7d' :: rest) =
      (rereadFields? (e :: fields) room).map fun fs => (obj (Record.ofList (acc.reverse ++ fs)), rest) := by
  induction fields generalizing e acc depth with
  | nil =>
      obtain ⟨first, -⟩ := List.forall_mem_cons.mp each
      obtain ⟨name, v⟩ := e
      obtain _ | depth := depth
      · omega
      · have alone : (",".intercalate (fieldTexts [(name, v)])).toList =
            (Text.quoted name).toList ++ ':' :: v.text.toList := by
          simp [fieldTexts]
        rw [alone] at enough ⊢
        rw [List.length_append, List.length_cons] at enough
        have short : 2 * v.text.toList.length < depth := by omega
        have stops : Numeral.Stops ('\x7d' :: rest) := Numeral.stops_cons.mpr rfl
        rw [List.append_assoc, List.cons_append, readFields_succ, (first room short stops).bind_eq (by decide)
          fun w c cs part => afterField_part part ((name, w) :: acc) cs]
        cases reread : v.reread? room <;> simp [rereadFields?, reread, afterField]
  | cons e' fields ih =>
      obtain ⟨first, others⟩ := List.forall_mem_cons.mp each
      obtain ⟨name, v⟩ := e
      obtain ⟨name', v'⟩ := e'
      obtain _ | depth := depth
      · omega
      · rw [toList_fieldTexts, List.length_append, List.length_cons, List.length_append, List.length_cons]
          at enough
        have short : 2 * v.text.toList.length < depth := by omega
        have less : 2 * (",".intercalate (fieldTexts ((name', v') :: fields))).toList.length + 1 < depth := by
          omega
        have stops : Numeral.Stops
            (',' :: ((",".intercalate (fieldTexts ((name', v') :: fields))).toList ++ '\x7d' :: rest)) :=
          Numeral.stops_cons.mpr rfl
        rw [toList_fieldTexts, List.append_assoc, List.cons_append, List.append_assoc, List.cons_append,
          readFields_succ, (first room short stops).bind_eq (by decide)
            fun u c cs part => afterField_part part ((name, u) :: acc) cs, rereadFields?]
        cases v.reread? room with
        | none => rfl
        | some u =>
            simp only [Option.bind_some, afterField, ih others ((name, u) :: acc) less, Option.bind_eq_bind]
            cases rereadFields? ((name', v') :: fields) room <;> simp

theorem readValue_bracket {c : Char} (start : isStart c = true) (cs : List Char) :
    readValue (depth + 1) room ('[' :: c :: cs) =
      if room = 0 then none else readItems depth (room - 1) [] (c :: cs) := by
  rw [readValue, skipLayout_start rfl]
  refine ite_congr rfl (fun _ => rfl) fun _ => ?_
  rw [skipLayout_start start]
  split
  · rename_i same
    cases same
    cases start
  · rfl

theorem readValue_brace {c : Char} (start : isStart c = true) (cs : List Char) :
    readValue (depth + 1) room ('\x7b' :: c :: cs) =
      if room = 0 then none else readFields depth (room - 1) [] (c :: cs) := by
  rw [readValue, skipLayout_start rfl]
  refine ite_congr rfl (fun _ => rfl) fun _ => ?_
  rw [skipLayout_start start]
  split
  · rename_i same
    cases same
    cases start
  · rfl

theorem exists_itemTexts_eq (v : Json) (items : List Json) :
    ∃ c cs, (",".intercalate (itemTexts (v :: items))).toList = c :: cs ∧ isStart c = true := by
  obtain ⟨c, cs, written, start⟩ := v.exists_text_eq
  cases items with
  | nil => exact ⟨c, cs, written ▸ congrArg _ String.intercalate_singleton, start⟩
  | cons w items => exact ⟨c, _, by rw [toList_itemTexts, written, List.cons_append], start⟩

theorem exists_fieldTexts_eq (e : String × Json) (fields : List (String × Json)) :
    ∃ cs, (",".intercalate (fieldTexts (e :: fields))).toList = '"' :: cs := by
  cases fields with
  | nil => exact ⟨_, by simp [fieldTexts, toList_quoted]; rfl⟩
  | cons e' fields => exact ⟨_, by rw [toList_fieldTexts, toList_quoted, List.cons_append]⟩

theorem Yields.of_room {α : Type} (value? : Option α) (make : α → Json) :
    Yields (if room = 0 then none else value?.map fun a => (make a, rest))
      (if room = 0 then none else value?.map make) rest := by
  split
  · exact of_none
  · cases value? with
    | none => exact of_none
    | some a => rfl

theorem rereads_arr {items : List Json} (each : ∀ v ∈ items, v.Rereads) : (arr items).Rereads := by
  intro depth room rest enough _
  obtain _ | depth := depth
  · omega
  · rw [toList_text_arr, List.length_cons, List.length_append] at enough
    rw [toList_text_arr, List.cons_append, List.append_assoc, List.singleton_append, reread?]
    cases items with
    | nil =>
        rw [readValue, skipLayout_start rfl]
        exact Yields.of_room (some []) arr
    | cons v items =>
        obtain ⟨c, cs, written, start⟩ := exists_itemTexts_eq v items
        have less : 2 * (",".intercalate (itemTexts (v :: items))).toList.length + 1 < depth := by omega
        have read := readItems_text each (room - 1) [] rest less
        rw [written, List.cons_append, readValue_bracket start, ← List.cons_append, ← written, read]
        exact Yields.of_room _ arr

theorem rereads_obj {fields : List (String × Json)} (each : ∀ e ∈ fields, e.2.Rereads) :
    (obj fields).Rereads := by
  intro depth room rest enough _
  obtain _ | depth := depth
  · omega
  · rw [toList_text_obj, List.length_cons, List.length_append] at enough
    rw [toList_text_obj, List.cons_append, List.append_assoc, List.singleton_append, reread?]
    cases fields with
    | nil =>
        rw [readValue, skipLayout_start rfl]
        exact Yields.of_room (some []) fun fs => obj (Record.ofList fs)
    | cons e fields =>
        obtain ⟨cs, written⟩ := exists_fieldTexts_eq e fields
        have less : 2 * (",".intercalate (fieldTexts (e :: fields))).toList.length + 1 < depth := by omega
        have read := readFields_text each (room - 1) [] rest less
        rw [written, List.cons_append, readValue_brace rfl, ← List.cons_append, ← written, read]
        exact Yields.of_room _ fun fs => obj (Record.ofList fs)

mutual

theorem rereads : (v : Json) → v.Rereads
  | null => rereads_null
  | bool b => rereads_bool b
  | num n => rereads_num n
  | str s => rereads_str s
  | arr items => rereads_arr (rereads_items items)
  | obj fields => rereads_obj (rereads_fields fields)

theorem rereads_items : (items : List Json) → ∀ v ∈ items, v.Rereads
  | [] => fun _ mem => absurd mem List.not_mem_nil
  | v :: rest => List.forall_mem_cons.mpr ⟨rereads v, rereads_items rest⟩

theorem rereads_fields : (fields : List (String × Json)) → ∀ e ∈ fields, e.2.Rereads
  | [] => fun _ mem => absurd mem List.not_mem_nil
  | (_, v) :: rest => List.forall_mem_cons.mpr ⟨rereads v, rereads_fields rest⟩

end

/-- What is read from the text of a value. -/
theorem parse?_text (v : Json) : parse? v.text = v.reread? maxNesting := by
  have enough : 2 * v.text.toList.length < 2 * v.text.toList.length + 2 := by omega
  have yields := rereads v maxNesting enough Numeral.stops_nil
  rw [List.append_nil] at yields
  unfold parse?
  dsimp only
  cases reread : v.reread? maxNesting with
  | some w =>
      rw [reread] at yields
      have read : readValue _ _ _ = some (w, []) := yields
      rw [read]
      rfl
  | none =>
      rw [reread] at yields
      cases read : readValue (2 * v.text.toList.length + 2) maxNesting v.text.toList with
      | none => rfl
      | some p =>
          obtain ⟨c, cs, left, part⟩ := yields p.1 p.2 read
          dsimp only
          rw [left, skipLayout_start (isStart_of_isPart part)]
          rfl

/-! ### Values that come back -/

/-- A value whose text is read as the value: arrays and objects lie inside one another at most `room` deep, no
object repeats a name, whole numbers are of 64 bits, and each double alone comes back. -/
inductive Kept : (room : Nat) → Json → Prop
  | null {room : Nat} : Kept room null
  | bool {room : Nat} (b : Bool) : Kept room (bool b)
  | int {room : Nat} {n : Int} (low : -(Nat.pow 2 63 : Int) ≤ n) (high : n < (Nat.pow 2 64 : Int)) :
      Kept room (num (.int n))
  | double {room : Nat} {x : Double} (back : parse? x.text = some (num (.double x))) : Kept room (num (.double x))
  | str {room : Nat} (s : String) : Kept room (str s)
  | arr {room : Nat} {items : List Json} (each : ∀ v ∈ items, Kept room v) : Kept (room + 1) (arr items)
  | obj {room : Nat} {fields : Record Json} (names : fields.names.Nodup) (each : ∀ e ∈ fields, Kept room e.2) :
      Kept (room + 1) (obj fields)

theorem reread?_num_iff (n : Number) : (num n).reread? room = some (num n) ↔ Kept room (num n) := by
  have alone : (num n).reread? room = parse? n.text := (parse?_text (num n)).symm
  cases n with
  | int n =>
      have itself : (num (.int n)).reread? room = some (num (.int n)) ↔ (Number.int n).reread? = some (.int n) := by
        simp [reread?]
      rw [itself, Number.reread?_int]
      constructor
      · rintro ⟨low, high⟩
        exact .int low high
      · intro kept
        cases kept with
        | int low high => exact ⟨low, high⟩
  | double x =>
      rw [alone]
      constructor
      · exact .double
      · intro kept
        cases kept with
        | double back => exact back

theorem rereadItems?_eq_some_iff {items : List Json} (each : ∀ v ∈ items, v.reread? room = some v ↔ v.Kept room) :
    rereadItems? items room = some items ↔ ∀ v ∈ items, v.Kept room := by
  induction items with
  | nil => simp [rereadItems?]
  | cons v items ih =>
      obtain ⟨first, others⟩ := List.forall_mem_cons.mp each
      rw [List.forall_mem_cons, ← first, ← ih others, rereadItems?]
      simp [Option.bind_eq_some_iff]

theorem rereadFields?_eq_some_iff {fields : List (String × Json)}
    (each : ∀ e ∈ fields, e.2.reread? room = some e.2 ↔ e.2.Kept room) :
    rereadFields? fields room = some fields ↔ ∀ e ∈ fields, e.2.Kept room := by
  induction fields with
  | nil => simp [rereadFields?]
  | cons e fields ih =>
      obtain ⟨first, others⟩ := List.forall_mem_cons.mp each
      obtain ⟨name, v⟩ := e
      rw [List.forall_mem_cons, ← first, ← ih others, rereadFields?]
      simp [Option.bind_eq_some_iff]

theorem names_rereadFields? {fields fs : List (String × Json)} (h : rereadFields? fields room = some fs) :
    fs.map Prod.fst = fields.map Prod.fst := by
  induction fields generalizing fs with
  | nil =>
      cases h
      rfl
  | cons e fields ih =>
      obtain ⟨w, _, h⟩ := Option.bind_eq_some_iff.mp h
      obtain ⟨others, tail, h⟩ := Option.bind_eq_some_iff.mp h
      cases h
      rw [List.map_cons, List.map_cons, ih tail]

theorem reread?_arr_iff {items : List Json} (each : ∀ room, ∀ v ∈ items, v.reread? room = some v ↔ v.Kept room) :
    (arr items).reread? room = some (arr items) ↔ (arr items).Kept room := by
  rw [reread?]
  split
  · rename_i full
    subst full
    refine iff_of_false (by simp) ?_
    intro kept
    cases kept
  · obtain ⟨room, rfl⟩ := Nat.exists_eq_succ_of_ne_zero (by assumption)
    have list := rereadItems?_eq_some_iff (each room)
    constructor
    · intro same
      obtain ⟨vs, read, same⟩ := Option.map_eq_some_iff.mp same
      cases same
      exact .arr (list.mp read)
    · intro kept
      cases kept with
      | arr kept =>
          rw [Nat.succ_sub_one, list.mpr kept]
          rfl

theorem reread?_obj_iff {fields : List (String × Json)}
    (each : ∀ room, ∀ e ∈ fields, e.2.reread? room = some e.2 ↔ e.2.Kept room) :
    (obj fields).reread? room = some (obj fields) ↔ (obj fields).Kept room := by
  rw [reread?]
  split
  · rename_i full
    subst full
    refine iff_of_false (by simp) ?_
    intro kept
    cases kept
  · obtain ⟨room, rfl⟩ := Nat.exists_eq_succ_of_ne_zero (by assumption)
    have list := rereadFields?_eq_some_iff (each room)
    constructor
    · -- The fields that are read have the same names, and these are distinct once collected.
      intro same
      obtain ⟨fs, read, same⟩ := Option.map_eq_some_iff.mp same
      have collected : Record.ofList fs = fields := obj.inj same
      have distinct : (fields.map Prod.fst).Nodup := by
        rw [← collected]
        exact Record.nodup_insertAll List.nodup_nil
      have names := names_rereadFields? read
      rw [← names] at distinct
      rw [Record.ofList_of_nodup distinct] at collected
      subst collected
      exact .obj distinct (list.mp read)
    · intro kept
      cases kept with
      | obj names kept =>
          rw [Nat.succ_sub_one, list.mpr kept, Option.map_some, Record.ofList_of_nodup names]

mutual

/-- The values that come back from their texts. -/
theorem reread?_eq_some_iff : (v : Json) → (room : Nat) → (v.reread? room = some v ↔ v.Kept room)
  | null, _ => iff_of_true rfl .null
  | bool b, _ => iff_of_true rfl (.bool b)
  | num n, _ => reread?_num_iff n
  | str s, _ => iff_of_true rfl (.str s)
  | arr items, _ => reread?_arr_iff (reread?_items_iff items)
  | obj fields, _ => reread?_obj_iff (reread?_fields_iff fields)

theorem reread?_items_iff :
    (items : List Json) → ∀ room, ∀ v ∈ items, v.reread? room = some v ↔ v.Kept room
  | [], _ => fun _ mem => absurd mem List.not_mem_nil
  | v :: rest, room => List.forall_mem_cons.mpr ⟨reread?_eq_some_iff v room, reread?_items_iff rest room⟩

theorem reread?_fields_iff :
    (fields : List (String × Json)) → ∀ room, ∀ e ∈ fields, e.2.reread? room = some e.2 ↔ e.2.Kept room
  | [], _ => fun _ mem => absurd mem List.not_mem_nil
  | (_, v) :: rest, room => List.forall_mem_cons.mpr ⟨reread?_eq_some_iff v room, reread?_fields_iff rest room⟩

end

end Json

end DocGraph
