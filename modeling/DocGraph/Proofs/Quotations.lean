import DocGraph.Script.Text
import DocGraph.Store.Scope
import DocGraph.Json.Reader

/-! # Reading quotations

A quotation is read from its opening delimiter on: a backslash takes what follows it out of the rules, the next
delimiter is the end, and in a template literal a dollar sign with a brace opens an expression. `Quotation.read`
gives what a quotation says, as characters and expressions in order, and the characters behind it.

Each text of a message is escaped by itself, so that a dollar sign at the end of one text and a brace at the
beginning of the next open an expression that nobody wrote. The main statement is `messageLiteral_read`: but for
this, and for braces in the names of references, the literal of a message says what the message says. -/

namespace DocGraph

open Script (tick)

namespace Quotation

/-! ### The reader -/

/-- How quotations of a kind are read. -/
structure Rules where
  delimiter : Char
  /-- A dollar sign with a brace opens an expression. -/
  expressions : Bool

/-- Template literals. -/
def Rules.template : Rules := ⟨tick, true⟩

/-- Texts between double quotes. -/
def Rules.string : Rules := ⟨'"', false⟩

/-- Part of what a quotation says: a character, or the value of an expression. -/
inductive Piece where
  | char (c : Char)
  | value (expression : String)
deriving DecidableEq, Repr

/-- Where in a quotation a reader is. -/
inductive Mode where
  | text
  /-- After a backslash. -/
  | escape
  /-- Among hexadecimal digits, with so many to come after the next one, and the value of those before. -/
  | hex (left value : Nat)
  /-- Before the brace that opens an expression. -/
  | brace
  /-- In an expression, after some of its characters. -/
  | expression (start : List Char)

/-- Pieces in front of what a reader finds. -/
def after (pieces : List Piece) (found : Option (List Piece × List Char)) :
    Option (List Piece × List Char) :=
  found.map fun r => (pieces ++ r.1, r.2)

/-- Reads up to the delimiter that ends a quotation: what it says, and the characters behind it. -/
def scan (k : Rules) : Mode → List Char → Option (List Piece × List Char)
  | _, [] => none
  | .text, c :: rest =>
    if c = k.delimiter then some ([], rest)
    else if c = '\\' then scan k .escape rest
    else if k.expressions ∧ c = '$' ∧ rest.head? = some '\x7b' then scan k .brace rest
    else after [.char c] (scan k .text rest)
  | .escape, c :: rest =>
    if c = 'u' then scan k (.hex 3 0) rest
    else after [.char ((Json.escape? c).getD c)] (scan k .text rest)
  | .hex left n, c :: rest =>
    (Json.hexDigit? c).bind fun d =>
      if left = 0 then after [.char (Char.ofNat (n * 16 + d))] (scan k .text rest)
      else scan k (.hex (left - 1) (n * 16 + d)) rest
  | .brace, _ :: rest => scan k (.expression []) rest
  | .expression start, c :: rest =>
    if c = '\x7d' then after [.value (String.ofList start)] (scan k .text rest)
    else scan k (.expression (start ++ [c])) rest

/-- Reads a quotation from its opening delimiter. -/
def read (k : Rules) (s : String) : Option (List Piece × List Char) :=
  match s.toList with
  | [] => none
  | c :: rest => if c = k.delimiter then scan k .text rest else none

/-- The text that pieces make when expressions have values. -/
def fill (env : String → Except Error String) : List Piece → Except Error String
  | [] => .ok ""
  | .char c :: rest => (fill env rest).map (String.singleton c ++ ·)
  | .value e :: rest => do
    let shown ← env e
    let others ← fill env rest
    return shown ++ others

/-! ### Steps of the reader -/

variable {found : Option (List Piece × List Char)} {pieces others : List Piece} {c : Char}
  {e rest tail u : List Char}

@[simp] theorem after_nil : after [] found = found := by
  cases found <;> rfl

@[simp] theorem after_after : after pieces (after others found) = after (pieces ++ others) found := by
  cases found <;> simp [after]

theorem after_eq_append_iff (pieces : List Piece) :
    after pieces found = some (pieces ++ others, tail) ↔ found = some (others, tail) := by
  cases found <;> simp [after, Prod.ext_iff]

-- What the reader does in each mode, by computation.

variable {k : Rules}

theorem scan_text : scan k .text (c :: rest) =
    if c = k.delimiter then some ([], rest)
    else if c = '\\' then scan k .escape rest
    else if k.expressions ∧ c = '$' ∧ rest.head? = some '\x7b' then scan k .brace rest
    else after [.char c] (scan k .text rest) :=
  rfl

theorem scan_escaped : scan k .escape (c :: rest) =
    if c = 'u' then scan k (.hex 3 0) rest
    else after [.char ((Json.escape? c).getD c)] (scan k .text rest) :=
  rfl

theorem scan_hex (left n : Nat) : scan k (.hex left n) (c :: rest) =
    (Json.hexDigit? c).bind fun d =>
      if left = 0 then after [.char (Char.ofNat (n * 16 + d))] (scan k .text rest)
      else scan k (.hex (left - 1) (n * 16 + d)) rest :=
  rfl

theorem scan_brace : scan k .brace (c :: rest) = scan k (.expression []) rest :=
  rfl

theorem scan_expression (start : List Char) : scan k (.expression start) (c :: rest) =
    if c = '\x7d' then after [.value (String.ofList start)] (scan k .text rest)
    else scan k (.expression (start ++ [c])) rest :=
  rfl

theorem scan_end (k : Rules) (rest : List Char) : scan k .text (k.delimiter :: rest) = some ([], rest) := by
  rw [scan_text, if_pos rfl]

/-- A character that stands for itself. -/
theorem scan_char (plain : c ≠ k.delimiter) (unescaped : c ≠ '\\')
    (closed : ¬ (k.expressions ∧ c = '$' ∧ rest.head? = some '\x7b')) :
    scan k .text (c :: rest) = after [.char c] (scan k .text rest) := by
  rw [scan_text, if_neg plain, if_neg unescaped, if_neg closed]

theorem scan_escape (c : Char) (other : c ≠ 'u') :
    scan .template .text ('\\' :: c :: rest) =
      after [.char ((Json.escape? c).getD c)] (scan .template .text rest) := by
  rw [scan_text, if_neg (by decide), if_pos rfl, scan_escaped, if_neg other]

theorem scan_open : scan .template .text ('$' :: '\x7b' :: rest) = scan .template (.expression []) rest := by
  rw [scan_text, if_neg (by decide), if_neg (by decide), if_pos ⟨rfl, rfl, rfl⟩, scan_brace]

theorem scan_expression_append (start : List Char) (inside : '\x7d' ∉ e) :
    scan .template (.expression start) (e ++ '\x7d' :: rest) =
      after [.value (String.ofList (start ++ e))] (scan .template .text rest) := by
  induction e generalizing start with
  | nil => rw [List.nil_append, scan_expression, if_pos rfl, List.append_nil]
  | cons c e ih =>
      have other : c ≠ '\x7d' := fun same => inside (same ▸ List.mem_cons_self)
      have later : '\x7d' ∉ e := fun mem => inside (List.mem_cons_of_mem c mem)
      rw [List.cons_append, scan_expression, if_neg other, ih _ later, List.append_assoc]
      rfl

/-- What is read from inside of an expression has it in front, up to the first closing brace. -/
theorem head_of_scan_expression {start : List Char}
    (h : scan .template (.expression start) u = some (pieces, tail)) :
    ∃ e, '\x7d' ∉ e ∧ pieces.head? = some (.value (String.ofList (start ++ e))) := by
  induction u generalizing start with
  | nil => cases h
  | cons c u ih =>
      rw [scan_expression] at h
      by_cases ends : c = '\x7d'
      · rw [if_pos ends] at h
        obtain ⟨r, _, made⟩ := Option.map_eq_some_iff.mp h
        cases made
        exact ⟨[], List.not_mem_nil, by simp⟩
      · rw [if_neg ends] at h
        obtain ⟨e, inside, first⟩ := ih h
        refine ⟨c :: e, fun mem => ?_, by simpa using first⟩
        rcases List.mem_cons.mp mem with same | mem
        · exact ends same.symm
        · exact inside mem

/-- An expression is read back just if no brace closes it early. -/
theorem scan_interpolation_iff (e rest : List Char) (pieces : List Piece) (tail : List Char) :
    scan .template .text ('$' :: '\x7b' :: e ++ '\x7d' :: rest) = some (.value (String.ofList e) :: pieces, tail) ↔
      '\x7d' ∉ e ∧ scan .template .text rest = some (pieces, tail) := by
  constructor
  · intro h
    have inside : '\x7d' ∉ e := by
      intro mem
      rw [List.cons_append, List.cons_append, scan_open] at h
      obtain ⟨e', inside, first⟩ := head_of_scan_expression h
      have own : String.ofList e = String.ofList e' := by simpa using first
      exact inside (String.ofList_injective own ▸ mem)
    rw [List.cons_append, List.cons_append, scan_open, scan_expression_append [] inside] at h
    exact ⟨inside, (after_eq_append_iff [_]).mp h⟩
  · rintro ⟨inside, h⟩
    rw [List.cons_append, List.cons_append, scan_open, scan_expression_append [] inside, h]
    rfl

/-! ### Escaped texts -/

/-- Two texts side by side that open no expression between them. -/
def Apart (s u : List Char) : Prop :=
  ¬ (s.getLast? = some '$' ∧ u.head? = some '\x7b')

theorem Apart.of_cons {s : List Char} (h : Apart (c :: s) u) : Apart s u := by
  rintro ⟨last, first⟩
  refine h ⟨?_, first⟩
  rw [List.getLast?_cons, last]
  rfl

theorem templateText_cons {s : List Char} (unopened : ¬ (c = '$' ∧ s.head? = some '\x7b')) :
    Script.templateText (c :: s) =
      if c = '\\' ∨ c = tick then '\\' :: c :: Script.templateText s else c :: Script.templateText s :=
  Script.templateText.eq_2 _ _ fun _ dollar opens => unopened ⟨dollar, by rw [opens]; rfl⟩

/-- Induction along the escaping of a text. -/
theorem templateText_induction {motive : List Char → Prop} (nil : motive [])
    (opening : ∀ s, motive s → motive ('$' :: '\x7b' :: s))
    (cons : ∀ c s, ¬ (c = '$' ∧ s.head? = some '\x7b') → motive s → motive (c :: s)) (s : List Char) :
    motive s := by
  -- Two characters may go at once, so the text without its first character is carried along.
  have both : motive s ∧ motive s.tail := by
    induction s with
    | nil => exact ⟨nil, nil⟩
    | cons c s ih =>
        refine ⟨?_, ih.1⟩
        by_cases opens : c = '$' ∧ s.head? = some '\x7b'
        · obtain ⟨rfl, first⟩ := opens
          obtain ⟨s, rfl⟩ := List.head?_eq_some_iff.mp first
          exact opening s ih.2
        · exact cons c s opens ih.1
  exact both.1

/-- An escaped text starts with a brace only where the text does. -/
theorem head_templateText_append (s : List Char) :
    (Script.templateText s ++ u).head? = some '\x7b' ↔ (s ++ u).head? = some '\x7b' := by
  induction s using templateText_induction with
  | nil => rfl
  | opening s =>
      constructor
      · intro h
        cases h
      · intro h
        cases h
  | cons c s unopened =>
      rw [templateText_cons unopened]
      split
      case isTrue special =>
        have other : c ≠ '\x7b' := by
          rcases special with rfl | rfl <;> decide
        simp [other]
      case isFalse => simp

/-- An escaped text says the text. -/
theorem scan_templateText {s : List Char} (apart : Apart s u) :
    scan .template .text (Script.templateText s ++ u) = after (s.map .char) (scan .template .text u) := by
  induction s using templateText_induction with
  | nil => exact after_nil.symm
  | opening s ih =>
      -- Behind its backslash the dollar sign is plain, and so is the brace without a dollar sign.
      have written : Script.templateText ('$' :: '\x7b' :: s) = '\\' :: '$' :: '\x7b' :: Script.templateText s := rfl
      simp only [written, List.cons_append]
      rw [scan_escape '$' (by decide), scan_char (by decide) (by decide) (by simp), ih apart.of_cons.of_cons]
      simp [Json.escape?]
  | cons c s unopened ih =>
      rw [templateText_cons unopened]
      split
      case isTrue special =>
        have self : c ≠ 'u' ∧ (Json.escape? c).getD c = c := by
          rcases special with rfl | rfl <;> decide
        simp only [List.cons_append]
        rw [scan_escape c self.1, self.2, ih apart.of_cons]
        simp
      case isFalse plain =>
        have closed : ¬ (c = '$' ∧ (Script.templateText s ++ u).head? = some '\x7b') := by
          rintro ⟨rfl, first⟩
          rw [head_templateText_append] at first
          cases s with
          | nil => exact apart ⟨rfl, first⟩
          | cons d s => exact unopened ⟨rfl, first⟩
        rw [List.cons_append, scan_char (fun h => plain (.inr h)) (fun h => plain (.inl h)) fun h => closed h.2,
          ih apart.of_cons]
        simp

theorem templateText_append_dollar (s : List Char) :
    Script.templateText (s ++ ['$']) = Script.templateText s ++ ['$'] := by
  induction s using templateText_induction with
  | nil => rfl
  | opening s ih => exact congrArg ('\\' :: '$' :: '\x7b' :: ·) ih
  | cons c s unopened ih =>
      have still : ¬ (c = '$' ∧ (s ++ ['$']).head? = some '\x7b') := by
        cases s with
        | nil => exact fun h => by cases h.2
        | cons d s => exact unopened
      rw [List.cons_append, templateText_cons still, templateText_cons unopened, ih]
      split <;> rfl

/-- An escaped text is read back just if it opens no expression together with what follows. -/
theorem scan_templateText_iff (s : List Char) :
    scan .template .text (Script.templateText s ++ u) = some (s.map .char ++ pieces, tail) ↔
      Apart s u ∧ scan .template .text u = some (pieces, tail) := by
  constructor
  · intro h
    have apart : Apart s u := by
      rintro ⟨last, first⟩
      obtain ⟨s, rfl⟩ := List.getLast?_eq_some_iff.mp last
      obtain ⟨v, rfl⟩ := List.head?_eq_some_iff.mp first
      have apart : Apart s ('$' :: '\x7b' :: v) := fun h => by cases h.2
      rw [templateText_append_dollar, List.append_assoc, List.singleton_append, scan_templateText apart,
        List.map_append, List.append_assoc, after_eq_append_iff, scan_open] at h
      obtain ⟨_, _, first⟩ := head_of_scan_expression h
      cases first
    rw [scan_templateText apart, after_eq_append_iff] at h
    exact ⟨apart, h⟩
  · rintro ⟨apart, h⟩
    rw [scan_templateText apart, after_eq_append_iff]
    exact h

end Quotation

/-! ### Messages -/

/-- What a part of a message says. -/
def MessagePart.pieces : MessagePart → List Quotation.Piece
  | text s => s.toList.map .char
  | value r => [.value r.text]

/-- What a message says, part after part. -/
def Message.pieces (m : Message) : List Quotation.Piece :=
  m.parts.flatMap MessagePart.pieces

/-- No text ends in a dollar sign where the next thing to say is an opening brace, and no reference has a closing
one. -/
def SealedParts : List MessagePart → Prop
  | [] => True
  | .text s :: rest =>
    ¬ (s.toList.getLast? = some '$' ∧ (rest.flatMap MessagePart.pieces).head? = some (.char '\x7b')) ∧
      SealedParts rest
  | .value r :: rest => '\x7d' ∉ r.text.toList ∧ SealedParts rest

instance decidableSealedParts : ∀ parts, Decidable (SealedParts parts)
  | [] => isTrue trivial
  | .text _ :: rest =>
    have := decidableSealedParts rest
    inferInstanceAs (Decidable (_ ∧ _))
  | .value _ :: rest =>
    have := decidableSealedParts rest
    inferInstanceAs (Decidable (_ ∧ _))

/-- A part of a message in a template literal. -/
def MessagePart.literal : MessagePart → List Char
  | text s => Script.templateText s.toList
  | value r => '$' :: '\x7b' :: r.text.toList ++ ['\x7d']

theorem toList_messageLiteral (m : Message) :
    (Script.messageLiteral m).toList = tick :: (m.parts.flatMap MessagePart.literal ++ [tick]) := by
  have delimiter : "`".toList = [tick] := by decide
  simp only [Script.messageLiteral, String.toList_append, delimiter, String.toList_join, List.flatMap_map]
  refine congrArg (fun f => tick :: (m.parts.flatMap f ++ [tick])) (funext fun part => ?_)
  cases part with
  | text s => simp [MessagePart.literal]
  | value r => simp [MessagePart.literal, Script.interpolated]

/-- What comes next in a literal is a brace just if it is one in the message. -/
theorem head_literals (parts : List MessagePart) :
    (parts.flatMap MessagePart.literal ++ [tick]).head? = some '\x7b' ↔
      (parts.flatMap MessagePart.pieces).head? = some (.char '\x7b') := by
  induction parts with
  | nil => simp [tick]
  | cons part parts ih =>
      cases part with
      | text s =>
          rw [List.flatMap_cons, List.flatMap_cons, List.append_assoc, MessagePart.literal,
            Quotation.head_templateText_append, MessagePart.pieces]
          cases s.toList with
          | nil => exact ih
          | cons c cs => simp
      | value r => simp [MessagePart.literal, MessagePart.pieces]

/-- What is read of the parts of a message. -/
theorem scan_literals_iff (parts : List MessagePart) :
    Quotation.scan .template .text (parts.flatMap MessagePart.literal ++ [tick]) =
        some (parts.flatMap MessagePart.pieces, []) ↔
      SealedParts parts := by
  induction parts with
  | nil => exact iff_of_true (Quotation.scan_end .template []) trivial
  | cons part parts ih =>
      rw [List.flatMap_cons, List.flatMap_cons, List.append_assoc]
      cases part with
      | text s =>
          rw [MessagePart.literal, MessagePart.pieces, Quotation.scan_templateText_iff, Quotation.Apart,
            head_literals, ih]
          rfl
      | value r =>
          have literal : (MessagePart.value r).literal ++ (parts.flatMap MessagePart.literal ++ [tick]) =
              '$' :: '\x7b' :: r.text.toList ++ '\x7d' :: (parts.flatMap MessagePart.literal ++ [tick]) := by
            simp [MessagePart.literal]
          have pieces : (MessagePart.value r).pieces = [.value (String.ofList r.text.toList)] := by
            rw [String.ofList_toList]
            rfl
          rw [literal, pieces, List.singleton_append, Quotation.scan_interpolation_iff, ih]
          rfl

theorem Quotation.fill_chars {env : String → Except Error String} (s : List Char) (others : List Quotation.Piece) :
    Quotation.fill env (s.map .char ++ others) = (Quotation.fill env others).map (String.ofList s ++ ·) := by
  induction s with
  | nil => cases h : Quotation.fill env others <;> simp [Except.map, h]
  | cons c s ih =>
      rw [List.map_cons, List.cons_append, Quotation.fill, ih]
      cases Quotation.fill env others <;> simp [Except.map, ← String.toList_inj]

/-- Pieces make the text of their message where expressions have the values of references. -/
theorem fill_pieces {scope : Scope} {env : String → Except Error String} (parts : List MessagePart)
    (values : ∀ r, .value r ∈ parts → env r.text = (r.value scope).map Json.inMessage) :
    Quotation.fill env (parts.flatMap MessagePart.pieces) =
      (parts.mapM (MessagePart.fill scope)).map String.join := by
  induction parts with
  | nil => rfl
  | cons part parts ih =>
      have ih := ih fun r mem => values r (List.mem_cons_of_mem _ mem)
      rw [List.flatMap_cons, List.mapM_cons]
      cases part with
      | text s =>
          rw [MessagePart.pieces, Quotation.fill_chars, ih, MessagePart.fill]
          cases parts.mapM (MessagePart.fill scope) <;>
            simp [Except.map, bind, Except.bind, pure, Except.pure]
      | value r =>
          rw [MessagePart.pieces, List.singleton_append, Quotation.fill, values r List.mem_cons_self, ih,
            MessagePart.fill]
          cases (r.value scope).map Json.inMessage with
          | error e => rfl
          | ok shown =>
              cases parts.mapM (MessagePart.fill scope) <;>
                simp [Except.map, bind, Except.bind, pure, Except.pure]

/-- The literal of a message is read to its end and says what the message says, just if no expression opens
between two texts and none is closed early. What it says comes to the text of the message, or to the same error,
where every expression has the value of its reference. -/
theorem messageLiteral_read (m : Message) :
    (Quotation.read .template (Script.messageLiteral m) = some (m.pieces, []) ↔ SealedParts m.parts) ∧
      ∀ (scope : Scope) (env : String → Except Error String),
        (∀ r, .value r ∈ m.parts → env r.text = (r.value scope).map Json.inMessage) →
          Quotation.fill env m.pieces = m.fill scope := by
  refine ⟨?_, fun scope env values => fill_pieces m.parts values⟩
  rw [Quotation.read, toList_messageLiteral]
  exact scan_literals_iff m.parts

/-- A message with delimiters, backslashes, dollar signs and braces at the edges of its texts. -/
def priceMessage : Message :=
  ⟨[.text "`\\$\x7b", .value (.param "_0"), .text "\x7d costs $", .value (.field (.doc "_x0") "price"), .text "$",
    .text "", .text "$\x7b\\"]⟩

/-- What the references of `priceMessage` mean. -/
def priceScope : Scope :=
  ⟨[("_0", .str "a`b")], [("_x0", .obj [("price", .num (.int 5))])]⟩

theorem messageLiteral_read_price :
    Quotation.read .template (Script.messageLiteral priceMessage) = some (priceMessage.pieces, []) ∧
      ∃ env, env "params._0" = .ok "a`b" ∧ env "_x0.price" = .ok "5" ∧
        Quotation.fill env priceMessage.pieces = priceMessage.fill priceScope ∧
          priceMessage.fill priceScope = .ok "`\\$\x7ba`b\x7d costs $5$$\x7b\\" := by
  obtain ⟨reads, fills⟩ := messageLiteral_read priceMessage
  refine ⟨reads.mpr (by decide), fun e => .ok (if e = "params._0" then "a`b" else "5"), rfl, rfl,
    fills _ _ ?_, ?_⟩
  · intro r mem
    have found : r = .param "_0" ∨ r = .field (.doc "_x0") "price" := by simpa [priceMessage] using mem
    rcases found with rfl | rfl
    · rfl
    · rfl
  · rfl

/-- A message in two texts, with a dollar sign at the end of one and a brace at the beginning of the other. -/
def seamMessage : Message := ⟨[.text "cost $", .text "\x7bx\x7d"]⟩

/-- A dollar sign and a brace that belong to two texts make an expression in the literal, which the message does
not have. -/
theorem messageLiteral_seam :
    Quotation.read .template (Script.messageLiteral seamMessage) =
        some ("cost ".toList.map .char ++ [.value "x"], []) ∧
      ∀ scope, seamMessage.fill scope = .ok "cost $\x7bx\x7d" := by
  refine ⟨by decide +kernel, fun scope => ?_⟩
  rfl

end DocGraph
