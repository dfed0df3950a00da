import DocGraph.Json.Basic
import DocGraph.Number.Reader

/-! # Reading JSON text

A reader takes the characters of a text and gives a value with the characters left over. Arrays and
objects lie inside one another up to a *room*, which each of them makes less by one; a text that goes
deeper is refused. The steps of a reader are bounded by the length of the text, which is the depth that
`Json.parse?` starts with. In an object a repeated name keeps its first place and its last value. -/

namespace DocGraph.Json

/-- The text from its first character that is not layout. -/
def skipLayout (cs : List Char) : List Char :=
  cs.dropWhile fun c => c == ' ' || c == '\n' || c == '\t' || c == '\r'

/-- The value of a hexadecimal digit. -/
def hexDigit? (c : Char) : Option Nat :=
  if '0' ≤ c ∧ c ≤ '9' then some (c.toNat - 48)
  else if 'a' ≤ c ∧ c ≤ 'f' then some (c.toNat - 87)
  else if 'A' ≤ c ∧ c ≤ 'F' then some (c.toNat - 55)
  else none

/-- Four hexadecimal digits, and the rest. -/
def readHex4 : List Char → Option (Nat × List Char)
  | a :: b :: c :: d :: rest => do
    let a ← hexDigit? a
    let b ← hexDigit? b
    let c ← hexDigit? c
    let d ← hexDigit? d
    pure (((a * 16 + b) * 16 + c) * 16 + d, rest)
  | _ => none

/-- The character of a one-letter escape. -/
def escape? : Char → Option Char
  | '"' => some '"'
  | '\\' => some '\\'
  | '/' => some '/'
  | 'b' => some '\x08'
  | 'f' => some '\x0c'
  | 'n' => some '\n'
  | 'r' => some '\r'
  | 't' => some '\t'
  | _ => none

/-- The character written by four hexadecimal digits, or by two such groups when the first is the
upper half of a pair. -/
def readUnicode (cs : List Char) : Option (Char × List Char) := do
  let (n, rest) ← readHex4 cs
  if 0xD800 ≤ n ∧ n < 0xDC00 then
    match rest with
    | '\\' :: 'u' :: rest =>
      let (m, rest) ← readHex4 rest
      if 0xDC00 ≤ m ∧ m < 0xE000 then
        pure (Char.ofNat (0x10000 + (n - 0xD800) * 0x400 + (m - 0xDC00)), rest)
      else none
    | _ => none
  else if 0xDC00 ≤ n ∧ n < 0xE000 then none
  else pure (Char.ofNat n, rest)

/-- The characters of a text up to its closing quote, after those in `acc`. -/
def readText : Nat → List Char → List Char → Option (String × List Char)
  | 0, _, _ => none
  | _ + 1, _, [] => none
  | depth + 1, acc, c :: rest =>
    if c = '"' then some (String.ofList acc.reverse, rest)
    else if c = '\\' then
      match rest with
      | [] => none
      | e :: rest =>
        if e = 'u' then
          match readUnicode rest with
          | none => none
          | some (c, rest) => readText depth (c :: acc) rest
        else
          match escape? e with
          | none => none
          | some c => readText depth (c :: acc) rest
    else if c.toNat < 32 then none
    else readText depth (c :: acc) rest

/-- The number at the head of a text. -/
def readNumber (cs : List Char) : Option (Json × List Char) := do
  let (w, rest) ← Numeral.read cs
  let n ← w.number?
  pure (num n, rest)

mutual

/-- The value at the head of a text. -/
def readValue : (depth room : Nat) → List Char → Option (Json × List Char)
  | 0, _, _ => none
  | depth + 1, room, cs =>
    match skipLayout cs with
    | 'n' :: 'u' :: 'l' :: 'l' :: rest => some (null, rest)
    | 't' :: 'r' :: 'u' :: 'e' :: rest => some (bool true, rest)
    | 'f' :: 'a' :: 'l' :: 's' :: 'e' :: rest => some (bool false, rest)
    | '"' :: rest => (readText (rest.length + 1) [] rest).map fun (s, rest) => (str s, rest)
    | '[' :: rest =>
      if room = 0 then none
      else
        match skipLayout rest with
        | ']' :: rest => some (arr [], rest)
        | rest => readItems depth (room - 1) [] rest
    | '\x7b' :: rest =>
      if room = 0 then none
      else
        match skipLayout rest with
        | '\x7d' :: rest => some (obj [], rest)
        | rest => readFields depth (room - 1) [] rest
    | cs => readNumber cs

/-- The items of an array up to its closing bracket, after those in `acc`. -/
def readItems : (depth room : Nat) → List Json → List Char → Option (Json × List Char)
  | 0, _, _, _ => none
  | depth + 1, room, acc, cs =>
    match readValue depth room cs with
    | none => none
    | some (v, rest) =>
      match skipLayout rest with
      | ',' :: rest => readItems depth room (v :: acc) rest
      | ']' :: rest => some (arr (v :: acc).reverse, rest)
      | _ => none

/-- The fields of an object up to its closing brace, after those in `acc`. -/
def readFields : (depth room : Nat) → List (String × Json) → List Char → Option (Json × List Char)
  | 0, _, _, _ => none
  | depth + 1, room, acc, cs =>
    match skipLayout cs with
    | '"' :: rest =>
      match readText (rest.length + 1) [] rest with
      | none => none
      | some (name, rest) =>
        match skipLayout rest with
        | ':' :: rest =>
          match readValue depth room rest with
          | none => none
          | some (v, rest) =>
            match skipLayout rest with
            | ',' :: rest => readFields depth room ((name, v) :: acc) rest
            | '\x7d' :: rest => some (obj (Record.ofList ((name, v) :: acc).reverse), rest)
            | _ => none
        | _ => none
    | _ => none

end

/-- How many arrays and objects may lie inside one another. -/
def maxNesting : Nat := 127

/-- The value written by a text. -/
def parse? (s : String) : Option Json :=
  let cs := s.toList
  match readValue (2 * cs.length + 2) maxNesting cs with
  | some (v, rest) => if (skipLayout rest).isEmpty then some v else none
  | none => none

end DocGraph.Json
