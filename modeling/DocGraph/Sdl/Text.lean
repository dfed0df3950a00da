import DocGraph.Json.Reader

/-! # Texts and numbers in schema text

The two forms of a text, between quotes with escapes and in a block between triple quotes, and the
written numbers. Each function tells how many characters it took. -/

namespace DocGraph.Sdl

/-! ### Quoted texts -/

/-- The character written by `\u` and four hexadecimal digits; halves of pairs are not written. -/
def unicodeEscape? (cs : List Char) : Option Char :=
  match Json.readHex4 cs with
  | some (n, _) => if 0xD800 ≤ n ∧ n < 0xE000 then none else some (Char.ofNat n)
  | none => none

/-- The characters up to the closing quote, the end of the line or an escape that means nothing,
with escapes resolved, and how many were taken. -/
def quotedContent : Nat → List Char → List Char × Nat
  | 0, _ => ([], 0)
  | _ + 1, [] => ([], 0)
  | fuel + 1, c :: rest =>
    let next (d : Char) (taken : Nat) (rest : List Char) : List Char × Nat :=
      let (ds, n) := quotedContent fuel rest
      (d :: ds, n + taken)
    if c = '"' ∨ c = '\n' ∨ c = '\r' then ([], 0)
    else if c = '\\' then
      match rest with
      | [] => ([], 0)
      | e :: rest =>
        if e = 'u' then
          match unicodeEscape? rest with
          | some d => next d 6 (rest.drop 4)
          | none => ([], 0)
        else
          match Json.escape? e with
          | some d => next d 2 rest
          | none => ([], 0)
    else next c 1 rest

/-! ### Blocks -/

/-- The characters up to three quotes; an escaped triple is kept as it is written. -/
def blockContent : List Char → List Char
  | '\\' :: '"' :: '"' :: '"' :: rest => '\\' :: '"' :: '"' :: '"' :: blockContent rest
  | '"' :: '"' :: '"' :: _ => []
  | c :: rest => c :: blockContent rest
  | [] => []

/-- The lines of a block; a line ends with a carriage return, a line feed or both. -/
def blockLines (line : List Char) : List Char → List (List Char)
  | '\r' :: '\n' :: rest => line.reverse :: blockLines [] rest
  | '\r' :: rest => line.reverse :: blockLines [] rest
  | '\n' :: rest => line.reverse :: blockLines [] rest
  | c :: rest => blockLines (c :: line) rest
  | [] => [line.reverse]

/-- Whether a character indents a line. -/
def isIndent (c : Char) : Bool :=
  c == ' ' || c == '\t'

/-- The smallest indent of the lines that hold anything else. -/
def commonIndent (lines : List (List Char)) : Nat :=
  let indents := (lines.filter fun l => !l.all isIndent).map fun l => (l.takeWhile isIndent).length
  indents.foldl (fun least n => if n < least then n else least) (indents.headD 0)

/-- The text of a block: lines after the first lose their common indent, and empty lines at both
ends are left out. -/
def blockText (content : List Char) : String :=
  match blockLines [] content with
  | [] => ""
  | first :: others =>
    let indent := commonIndent others
    let cut (l : List Char) : List Char := if indent ≤ l.length then l.drop indent else l
    let lines := first :: others.map cut
    let empty (l : List Char) : Bool := l.all isIndent
    let kept := (((lines.dropWhile empty).reverse).dropWhile empty).reverse
    "\n".intercalate (kept.map String.ofList)

/-! ### Numbers -/

/-- The number at the head of a text and how many characters it takes. A point or an exponent mark
without digits does not belong to it. -/
def numeral? (cs : List Char) : Option (Numeral × Nat) := do
  let (negative, tail) := match cs with
    | '-' :: tail => (true, tail)
    | _ => (false, cs)
  let (whole, tail) ← Numeral.readWhole tail
  let (fraction, tail) := (Numeral.readFraction tail).getD (none, tail)
  let (exponent, tail) := (Numeral.readExponent tail).getD (none, tail)
  pure (⟨negative, whole, fraction, exponent⟩, cs.length - tail.length)

end DocGraph.Sdl
