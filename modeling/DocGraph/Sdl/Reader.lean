/-! # Readers for schema text

A reader takes part of a text from a cursor on, with ordered choice and greedy repetition, and never
goes back into a repetition. Three ways of *spacing* decide what may stand between its parts: *free*
spacing lets blanks, commas and comments stand there, *tight* spacing lets nothing stand there, and
*closed* spacing is tight and hides the parts from error reports.

A text that does not read is reported at the furthest place where a named rule failed. Readers
carry that place along: `rule` notes where it starts when it fails, or when it succeeds where it
must not (`absent`), unless the spacing around it is closed. -/

namespace DocGraph.Sdl

/-- What may stand between the parts of a rule. -/
inductive Spacing where
  | free
  | tight
  | closed
deriving DecidableEq, Repr

/-- The spacing around a reader, and whether it is wanted to fail. -/
structure Mode where
  spacing : Spacing
  negated : Bool

/-- A place in a text: the characters that follow, and how many came before. -/
structure Cursor where
  rest : List Char
  offset : Nat

/-- A reader gives a value and the place after it, or nothing; either way it gives the furthest
place noted so far. -/
def Reader (α : Type) := Mode → Cursor → Nat → Option (α × Cursor) × Nat

namespace Reader

variable {α β : Type}

def pure (a : α) : Reader α := fun _ c furthest => (some (a, c), furthest)

def bind (r : Reader α) (f : α → Reader β) : Reader β := fun m c furthest =>
  match r m c furthest with
  | (none, furthest) => (none, furthest)
  | (some (a, c), furthest) => f a m c furthest

instance : Monad Reader where
  pure := pure
  bind := bind

/-- The first reader, or the second from the same place. -/
def orElse (r : Reader α) (s : Unit → Reader α) : Reader α := fun m c furthest =>
  match r m c furthest with
  | (none, furthest) => s () m c furthest
  | done => done

instance : OrElse (Reader α) := ⟨orElse⟩

/-- A reader whose absence is no failure. -/
def optional (r : Reader α) : Reader (Option α) := fun m c furthest =>
  match r m c furthest with
  | (none, furthest) => (some (none, c), furthest)
  | (some (a, c), furthest) => (some (some a, c), furthest)

/-- As many in a row as can be read, at most `count`. -/
def upTo (r : Reader α) : Nat → Reader (List α)
  | 0 => pure []
  | count + 1 => fun m c furthest =>
    match r m c furthest with
    | (none, furthest) => (some ([], c), furthest)
    | (some (a, c), furthest) => (upTo r count).bind (fun rest => pure (a :: rest)) m c furthest

/-- As many in a row as can be read. Each takes at least one character, so the length of the text
bounds their number, and the last try fails. -/
def many (r : Reader α) : Reader (List α) := fun m c furthest =>
  upTo r (c.rest.length + 1) m c furthest

/-- At least one in a row. -/
def atLeastOne (r : Reader α) : Reader (List α) := do
  let a ← r
  let rest ← many r
  return a :: rest

/-! ### Spacing -/

/-- Whether a character may stand between parts: a blank, a tab, a comma, a byte order mark or the
end of a line. -/
def isSpace (c : Char) : Bool :=
  c == ' ' || c == ',' || c == '\t' || c == '\n' || c == '\r' || c.toNat == 0xFEFF

/-- The place after spaces and comments; a comment goes from a number sign to the end of its line. -/
def skipSpaces (inComment : Bool) (offset : Nat) : List Char → Cursor
  | [] => ⟨[], offset⟩
  | c :: rest =>
    if inComment then skipSpaces (c != '\n' && c != '\r') (offset + 1) rest
    else if isSpace c then skipSpaces false (offset + 1) rest
    else if c == '#' then skipSpaces true (offset + 1) rest
    else ⟨c :: rest, offset⟩

/-- The place where the next part starts. -/
def Mode.start (m : Mode) (c : Cursor) : Cursor :=
  if m.spacing = .free then skipSpaces false c.offset c.rest else c

/-- Where the next part starts. -/
def here : Reader Nat := fun m c furthest =>
  let c := Mode.start m c
  (some (c.offset, c), furthest)

/-! ### Parts -/

/-- A function that takes characters from the head of a text and tells how many it took. -/
def take (f : List Char → Option (α × Nat)) : Reader α := fun m c furthest =>
  let c := Mode.start m c
  match f c.rest with
  | none => (none, furthest)
  | some (a, n) => (some (a, ⟨c.rest.drop n, c.offset + n⟩), furthest)

/-- A fixed text. -/
def text (s : String) : Reader Unit :=
  take fun cs =>
    if s.toList.isPrefixOf cs then some ((), s.toList.length) else none

/-- One character of a class. -/
def char (test : Char → Bool) : Reader Char :=
  take fun cs =>
    match cs with
    | c :: _ => if test c then some (c, 1) else none
    | [] => none

/-- As many characters of a class as follow. -/
def chars (test : Char → Bool) : Reader (List Char) :=
  take fun cs =>
    let taken := cs.takeWhile test
    some (taken, taken.length)

/-- Fails where `r` can be read, and takes nothing. -/
def absent (r : Reader α) : Reader Unit := fun m c furthest =>
  match r { m with negated := !m.negated } c furthest with
  | (some _, furthest) => (none, furthest)
  | (none, furthest) => (some ((), c), furthest)

/-- Notes a place. -/
def note (m : Mode) (offset furthest : Nat) : Nat :=
  if m.spacing = .closed then furthest
  else if furthest < offset then offset
  else furthest

/-- A named rule with the spacing of its parts; without one it takes over the spacing around it. -/
def rule (spacing : Option Spacing) (r : Reader α) : Reader α := fun m c furthest =>
  let c := Mode.start m c
  let inner := { m with spacing := spacing.getD m.spacing }
  match r inner c furthest with
  | (none, furthest) => (none, if m.negated then furthest else note m c.offset furthest)
  | (some done, furthest) =>
    (some done, if m.negated then note m c.offset furthest else furthest)

/-- The end of the text, as a named rule. -/
def atEnd : Reader Unit :=
  rule none (take fun cs => if cs.isEmpty then some ((), 0) else none)

/-- Reads a whole text with free spacing; otherwise gives the furthest place noted. -/
def run (r : Reader α) (s : String) : Except Nat α :=
  match r ⟨.free, false⟩ ⟨s.toList, 0⟩ 0 with
  | (some (a, _), _) => .ok a
  | (none, furthest) => .error furthest

end Reader

end DocGraph.Sdl
