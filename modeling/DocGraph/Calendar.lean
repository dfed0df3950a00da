import DocGraph.Number.Reader
import DocGraph.Text.Blank

/-! # Points in time

Dates of the proleptic Gregorian calendar and the two written forms of a point in time: a full time
stamp with an offset (`readStamp?`) and a bare date, which stands for midnight (`readDate?`). A point in
time is the number of milliseconds since the beginning of 1970. -/

namespace DocGraph.Calendar

/-! ### Dates -/

/-- A day of the calendar. -/
structure Date where
  year : Int
  month : Nat
  day : Nat
deriving DecidableEq, Repr

def isLeap (year : Int) : Bool :=
  year % 4 == 0 && (year % 100 != 0 || year % 400 == 0)

/-- The lengths of the months of a year. -/
def monthLengths (year : Int) : List Nat :=
  [31, if isLeap year then 29 else 28, 31, 30, 31, 30, 31, 31, 30, 31, 30, 31]

namespace Date

/-- Whether the day exists. -/
def isValid (d : Date) : Bool :=
  1 ≤ d.month && 1 ≤ d.day &&
    match (monthLengths d.year)[d.month - 1]? with
    | some length => d.day ≤ length
    | none => false

/-- Days from the beginning of the year 0 to the beginning of a year. -/
def daysBeforeYear (year : Int) : Int :=
  365 * year + (year + 3) / 4 - (year + 99) / 100 + (year + 399) / 400

/-- Days since the beginning of 1970. -/
def dayNumber (d : Date) : Int :=
  daysBeforeYear d.year + ((monthLengths d.year).take (d.month - 1)).foldl Nat.add 0 + d.day - 1 - 719528

/-- Midnight of the day. -/
def millis (d : Date) : Int :=
  d.dayNumber * 86400000

end Date

/-! ### Written forms -/

/-- Exactly `count` decimal digits. -/
def readFixed (count : Nat) (cs : List Char) : Option (Nat × List Char) :=
  let head := cs.take count
  if head.length = count ∧ head.all Char.isDigit then
    some (Numeral.digitsValue (head.filterMap Numeral.digit?), cs.drop count)
  else none

/-- A given character. -/
def readChar (c : Char) : List Char → Option (List Char)
  | d :: rest => if d = c then some rest else none
  | [] => none

/-- The fraction of a second in milliseconds; digits after the ninth do not count. -/
def readMillis : List Char → Option (Nat × List Char)
  | '.' :: rest =>
    match Numeral.digits rest with
    | ([], _) => none
    | (ds, rest) =>
      let nine := (ds ++ List.replicate 9 0).take 9
      some (Numeral.digitsValue nine / 1000000, rest)
  | cs => some (0, cs)

/-- The offset from universal time in minutes. -/
def readOffset : List Char → Option (Int × List Char)
  | [] => none
  | c :: rest =>
    if c = 'Z' ∨ c = 'z' then some (0, rest)
    else if c = '+' ∨ c = '-' ∨ c = '−' then do
      let (hours, rest) ← readFixed 2 rest
      let rest ← readChar ':' rest
      let (minutes, rest) ← readFixed 2 rest
      if hours ≤ 23 ∧ minutes ≤ 59 then
        let size : Int := hours * 60 + minutes
        pure (if c = '+' then size else -size, rest)
      else none
    else none

/-- A full time stamp: date, time of day, optional fraction and offset, with nothing after it. The
second 60 follows the second 59 of any minute. -/
def readStamp? (s : String) : Option Int := do
  let (year, cs) ← readFixed 4 s.toList
  let cs ← readChar '-' cs
  let (month, cs) ← readFixed 2 cs
  let cs ← readChar '-' cs
  let (day, cs) ← readFixed 2 cs
  let cs ← match cs with
    | c :: rest => if c = 'T' ∨ c = 't' ∨ c = ' ' then some rest else none
    | [] => none
  let (hour, cs) ← readFixed 2 cs
  let cs ← readChar ':' cs
  let (minute, cs) ← readFixed 2 cs
  let cs ← readChar ':' cs
  let (second, cs) ← readFixed 2 cs
  let (fraction, cs) ← readMillis cs
  let (offset, cs) ← readOffset cs
  let date : Date := ⟨year, month, day⟩
  if cs.isEmpty ∧ date.isValid ∧ hour ≤ 23 ∧ minute ≤ 59 ∧ second ≤ 60 then
    pure (date.millis + ((hour * 60 + minute) * 60 + second) * 1000 + fraction - offset * 60000)
  else none

/-- A number of one to `width` digits after any blanks. -/
def readWidth (width : Nat) (cs : List Char) : Option (Nat × List Char) :=
  let cs := cs.dropWhile Text.isBlank
  match (cs.take width).takeWhile Char.isDigit with
  | [] => none
  | ds => some (Numeral.digitsValue (ds.filterMap Numeral.digit?), cs.drop ds.length)

/-- A year after any blanks: up to four digits, or a sign and any number of them. -/
def readYear (cs : List Char) : Option (Int × List Char) :=
  let signed (rest : List Char) : Option (Nat × List Char) :=
    match Numeral.digits rest with
    | ([], _) => none
    | (ds, rest) =>
      let n := Numeral.digitsValue ds
      if n < Nat.pow 2 63 then some (n, rest) else none
  match cs.dropWhile Text.isBlank with
  | '-' :: rest => (signed rest).map fun (n, rest) => (-(n : Int), rest)
  | '+' :: rest => (signed rest).map fun (n, rest) => ((n : Int), rest)
  | cs => (readWidth 4 cs).map fun (n, rest) => ((n : Int), rest)

/-- A bare date with nothing after it. -/
def readDate? (s : String) : Option Int := do
  let (year, cs) ← readYear s.toList
  let cs ← readChar '-' cs
  let (month, cs) ← readWidth 2 cs
  let cs ← readChar '-' cs
  let (day, cs) ← readWidth 2 cs
  let date : Date := ⟨year, month, day⟩
  if cs.isEmpty ∧ -262143 ≤ year ∧ year ≤ 262142 ∧ date.isValid then pure date.millis
  else none

/-- The point in time that a text writes, in either form. -/
def readMoment? (s : String) : Option Int :=
  match readStamp? s with
  | some t => some t
  | none => readDate? s

end DocGraph.Calendar
