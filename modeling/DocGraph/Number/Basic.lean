import DocGraph.Number.Shortest

/-! # Numbers

A number is a whole number or a double, and the two are never the same value. For ordering both are
read as doubles. `Numeral` is a number as it is written; `Numeral.number?` reads it. Digits are
gathered in 64 bits: a digit that no longer fits is dropped together with those after it, and the
rest is scaled by a power of ten in double arithmetic. -/

namespace DocGraph

/-- A whole number between `-2 ^ 63` and `2 ^ 64 - 1`, or a double. -/
inductive Number where
  | int (n : Int)
  | double (x : Double)
deriving DecidableEq, Repr

namespace Number

/-- The number as a double. -/
def toDouble : Number → Double
  | int n => Double.ofInt n
  | double x => x

/-- The place of a number in the order of doubles. -/
def rank (a : Number) : Int :=
  a.toDouble.units

/-- The same number in the same form. -/
def same : Number → Number → Bool
  | int m, int n => m == n
  | double x, double y => x.sameValue y
  | _, _ => false

/-- Whether the number is other than zero. -/
def isNonzero (a : Number) : Bool :=
  a.rank != 0

/-- A whole number that is not negative. -/
def toNat? : Number → Option Nat
  | int n => if 0 ≤ n then some n.toNat else none
  | double _ => none

/-- The number in decimal. -/
def text : Number → String
  | int n => toString n
  | double x => x.text

end Number

/-! ### Reading -/

/-- A number as it is written: sign, digits before and after the point, exponent. -/
structure Numeral where
  negative : Bool
  whole : List Nat
  fraction : Option (List Nat)
  exponent : Option (Bool × List Nat)

namespace Numeral

/-- Digits gathered onto `n` while the result stays below `2 ^ 64`, and the digits left over. -/
def gather (n : Nat) : List Nat → Nat × List Nat
  | [] => (n, [])
  | d :: ds => if n * 10 + d < Nat.pow 2 64 then gather (n * 10 + d) ds else (n, d :: ds)

/-- The value of a list of digits. -/
def digitsValue (ds : List Nat) : Nat :=
  ds.foldl (fun n d => n * 10 + d) 0

/-- The written exponent; a large one counts as `± 2 ^ 31`. -/
def exponentValue (w : Numeral) : Int :=
  match w.exponent with
  | none => 0
  | some (down, ds) =>
    let size := digitsValue ds
    let size := if size < Nat.pow 2 31 then size else Nat.pow 2 31
    if down then -(size : Int) else size

/-- The number that is written; none when it lies beyond the doubles. -/
def number? (w : Numeral) : Option Number :=
  let (n, dropped) := gather 0 w.whole
  if w.fraction.isNone && w.exponent.isNone && dropped.isEmpty then
    if w.negative then
      some (if n = 0 ∨ Nat.pow 2 63 < n then .double { Double.ofInt n with negative := true }
        else .int (-n))
    else some (.int n)
  else
    let fraction := w.fraction.getD []
    let (n, rest) := gather n fraction
    let places : Int := (dropped.length : Int) - (fraction.length - rest.length : Nat)
    ((Double.ofInt n).scaleTen (places + w.exponentValue)).map fun x =>
      .double { x with negative := w.negative }

end Numeral

end DocGraph
