import DocGraph.Number.Double

/-! # The fewest digits that read back

The numbers that round to a double form an interval around it. `Double.shortest` searches that
interval for the multiple of the highest power of ten, which is the decimal with the fewest digits:
on each power of ten it tries the two multiples next to the double, takes the nearer one when both
lie in the interval, and the even one when they are equally near. `Double.text` writes the digits
out. -/

namespace DocGraph.Double

/-- The interval of numbers that round to a double, as four times the mantissa at its two ends. -/
structure Interval where
  low : Nat
  high : Nat
  closed : Bool

/-- The ends of the interval lie half a step away; below a power of two the step is halved. They
belong to it when the mantissa is even. -/
def interval (x : Double) : Interval where
  low := 4 * x.mantissa - if x.mantissa = Nat.pow 2 52 ∧ minExponent < x.exponent then 1 else 2
  high := 4 * x.mantissa + 2
  closed := x.mantissa % 2 = 0

/-- Scale factors `a` and `b` such that `q` quarters of the double's unit equal `d · 10 ^ p` exactly
when `q * a = d * b`. -/
def gridScale (x : Double) (p : Int) : Nat × Nat :=
  let e := x.exponent - 2
  (Nat.pow 2 e.toNat * Nat.pow 10 (-p).toNat, Nat.pow 2 (-e).toNat * Nat.pow 10 p.toNat)

/-- The multiple of `10 ^ p` that reads back as the double and is nearest to it, if there is one. -/
def onGrid? (x : Double) (p : Int) : Option Nat :=
  let (a, b) := x.gridScale p
  let i := x.interval
  let inside (d : Nat) : Bool :=
    if i.closed then i.low * a ≤ d * b && d * b ≤ i.high * a
    else i.low * a < d * b && d * b < i.high * a
  let value := 4 * x.mantissa * a
  let d := value / b
  match inside d, inside (d + 1) with
  | true, true =>
    if 2 * value < (2 * d + 1) * b then some d
    else if (2 * d + 1) * b < 2 * value then some (d + 1)
    else if d % 2 = 0 then some d
    else some (d + 1)
  | true, false => some d
  | false, true => some (d + 1)
  | false, false => none

/-- A power of ten above the double, from which the search starts. -/
def topPower (x : Double) : Int :=
  ((x.mantissa.log2 : Int) + x.exponent) * 30103 / 100000 + 2

/-- The first hit on the powers of ten from `p` down. -/
def search (x : Double) : Nat → Int → Nat × Int
  | 0, p => (0, p)
  | steps + 1, p =>
    match x.onGrid? p with
    | some d => (d, p)
    | none => search x steps (p - 1)

/-- Digits `d` and power `p` of the decimal `d · 10 ^ p` with the fewest digits that reads back as
the double. Seventeen digits always suffice, so the search is over after twenty steps. -/
def shortest (x : Double) : Nat × Int :=
  search x 20 x.topPower

/-! ### Layout -/

/-- Digits with the decimal point after the first `point` of them: positional between `10 ^ -5` and
`10 ^ 16`, with at least one digit on either side of the point, and scientific with a signed exponent
elsewhere. -/
def layout (digits : List Char) (point : Int) : List Char :=
  if -5 < point ∧ point ≤ 16 then
    if point ≤ 0 then ['0', '.'] ++ List.replicate (-point).toNat '0' ++ digits
    else
      let whole := digits.take point.toNat
      let fraction := digits.drop point.toNat
      whole ++ List.replicate (point.toNat - whole.length) '0' ++ ['.'] ++
        if fraction.isEmpty then ['0'] else fraction
  else
    let tail := digits.drop 1
    let exponent := point - 1
    digits.take 1 ++ (if tail.isEmpty then [] else '.' :: tail) ++
      ['e', if exponent < 0 then '-' else '+'] ++ Nat.toDigits 10 exponent.natAbs

/-- The double in the fewest digits. -/
def text (x : Double) : String :=
  let sign := if x.negative then ['-'] else []
  if x.mantissa = 0 then String.ofList (sign ++ ['0', '.', '0'])
  else
    let (d, p) := x.shortest
    let digits := Nat.toDigits 10 d
    String.ofList (sign ++ layout digits (digits.length + p))

end DocGraph.Double
