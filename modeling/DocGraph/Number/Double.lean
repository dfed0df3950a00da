/-! # Finite doubles

A double is `± mantissa · 2 ^ exponent` with a mantissa below `2 ^ 53` and an exponent between
`-1074` and `971`. All arithmetic is exact arithmetic on natural numbers followed by one rounding:
`Double.ofRatio` is the double nearest to a fraction, a tie going to the even mantissa, and products
and quotients are rounded through it. Every double is a whole multiple of `2 ^ -1074`; that multiple,
`Double.units`, orders the doubles. -/

namespace DocGraph

/-- The number `± mantissa · 2 ^ exponent`. -/
structure Double where
  negative : Bool
  mantissa : Nat
  exponent : Int
deriving DecidableEq, Repr

namespace Double

/-- Exponent of the finest doubles. -/
def minExponent : Int := -1074

/-- Exponent of the coarsest doubles. -/
def maxExponent : Int := 971

/-- Zero with a sign. -/
def zero (negative : Bool) : Double := ⟨negative, 0, minExponent⟩

/-- The value in units of `2 ^ -1074`. -/
def units (x : Double) : Int :=
  let size := x.mantissa * Nat.pow 2 (x.exponent - minExponent).toNat
  if x.negative then -(size : Int) else size

/-! ### Rounding -/

/-- The whole number nearest to `num / den`, a tie going to the even one. -/
def roundDiv (num den : Nat) : Nat :=
  let q := num / den
  let r := num % den
  if 2 * r < den then q
  else if den < 2 * r then q + 1
  else if q % 2 = 0 then q
  else q + 1

/-- Numerator and denominator of `num / den / 2 ^ e`. -/
def unscale (num den : Nat) (e : Int) : Nat × Nat :=
  if 0 ≤ e then (num, den * Nat.pow 2 e.toNat) else (num * Nat.pow 2 (-e).toNat, den)

/-- The exponent at which `num / den` has a mantissa of 53 bits, or the least exponent. -/
def fitExponent (num den : Nat) : Int :=
  let guess : Int := (num.log2 : Int) - den.log2 - 52
  let (n, d) := unscale num den guess
  let e := if n / d < Nat.pow 2 52 then guess - 1 else guess
  if e < minExponent then minExponent else e

/-- The double nearest to `± num / den`; none when that lies beyond the largest double. -/
def ofRatio (negative : Bool) (num den : Nat) : Option Double :=
  if num = 0 then some (zero negative)
  else
    let e := fitExponent num den
    let (n, d) := unscale num den e
    let m := roundDiv n d
    let (m, e) := if m = Nat.pow 2 53 then (Nat.pow 2 52, e + 1) else (m, e)
    if maxExponent < e then none else some ⟨negative, m, e⟩

/-- The double nearest to `± num · 2 ^ e / den`. -/
def ofScaled (negative : Bool) (num den : Nat) (e : Int) : Option Double :=
  let (n, d) := unscale num den (-e)
  ofRatio negative n d

/-- The double nearest to a whole number of moderate size. -/
def ofInt (n : Int) : Double :=
  (ofRatio (n < 0) n.natAbs 1).getD (zero (n < 0))

/-- The rounded product. -/
def prod (x y : Double) : Option Double :=
  ofScaled (x.negative != y.negative) (x.mantissa * y.mantissa) 1 (x.exponent + y.exponent)

/-- The rounded quotient by a nonzero divisor. -/
def quot (x y : Double) : Option Double :=
  ofScaled (x.negative != y.negative) x.mantissa y.mantissa (x.exponent - y.exponent)

/-- The double nearest to `10 ^ k`. -/
def powTen (k : Nat) : Double :=
  (ofRatio false (Nat.pow 10 k) 1).getD (zero false)

/-- The largest power of ten that is a double. -/
def maxPowTen : Nat := 308

/-- `x · 10 ^ e` by one rounded product or quotient with a power of ten, after rounded divisions by
the largest one while the exponent is below its reach; none when the result is too large. -/
def scaleTen (x : Double) (e : Int) : Option Double :=
  if e.natAbs ≤ maxPowTen then
    if 0 ≤ e then x.prod (powTen e.natAbs) else x.quot (powTen e.natAbs)
  else if x.mantissa = 0 then some x
  else if 0 ≤ e then none
  else
    match x.quot (powTen maxPowTen) with
    | none => none
    | some y => scaleTen y (e + maxPowTen)
termination_by e.natAbs
decreasing_by
  simp only [maxPowTen] at *
  omega

/-- Whether two doubles are the same number; the zeros of both signs are. -/
def sameValue (x y : Double) : Bool :=
  x.units == y.units

end Double

end DocGraph
