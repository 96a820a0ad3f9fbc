import Tern.Number.Units

/-!
# Shortest decimals

Among the decimals that read back as a given double, `shortest` picks one with the fewest
digits, and among those the nearest, an exact half going to the even digit. The decimals with
the fewest digits are the multiples of the largest power of ten that has a multiple in the
double's rounding interval, and the multiples to try are the value's two neighbours.
-/

namespace Tern.Number

/-- The decimal `digits · 10 ^ exponent`. -/
structure Decimal where
  digits : Nat
  exponent : Int
  deriving Repr, DecidableEq

/-- Twice the value of a code, and the ends of the interval that rounds to it, in half units.
The ends belong to the interval when the code is even. -/
structure Interval where
  low : Nat
  value : Nat
  high : Nat
  closed : Bool
  deriving Repr, DecidableEq

/-- The rounding interval of a positive finite code. -/
def roundingInterval (k : Nat) : Interval where
  low := units (k - 1) + units k
  value := 2 * units k
  high := units k + units (k + 1)
  closed := decide (k % 2 = 0)

/-- A power of ten in half units, as a fraction. -/
def powerInHalfUnits (p : Int) : Nat × Nat :=
  if 0 ≤ p then (tenTo p.toNat * twoTo 1075, 1) else (twoTo 1075, tenTo (-p).toNat)

/-- Whether the fraction `num / den` of half units lies in the interval. -/
def Interval.holds (i : Interval) (num den : Nat) : Bool :=
  (i.low * den < num && num < i.high * den)
    || (i.closed && (i.low * den == num || num == i.high * den))

/-- The multiple of `10 ^ p` in the interval that is nearest to its value, if any is. -/
def Interval.multiple? (i : Interval) (p : Int) : Option Nat :=
  let (num, den) := powerInHalfUnits p
  let below := i.value * den / num
  let above := below + 1
  match i.holds (below * num) den, i.holds (above * num) den with
  | false, false => none
  | true, false => some below
  | false, true => some above
  | true, true =>
    let twice := 2 * i.value * den
    let middle := (below + above) * num
    if twice < middle ∨ (twice = middle ∧ below % 2 = 0) then some below else some above

/-- Tries the powers `p, p - 1, …`, `tries` of them, and falls back on the exact decimal. -/
def searchShortest (k : Nat) (p : Int) : Nat → Decimal
  | 0 => ⟨units k * Nat.pow 5 1074, -1074⟩
  | tries + 1 =>
    match (roundingInterval k).multiple? p with
    | some m => ⟨m, p⟩
    | none => searchShortest k (p - 1) tries

/-- A power of ten above the value of a positive code: 30103/100000 exceeds the decimal logarithm
of two. -/
def topPower (k : Nat) : Int := ((units k).log2 + 1 - 1074 : Int) * 30103 / 100000 + 2

/-- The shortest decimal of a positive finite code. Seventeen digits always suffice, and the
start is within three powers of the first digit. -/
def shortest (k : Nat) : Decimal := searchShortest k (topPower k) 24

end Tern.Number
