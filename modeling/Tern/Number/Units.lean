/-!
# Doubles counted in units

A finite double is a whole number of units of 2⁻¹⁰⁷⁴, the least positive double. Its bits
without the sign, its *code*, number the doubles from zero upwards in the order of their
values, so the code after the last finite one is infinity's and rounding to the nearest double
is a search for a code. The module gives both directions:

- `units` takes a code to its count of units;
- `codeBelow` finds the largest code with at most so many units;
- `nearestCode` rounds a fraction of units to the nearest code, an exact half to the even one.
-/

namespace Tern.Number

/-- A power of two. -/
abbrev twoTo (n : Nat) : Nat := Nat.pow 2 n

/-- A power of ten. -/
abbrev tenTo (n : Nat) : Nat := Nat.pow 10 n

/-- The code of infinity; smaller codes are the finite doubles, greater ones are not numbers. -/
def infinityCode : Nat := 0x7FF0000000000000

/-- The bits of a double without its sign. -/
def code (x : Float) : Nat := x.toBits.toNat % twoTo 63

/-- Whether the sign bit is set, as it is on negative zero. -/
def isNegative (x : Float) : Bool := decide (twoTo 63 ≤ x.toBits.toNat)

/-- The double with a sign and a code; codes past infinity's are cut down to it. -/
def ofCode (negative : Bool) (k : Nat) : Float :=
  Float.ofBits (UInt64.ofNat ((if negative then twoTo 63 else 0) + min k infinityCode))

/-- The value of a code in units. The 52 low bits are the significand's, with a leading one
from the second binade on. -/
def units (k : Nat) : Nat :=
  if k < twoTo 52 then k else (twoTo 52 + k % twoTo 52) * twoTo (k / twoTo 52 - 1)

/-- The largest code whose value is at most `q` units. -/
def codeBelow (q : Nat) : Nat :=
  let shift := q.log2 - 52
  shift * twoTo 52 + q / twoTo shift

/-- The code nearest to `num / den` units; from the middle between two codes, the even one. -/
def nearestCode (num den : Nat) : Nat :=
  let k := codeBelow (num / den)
  let middle := (units k + units (k + 1)) * den
  if 2 * num < middle ∨ (2 * num = middle ∧ k % 2 = 0) then k else k + 1

/-- The double nearest to `digits · 10 ^ exponent`, with a sign. Exponents so far out that the
value is past every finite double, or under half a unit, are not raised to a power. -/
def ofDecimal (negative : Bool) (digits : Nat) (exponent : Int) : Float :=
  if digits = 0 then ofCode negative 0
  else if 400 < exponent then ofCode negative infinityCode
  else if exponent + digits.log2 < -400 then ofCode negative 0
  else if 0 ≤ exponent then
    ofCode negative (nearestCode (digits * tenTo exponent.toNat * twoTo 1074) 1)
  else
    ofCode negative (nearestCode (digits * twoTo 1074) (tenTo (-exponent).toNat))

/-- The double nearest to a whole number with a sign, if it is finite. -/
def ofWhole? (negative : Bool) (n : Nat) : Option Float :=
  let k := nearestCode (n * twoTo 1074) 1
  if k < infinityCode then some (ofCode negative k) else none

/-- The double nearest to an integer, if it is finite. -/
def ofInt? : Int → Option Float
  | .ofNat n => ofWhole? false n
  | .negSucc n => ofWhole? true (n + 1)

end Tern.Number
