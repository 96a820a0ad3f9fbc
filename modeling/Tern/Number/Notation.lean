import Tern.Number.Shortest

/-!
# Numbers as text

Two notations for the shortest decimal of a double. `plain` is the language's own: positional
whatever the size, no point in whole numbers. `literal` is that of number tokens built by hand:
a point or an exponent always, the exponent from 10¹⁶ up and below 10⁻⁴. Integers that are no
doubles, the ends of ranges, are written in full up to a limit of digits (`inFull`).
-/

namespace Tern.Number

/-- Drops the zeros at the end. -/
def dropTrailingZeros (cs : List Char) : List Char := (cs.reverse.dropWhile (· == '0')).reverse

/-- The digits of `n`, with zeros in front up to the given width. -/
def padded (width n : Nat) : List Char :=
  let digits := Nat.toDigits 10 n
  List.replicate (width - digits.length) '0' ++ digits

/-- Positional digits of a decimal: the whole part, and the part after the point without zeros
at its end. -/
def Decimal.positional (d : Decimal) : List Char × List Char :=
  if 0 ≤ d.exponent then (Nat.toDigits 10 (d.digits * tenTo d.exponent.toNat), [])
  else
    let places := (-d.exponent).toNat
    (Nat.toDigits 10 (d.digits / tenTo places),
      dropTrailingZeros (padded places (d.digits % tenTo places)))

/-- Joins a whole part and a fraction, with a point only if there is a fraction. -/
def joinPoint : List Char × List Char → List Char
  | (whole, []) => whole
  | (whole, fraction) => whole ++ '.' :: fraction

/-- The text of a positive finite code or of zero. -/
def plainCode (k : Nat) : List Char :=
  if k = 0 then ['0'] else joinPoint (shortest k).positional

/-- The text of a number as programs print it. -/
def plainChars (x : Float) : List Char :=
  if infinityCode < code x then "NaN".toList
  else
    let text := if code x = infinityCode then "inf".toList else plainCode (code x)
    if isNegative x then '-' :: text else text

def plain (x : Float) : String := String.ofList (plainChars x)

/-! ## Number tokens built by hand -/

/-- The exponent mark: a sign always, and at least two digits. -/
def exponentMark (e : Int) : List Char :=
  'e' :: (if e < 0 then '-' else '+') :: padded 2 e.natAbs

/-- A positive decimal with a point or an exponent. -/
def Decimal.marked (d : Decimal) : List Char :=
  let digits := Nat.toDigits 10 d.digits
  let magnitude : Int := digits.length - 1 + d.exponent
  if -4 ≤ magnitude ∧ magnitude < 16 then
    let (whole, fraction) := d.positional
    whole ++ '.' :: (if fraction.isEmpty then ['0'] else fraction)
  else
    joinPoint (digits.take 1, dropTrailingZeros (digits.drop 1)) ++ exponentMark magnitude

/-- The text of a number token that is built from a double. -/
def literalChars (x : Float) : List Char :=
  if infinityCode < code x then "nan".toList
  else
    let text :=
      if code x = infinityCode then "inf".toList
      else if code x = 0 then "0.0".toList
      else (shortest (code x)).marked
    if isNegative x then '-' :: text else text

def literal (x : Float) : String := String.ofList (literalChars x)

/-! ## Integers -/

/-- The most digits that an integer is written with. -/
def digitLimit : Nat := 4300

/-- The text of an integer. One with more digits than that has none. -/
def inFull (i : Int) : Except Int String :=
  if (Nat.toDigits 10 i.natAbs).length ≤ digitLimit then .ok (toString i) else .error i

end Tern.Number
