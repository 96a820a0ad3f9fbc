import Tern.Number.Units
import Tern.Text.Blank
import Tern.Text.Digit

/-!
# Numerals

What the text of a number token may be, and the double it stands for: blanks around it, a sign,
digits with single underscores between them, a point with digits on at least one side, an
exponent; or the words `inf`, `infinity` and `nan` in any case. Digits of every script count.
The value is the double nearest to the written one.
-/

namespace Tern.Number

open Tern.Text

/-- Latin form of a numeral's character: digits of other scripts as Latin ones and blanks of
other scripts as spaces. What is neither is outside every numeral. -/
def latinize (c : Char) : Char :=
  if c.toNat < 128 then c
  else if isBlank c then ' '
  else match digitValue? c with
    | some d => Char.ofNat (48 + d)
    | none => '?'

/-- The blanks that may stand around a numeral in Latin form. -/
def isEdgeBlank (c : Char) : Bool := c == ' ' || ('\t' ≤ c && c ≤ '\r')

def trimEdges (cs : List Char) : List Char :=
  ((cs.dropWhile isEdgeBlank).reverse.dropWhile isEdgeBlank).reverse

/-- Takes out underscores between two digits; any other underscore spoils the numeral. The
argument says whether a digit stands in front. -/
def dropUnderscores? : Bool → List Char → Option (List Char)
  | _, [] => some []
  | true, '_' :: d :: rest =>
    if isLatinDigit d then (dropUnderscores? true rest).map (d :: ·) else none
  | _, c :: rest =>
    if c = '_' then none
    else (dropUnderscores? (isLatinDigit c) rest).map (c :: ·)

/-- The number that a row of Latin digits writes. -/
def ofDigits (cs : List Char) : Nat := cs.foldl (fun n c => 10 * n + (c.toNat - 48)) 0

/-- A sign, and what follows it. -/
def signed : List Char → Bool × List Char
  | '-' :: rest => (true, rest)
  | '+' :: rest => (false, rest)
  | cs => (false, cs)

/-- The exponent after the digits: nothing, or `e`, a sign and digits, up to the end. -/
def exponent? : List Char → Option Int
  | [] => some 0
  | e :: rest =>
    if e = 'e' ∨ e = 'E' then
      let (negative, digits) := signed rest
      if digits.isEmpty || !digits.all isLatinDigit then none
      else some (if negative then -(ofDigits digits : Int) else ofDigits digits)
    else none

/-- The digits after a point, and what follows them; without a point there are none. -/
def fractionPart : List Char → List Char × List Char
  | '.' :: rest => rest.span isLatinDigit
  | cs => ([], cs)

/-- An unsigned numeral in Latin form, without blanks and underscores. -/
def unsigned? (negative : Bool) (cs : List Char) : Option Float :=
  let word := cs.map Char.toLower
  if word = "nan".toList then some (Float.ofBits 0x7FF8000000000000)
  else if word = "inf".toList ∨ word = "infinity".toList then some (ofCode negative infinityCode)
  else
    let (whole, afterWhole) := cs.span isLatinDigit
    let (fraction, afterDigits) := fractionPart afterWhole
    if whole.isEmpty && fraction.isEmpty then none
    else (exponent? afterDigits).map fun e =>
      ofDecimal negative (ofDigits (whole ++ fraction)) (e - fraction.length)

/-- The double that a numeral stands for. -/
def ofNumeral? (text : String) : Option Float := do
  let cs ← dropUnderscores? false (trimEdges (text.toList.map latinize))
  let (negative, rest) := signed cs
  unsigned? negative rest

end Tern.Number
