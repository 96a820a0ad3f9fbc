import Tern.Number.Units

/-!
# Division, remainder and truncation

Division and remainder are total: by zero the quotient is an infinity or not a number, and the
remainder not a number. The remainder has the dividend's sign and is exact, since both operands
are whole numbers of units. Truncation is exact as well and gives limits for the infinities.
-/

namespace Tern.Number

def nan : Float := Float.ofBits 0x7FF8000000000000

/-- The quotient; a zero divisor gives an infinity whose sign both operands decide. -/
def quotient (a b : Float) : Float :=
  if b == 0 then
    if a == 0 || a.isNaN then nan
    else ofCode (isNegative a != isNegative b) infinityCode
  else a / b

/-- The remainder with the sign of the dividend. -/
def remainder (a b : Float) : Float :=
  if b == 0 || a.isInf || a.isNaN || b.isNaN then nan
  else if b.isInf then a
  else ofCode (isNegative a) (codeBelow (units (code a) % units (code b)))

/-- The integer part, toward zero; not a number gives zero, and an infinity the end of the
64-bit range on its side. -/
def truncate (x : Float) : Int :=
  if infinityCode < code x then 0
  else if code x = infinityCode then
    if isNegative x then -Int.ofNat (twoTo 63) else Int.ofNat (twoTo 63) - 1
  else
    let whole := Int.ofNat (units (code x) / twoTo 1074)
    if isNegative x then -whole else whole

end Tern.Number
