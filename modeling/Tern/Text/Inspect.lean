import Tern.Text.Printable

/-!
# Texts in diagnostics

Diagnostics quote a text so that every character can be told apart: single quotes, or double
quotes when only single ones occur inside; a backslash before a backslash and before the
enclosing quote; letters for newline, tab and return; numeric escapes of two, four or eight
hexadecimal digits for all else that is unprintable.
-/

namespace Tern.Text

/-- The enclosing quote: the single one unless the text holds it and no double one. -/
def outerQuote (cs : List Char) : Char :=
  if cs.contains '\'' && !cs.contains '"' then '"' else '\''

/-- The hexadecimal digits of `n`, lower case, at least `width` of them. -/
def hexPadded (width n : Nat) : List Char :=
  let digits := Nat.toDigits 16 n
  List.replicate (width - digits.length) '0' ++ digits

/-- One character of a text in diagnostics. -/
def inspectChar (quote c : Char) : List Char :=
  if c = quote ∨ c = '\\' then ['\\', c]
  else if c = '\n' then ['\\', 'n']
  else if c = '\t' then ['\\', 't']
  else if c = '\r' then ['\\', 'r']
  else if isPrintable c then [c]
  else if c.toNat < 0x100 then '\\' :: 'x' :: hexPadded 2 c.toNat
  else if c.toNat < 0x10000 then '\\' :: 'u' :: hexPadded 4 c.toNat
  else '\\' :: 'U' :: hexPadded 8 c.toNat

def inspectChars (cs : List Char) : List Char :=
  let quote := outerQuote cs
  quote :: (cs.flatMap (inspectChar quote) ++ [quote])

/-- A text as diagnostics show it. -/
def inspect (s : String) : String := String.ofList (inspectChars s.toList)

end Tern.Text
