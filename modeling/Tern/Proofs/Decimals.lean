import Mathlib.Data.List.Basic
import Mathlib.Data.List.TakeWhile
import Tern.Number.Notation
import Tern.Proofs.Numerals
import Tern.Proofs.Rounding
import Tern.Proofs.Terminals

/-!
# Positional decimals

The digits before and after the point of a decimal write its value (`same_positional`), and none of
them could be left out (`tight_positional`): zeros are put in front of the fraction only up to its
width and are taken away at its end alone. Joined by a point, such digits are read as the double
nearest to what they write (`ofNumeral?_joinPoint`).
-/

namespace Tern.Number

open Text

/-! ## Rows of digits -/

theorem ofDigits_eq (cs : List Char) : ofDigits cs = Nat.ofDigitChars 10 cs 0 := rfl

theorem ofDigits_append (cs ds : List Char) :
    ofDigits (cs ++ ds) = ofDigits cs * tenTo ds.length + ofDigits ds := by
  rw [ofDigits_eq, Nat.ofDigitChars_append, Nat.ofDigitChars_eq_ofDigitChars_zero, Nat.mul_comm]
  rfl

theorem ofDigits_replicate_zero (n : Nat) : ofDigits (List.replicate n '0') = 0 := by
  rw [ofDigits_eq, Nat.ofDigitChars_replicate_zero, Nat.mul_zero]

theorem ofDigits_toDigits (n : Nat) : ofDigits (Nat.toDigits 10 n) = n :=
  Nat.ofDigitChars_ten_toDigits

theorem isLatinDigit_of_mem_toDigits {n : Nat} {c : Char} (hc : c ∈ Nat.toDigits 10 n) :
    isLatinDigit c = true := Nat.isDigit_of_mem_toDigits (by decide) (by decide) hc

/-- Only zero is written with a zero in front. -/
theorem head?_toDigits {n : Nat} (h : (Nat.toDigits 10 n).head? = some '0') : n = 0 := by
  induction n using Nat.strongRecOn with
  | _ n ih =>
    rw [Nat.toDigits_eq_if (by decide)] at h
    split at h
    · next hn =>
      have hdigits : ∀ n, n < 10 → n.digitChar = '0' → n = 0 := by decide
      exact hdigits n hn (Option.some.inj h)
    · next hn =>
      rw [List.head?_append_of_ne_nil _ Nat.toDigits_ne_nil] at h
      have := ih (n / 10) (by omega) h
      omega

/-! ## Fractions -/

theorem length_padded {width n : Nat} (h : n < tenTo width) (hwidth : 0 < width) :
    (padded width n).length = width := by
  have hle := (Nat.length_toDigits_le_iff (b := 10) (by decide) hwidth).mpr h
  rw [padded, List.length_append, List.length_replicate, Nat.sub_add_cancel hle]

theorem ofDigits_padded (width n : Nat) : ofDigits (padded width n) = n := by
  rw [padded, ofDigits_append, ofDigits_replicate_zero, Nat.zero_mul, Nat.zero_add,
    ofDigits_toDigits]

theorem isLatinDigit_of_mem_padded {width n : Nat} {c : Char} (hc : c ∈ padded width n) :
    isLatinDigit c = true := by
  rcases List.mem_append.mp hc with hc | hc
  · rw [(List.mem_replicate.mp hc).2]
    rfl
  · exact isLatinDigit_of_mem_toDigits hc

/-- The digits of the quotient and the remainder by a power of ten. -/
theorem ofDigits_digits (n : Nat) {width : Nat} (hwidth : 0 < width) :
    ofDigits (Nat.toDigits 10 (n / tenTo width) ++ padded width (n % tenTo width)) = n := by
  rw [ofDigits_append, ofDigits_toDigits, ofDigits_padded,
    length_padded (Nat.mod_lt n (tenTo_pos width)) hwidth, Nat.div_add_mod']

theorem exists_dropTrailingZeros (cs : List Char) :
    ∃ n, cs = dropTrailingZeros cs ++ List.replicate n '0' := by
  refine ⟨(cs.reverse.takeWhile (· == '0')).length, ?_⟩
  have hzeros : cs.reverse.takeWhile (· == '0') =
      List.replicate (cs.reverse.takeWhile (· == '0')).length '0' :=
    List.eq_replicate_iff.mpr ⟨rfl, fun c hc => by simpa using List.mem_takeWhile_imp hc⟩
  rw [dropTrailingZeros, ← List.reverse_replicate, ← hzeros, ← List.reverse_append,
    List.takeWhile_append_dropWhile, List.reverse_reverse]

theorem getLast?_dropTrailingZeros (cs : List Char) :
    (dropTrailingZeros cs).getLast? ≠ some '0' := by
  rw [dropTrailingZeros, List.getLast?_reverse]
  intro h
  have := List.head?_dropWhile_not (· == '0') cs.reverse
  rw [h] at this
  cases this

/-! ## The digits of a decimal -/

/-- Latin digits before and after a point, of which none could be left out. -/
structure IsTight (whole fraction : List Char) : Prop where
  whole_ne_nil : whole ≠ []
  digits : ∀ c ∈ whole ++ fraction, isLatinDigit c
  /-- A zero in front stands alone. -/
  head : whole.head? = some '0' → whole = ['0']
  /-- No zero is at the end of the fraction. -/
  last : fraction.getLast? ≠ some '0'

/-- What the digits write. -/
def written (whole fraction : List Char) : Decimal :=
  ⟨ofDigits (whole ++ fraction), -fraction.length⟩

theorem num_written (whole fraction : List Char) :
    (written whole fraction).num = ofDigits (whole ++ fraction) * twoTo 1074 :=
  Decimal.num_of_nonpos _ (Int.neg_nonpos_of_nonneg (Int.natCast_nonneg _))

theorem den_written (whole fraction : List Char) :
    (written whole fraction).den = tenTo fraction.length := by
  rw [Decimal.den, written, Int.neg_neg, Int.toNat_natCast]

theorem isTight_toDigits {n : Nat} {fraction : List Char}
    (hdigits : ∀ c ∈ fraction, isLatinDigit c) (hlast : fraction.getLast? ≠ some '0') :
    IsTight (Nat.toDigits 10 n) fraction where
  whole_ne_nil := Nat.toDigits_ne_nil
  digits c hc := by
    rcases List.mem_append.mp hc with hc | hc
    · exact isLatinDigit_of_mem_toDigits hc
    · exact hdigits c hc
  head h := by
    obtain rfl := head?_toDigits h
    rfl
  last := hlast

namespace Decimal

variable (d : Decimal)

theorem isTight_positional : IsTight d.positional.1 d.positional.2 := by
  unfold positional
  dsimp only
  split
  · exact isTight_toDigits (by simp) (by simp)
  · refine isTight_toDigits (fun c hc => ?_) (getLast?_dropTrailingZeros _)
    obtain ⟨n, hn⟩ := exists_dropTrailingZeros
      (padded (-d.exponent).toNat (d.digits % tenTo (-d.exponent).toNat))
    have hmem : c ∈ padded (-d.exponent).toNat (d.digits % tenTo (-d.exponent).toNat) := by
      rw [hn]
      exact List.mem_append_left _ hc
    exact isLatinDigit_of_mem_padded hmem

/-- The digits before and after the point write the decimal. -/
theorem same_positional : (written d.positional.1 d.positional.2).num * d.den =
    d.num * (written d.positional.1 d.positional.2).den := by
  rw [num_written, den_written]
  unfold positional
  dsimp only
  split
  · next hexponent =>
    rw [d.den_of_nonneg hexponent, List.append_nil, ofDigits_toDigits]
    rfl
  · next hexponent =>
    rw [d.num_of_nonpos (by omega), den]
    have hplaces : 0 < (-d.exponent).toNat := by omega
    generalize (-d.exponent).toNat = places at hplaces
    obtain ⟨n, hn⟩ := exists_dropTrailingZeros (padded places (d.digits % tenTo places))
    have hlength := length_padded (Nat.mod_lt d.digits (tenTo_pos places)) hplaces
    have hvalue := ofDigits_digits d.digits hplaces
    generalize dropTrailingZeros (padded places (d.digits % tenTo places)) = fraction at hn
    rw [hn, List.length_append, List.length_replicate] at hlength
    rw [hn, ← List.append_assoc, ofDigits_append, ofDigits_replicate_zero, Nat.add_zero,
      List.length_replicate] at hvalue
    generalize ofDigits (Nat.toDigits 10 (d.digits / tenTo places) ++ fraction) = m at hvalue
    calc m * twoTo 1074 * tenTo places
        = m * twoTo 1074 * (tenTo n * tenTo fraction.length) := by
          rw [← tenTo_add, Nat.add_comm n, hlength]
      _ = m * tenTo n * twoTo 1074 * tenTo fraction.length := by
          rw [← Nat.mul_assoc, Nat.mul_right_comm m]
      _ = d.digits * twoTo 1074 * tenTo fraction.length := by rw [hvalue]

end Decimal

/-! ## Reading digits -/

theorem isPlainNumeral_joinPoint {digit : Char → Bool} {whole fraction : List Char}
    (hne : whole ≠ []) (hdigits : ∀ c ∈ whole ++ fraction, digit c = true) :
    IsPlainNumeral digit (joinPoint (whole, fraction)) := by
  obtain ⟨hwhole, hfraction⟩ := List.forall_mem_append.mp hdigits
  cases fraction with
  | nil => exact .whole hne hwhole
  | cons c cs => exact .pointed hne hwhole (List.cons_ne_nil _ _) hfraction

namespace IsTight

variable {whole fraction : List Char} (h : IsTight whole fraction)

include h

theorem isText : IsText .number (joinPoint (whole, fraction)) :=
  .number (isPlainNumeral_joinPoint h.whole_ne_nil fun c hc =>
    isDigit_of_isLatinDigit (h.digits c hc))

/-- Digits with a point between them are read as the double nearest to what they write. -/
theorem ofNumeral?_joinPoint : ofNumeral? (String.ofList (joinPoint (whole, fraction))) =
    some (ofDecimal false (written whole fraction).digits (written whole fraction).exponent) := by
  have hplain : IsPlainNumeral isLatinDigit (joinPoint (whole, fraction)) :=
    isPlainNumeral_joinPoint h.whole_ne_nil h.digits
  have hlatin : (joinPoint (whole, fraction)).map latinize = joinPoint (whole, fraction) := by
    have hid : ∀ c ∈ joinPoint (whole, fraction), latinize c = id c := fun c hc => by
      rcases hplain.mem hc with hc | rfl
      · exact latinize_of_isLatinDigit hc
      · rfl
    rw [List.map_congr_left hid, List.map_id]
  have hspan : ∃ rest, (joinPoint (whole, fraction)).span isLatinDigit = (whole, rest) ∧
      fractionPart rest = (fraction, []) := by
    obtain ⟨hwhole, hfraction⟩ := List.forall_mem_append.mp h.digits
    cases fraction with
    | nil => exact ⟨[], span_digits_end hwhole, rfl⟩
    | cons c cs => exact ⟨_, span_pointed hwhole hfraction⟩
  obtain ⟨rest, hwhole, hfraction⟩ := hspan
  rw [ofNumeral?_plain (by rwa [String.toList_ofList, hlatin]), String.toList_ofList, hlatin]
  exact unsigned?_plain hplain hwhole hfraction h.whole_ne_nil false

end IsTight

end Tern.Number
