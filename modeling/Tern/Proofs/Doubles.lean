import Mathlib
import Tern.Proofs.Ranges

/-!
# Doubles by their bits

The bits of a double are a sign, an exponent and a significand (`exists_components`), and the last
two are its code. A finite double has a code before infinity's (`code_lt_of_isFinite`) and is made
of its sign and its code (`ofCode_code`), which are the ones that it was made of (`code_ofCode`,
`isNegative_ofCode`); to negate it changes the sign and nothing else (`code_neg`, `isNegative_neg`).
-/

namespace Tern.Number

open Float.Model (Format)
open Float.Model.UnpackedFloat

/-! ## The fields -/

theorem exists_components (b : BitVec 64) : ∃ s e m, b = packComponents .binary64 s e m := by
  have hparts := @packComponents_unpackSign_unpackExponent_unpackMantissa .binary64 b
  exact ⟨_, _, _, hparts.symm⟩

/-- What a sign adds to a code. -/
def signBit : Sign → Nat
  | .negative => twoTo 63
  | .positive => 0

theorem toNat_append {m n : Nat} (a : BitVec m) (b : BitVec n) :
    (a ++ b).toNat = a.toNat * 2 ^ n + b.toNat := by
  rw [BitVec.toNat_append, ← Nat.shiftLeft_add_eq_or_of_lt b.isLt, Nat.shiftLeft_eq]

section Fields

variable {x : Float} {s : Sign} {e : BitVec 11} {m : BitVec 52}

theorem toNat_packComponents :
    (packComponents .binary64 s e m).toNat = signBit s + (e.toNat * twoTo 52 + m.toNat) := by
  have hparts : (packComponents .binary64 s e m).toNat =
      (s.toBitVec.toNat * 2 ^ 11 + e.toNat) * 2 ^ 52 + m.toNat := by
    rw [← toNat_append, ← toNat_append]
    rfl
  have hsign : s.toBitVec.toNat * 2 ^ 63 = signBit s := by
    cases s with
    | negative => exact Nat.one_mul _
    | positive => exact Nat.zero_mul _
  have hwidth : twoTo 52 = 2 ^ 52 := rfl
  rw [hparts, ← hsign, hwidth]
  ring

theorem code_lt_twoTo : e.toNat * twoTo 52 + m.toNat < twoTo 63 := by
  have he := e.isLt
  have hm := m.isLt
  show e.toNat * 2 ^ 52 + m.toNat < 2 ^ 63
  omega

theorem toNat_packComponents_mod :
    (packComponents .binary64 s e m).toNat % twoTo 63 = e.toNat * twoTo 52 + m.toNat := by
  have hlt := code_lt_twoTo (e := e) (m := m)
  rw [toNat_packComponents]
  cases s with
  | negative => rw [signBit, Nat.add_mod_left, Nat.mod_eq_of_lt hlt]
  | positive => rw [signBit, Nat.zero_add, Nat.mod_eq_of_lt hlt]

/-- Codes with a lesser exponent than infinity's come before it. -/
theorem lt_infinityCode (he : e ≠ -1#11) : e.toNat * twoTo 52 + m.toNat < infinityCode := by
  have hexponent : e.toNat ≠ 2047 := fun heq => he (BitVec.eq_of_toNat_eq heq)
  have hlt : e.toNat < 2048 := e.isLt
  have hm : m.toNat < twoTo 52 := m.isLt
  have hle : e.toNat * twoTo 52 ≤ 2046 * twoTo 52 := Nat.mul_le_mul_right _ (by omega)
  rw [infinityCode_eq]
  omega

/-- No code has infinity's exponent but infinity's own. -/
theorem valid_packComponents (h : e.toNat * twoTo 52 + m.toNat ≤ infinityCode) :
    Format.Valid .binary64 (packComponents .binary64 s e m) := by
  refine ⟨fun he hm => absurd (BitVec.eq_of_toNat_eq ?_) hm⟩
  rw [unpackExponent_packComponents] at he
  rw [unpackMantissa_packComponents]
  have hexponent : e.toNat = 2047 := congrArg BitVec.toNat he
  rw [hexponent, infinityCode_eq] at h
  exact Nat.le_zero.mp (Nat.le_of_add_le_add_left h)

variable (h : x.toBits.toBitVec = packComponents .binary64 s e m)

include h

theorem toNat_toBits : x.toBits.toNat = signBit s + (e.toNat * twoTo 52 + m.toNat) := by
  rw [← toNat_packComponents, ← h]
  rfl

theorem code_eq : code x = e.toNat * twoTo 52 + m.toNat := by
  rw [code, ← toNat_packComponents_mod, ← h]
  rfl

theorem isNegative_iff : isNegative x ↔ s = .negative := by
  have hlt := code_lt_twoTo (e := e) (m := m)
  rw [isNegative, decide_eq_true_eq, toNat_toBits h]
  cases s with
  | negative => simp [signBit]
  | positive => simp [signBit, hlt]

theorem isFinite_iff : x.isFinite ↔ e ≠ -1#11 := by
  show (unpack .binary64 x.toBits.toBitVec).isFinite ↔ _
  rw [h, unpack]
  simp only [unpackExponent_packComponents, unpackMantissa_packComponents]
  split
  · next he =>
    refine ⟨?_, fun hne => absurd he hne⟩
    split <;> exact nofun
  · next he =>
    refine ⟨fun _ => he, fun _ => ?_⟩
    split
    · split <;> rfl
    · rfl

/-- The negated double has the other sign. -/
theorem toBits_neg (hfinite : e ≠ -1#11) :
    (-x).toBits.toBitVec = packComponents .binary64 (-s) e m := by
  have hneg : (unpack .binary64 (packComponents .binary64 s e m)).neg =
      unpack .binary64 (packComponents .binary64 (-s) e m) := by
    simp only [unpack, unpackExponent_packComponents, unpackMantissa_packComponents,
      unpackSign_packComponents, Sign.ofBitVec_toBitVec]
    split
    · next he => exact absurd he hfinite
    · split
      · split <;> rfl
      · rfl
  have hvalid : Format.Valid .binary64 (packComponents .binary64 (-s) e m) :=
    ⟨fun he => absurd (unpackExponent_packComponents.symm.trans he) hfinite⟩
  show pack .binary64 (unpack .binary64 x.toBits.toBitVec).neg = _
  rw [h, hneg]
  exact pack_unpack_of_valid hvalid

end Fields

/-! ## Signs and codes -/

variable {x : Float}

theorem code_lt_of_isFinite (h : x.isFinite) : code x < infinityCode := by
  obtain ⟨s, e, m, hx⟩ := exists_components x.toBits.toBitVec
  rw [code_eq hx]
  exact lt_infinityCode ((isFinite_iff hx).mp h)

theorem isFinite_neg (h : x.isFinite) : (-x).isFinite := by
  obtain ⟨s, e, m, hx⟩ := exists_components x.toBits.toBitVec
  have he := (isFinite_iff hx).mp h
  exact (isFinite_iff (toBits_neg hx he)).mpr he

theorem code_neg (h : x.isFinite) : code (-x) = code x := by
  obtain ⟨s, e, m, hx⟩ := exists_components x.toBits.toBitVec
  rw [code_eq hx, code_eq (toBits_neg hx ((isFinite_iff hx).mp h))]

theorem isNegative_neg (h : x.isFinite) : isNegative (-x) = !isNegative x := by
  obtain ⟨s, e, m, hx⟩ := exists_components x.toBits.toBitVec
  have hsame := isNegative_iff hx
  have hother := isNegative_iff (toBits_neg hx ((isFinite_iff hx).mp h))
  cases s with
  | negative =>
      rw [hsame.mpr rfl]
      exact Bool.eq_false_iff.mpr fun hneg => nomatch hother.mp hneg
  | positive =>
      rw [Bool.eq_false_iff.mpr fun hneg => nomatch hsame.mp hneg]
      exact hother.mpr rfl

/-- A double is made of its sign and its code. -/
theorem ofCode_code (h : x.isFinite) : ofCode (isNegative x) (code x) = x := by
  have hlt := code_lt_of_isFinite h
  obtain ⟨s, e, m, hx⟩ := exists_components x.toBits.toBitVec
  have hsign : (if isNegative x then twoTo 63 else 0) = signBit s := by
    cases s with
    | negative => exact if_pos ((isNegative_iff hx).mpr rfl)
    | positive => exact if_neg fun hneg => nomatch (isNegative_iff hx).mp hneg
  rw [ofCode, Nat.min_eq_left (Nat.le_of_lt hlt), hsign, code_eq hx, ← toNat_toBits hx,
    UInt64.ofNat_toNat, Float.ofBits_toBits]

theorem sign_add_mod (negative : Bool) {j : Nat} (h : j < twoTo 63) :
    ((if negative then twoTo 63 else 0) + j) % twoTo 63 = j := by
  split
  · rw [Nat.add_mod_left, Nat.mod_eq_of_lt h]
  · rw [Nat.zero_add, Nat.mod_eq_of_lt h]

theorem min_infinityCode_lt (k : Nat) : min k infinityCode < twoTo 63 :=
  Nat.lt_of_le_of_lt (Nat.min_le_right ..) (by decide)

/-- The bits of a double that is made of a sign and a code. -/
theorem toNat_toBits_ofCode (negative : Bool) (k : Nat) :
    (ofCode negative k).toBits.toNat = (if negative then twoTo 63 else 0) + min k infinityCode := by
  rw [ofCode]
  have hle : min k infinityCode ≤ infinityCode := Nat.min_le_right ..
  have hsmall := min_infinityCode_lt k
  generalize min k infinityCode = j at hle hsmall
  have hmod := sign_add_mod negative hsmall
  generalize hsum : (if negative then twoTo 63 else 0) + j = sum at hmod
  have hlt : sum < 2 ^ 64 := by
    have hdouble : twoTo 63 + twoTo 63 = 2 ^ 64 := by decide
    split at hsum <;> omega
  obtain ⟨s, e, m, hbits⟩ := exists_components (BitVec.ofNat 64 sum)
  have hnat : (packComponents .binary64 s e m).toNat = sum := by
    rw [← hbits]
    exact Nat.mod_eq_of_lt hlt
  have hcode : e.toNat * twoTo 52 + m.toNat = j := by
    rw [← toNat_packComponents_mod, hnat, hmod]
  have hround : (Float.ofBits (UInt64.ofNat sum)).toBits.toBitVec =
      packComponents .binary64 s e m := by
    show pack .binary64 (unpack .binary64 (BitVec.ofNat 64 sum)) = _
    rw [hbits]
    exact pack_unpack_of_valid (valid_packComponents (hcode.symm ▸ hle))
  exact (congrArg BitVec.toNat hround).trans hnat

theorem code_ofCode (negative : Bool) (k : Nat) :
    code (ofCode negative k) = min k infinityCode := by
  rw [code, toNat_toBits_ofCode, sign_add_mod negative (min_infinityCode_lt k)]

theorem isNegative_ofCode (negative : Bool) (k : Nat) :
    isNegative (ofCode negative k) = negative := by
  rw [isNegative, toNat_toBits_ofCode]
  cases negative with
  | true => exact decide_eq_true (Nat.le_add_right ..)
  | false =>
    exact decide_eq_false (Nat.not_le.mpr ((Nat.zero_add _).trans_lt (min_infinityCode_lt k)))

end Tern.Number
