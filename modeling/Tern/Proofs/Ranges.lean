import Tern.Number.Arithmetic

/-!
# Ranges within the doubles

A whole number that is no further from zero than the last finite double is nearest to some finite
double (`isSome_ofInt?`). Truncating a double gives such a number, and so does every step between
two of them, so that a range made of two doubles holds no other (`isSome_ofInt?_of_truncate`).
-/

namespace Tern.Number

theorem twoTo_pos (n : Nat) : 0 < twoTo n := Nat.two_pow_pos n

theorem twoTo_le_twoTo {m n : Nat} (h : m ≤ n) : twoTo m ≤ twoTo n :=
  Nat.pow_le_pow_right (by decide) h

theorem log2_lt_of_lt_twoTo {q n : Nat} (hn : 0 < n) (h : q < twoTo n) : q.log2 < n := by
  by_cases hq : q = 0
  · subst hq
    exact hn
  · exact (Nat.log2_lt hq).mpr h

/-- The last finite double in units. -/
def lastUnits : Nat := units (infinityCode - 1)

theorem infinityCode_eq : infinityCode = 2047 * twoTo 52 := by decide

theorem lastUnits_eq : lastUnits = (twoTo 53 - 1) * twoTo 2045 := by decide +kernel

theorem units_infinityCode : units infinityCode = twoTo 53 * twoTo 2045 := by decide +kernel

theorem lastUnits_lt : lastUnits < twoTo 2098 := by decide +kernel

/-! ## Rounding -/

theorem codeBelow_lt {q : Nat} (h : q < twoTo 2098) : codeBelow q < infinityCode := by
  have hlog : q.log2 < 2098 := log2_lt_of_lt_twoTo (by decide) h
  have hq : q / twoTo (q.log2 - 52) < twoTo 53 := by
    refine Nat.div_lt_of_lt_mul (Nat.lt_of_lt_of_le Nat.lt_log2_self ?_)
    show 2 ^ (q.log2 + 1) ≤ 2 ^ (q.log2 - 52) * 2 ^ 53
    rw [← Nat.pow_add]
    exact Nat.pow_le_pow_right (by decide) (by omega)
  have hshift : (q.log2 - 52) * twoTo 52 ≤ 2045 * twoTo 52 :=
    Nat.mul_le_mul_right _ (by omega)
  have hdouble : twoTo 53 = 2 * twoTo 52 := by decide
  unfold codeBelow
  dsimp only
  rw [infinityCode_eq]
  omega

/-- The code after the last finite one is twice as far as half a step. -/
theorem nearestCode_lt {num : Nat} (h : num ≤ lastUnits) : nearestCode num 1 < infinityCode := by
  have hbelow := codeBelow_lt (Nat.lt_of_le_of_lt h lastUnits_lt)
  unfold nearestCode
  dsimp only
  rw [Nat.div_one]
  generalize codeBelow num = k at hbelow
  split
  · exact hbelow
  · next hup =>
    by_cases hk : k = infinityCode - 1
    · refine absurd (.inl ?_) hup
      have hnext : k + 1 = infinityCode := by omega
      have hlt : lastUnits < units infinityCode := by
        rw [lastUnits_eq, units_infinityCode]
        exact Nat.mul_lt_mul_of_pos_right (by decide) (twoTo_pos 2045)
      have hlast : units (infinityCode - 1) = lastUnits := rfl
      rw [hnext, hk, Nat.mul_one, hlast]
      generalize units infinityCode = u at hlt
      omega
    · omega

/-- A whole number no further from zero than the last finite double. -/
def Within (i : Int) : Prop := i.natAbs * twoTo 1074 ≤ lastUnits

theorem isSome_ofWhole? (negative : Bool) {n : Nat} (h : n * twoTo 1074 ≤ lastUnits) :
    (ofWhole? negative n).isSome := by
  unfold ofWhole?
  dsimp only
  rw [if_pos (nearestCode_lt h)]
  rfl

theorem isSome_ofInt? {i : Int} (h : Within i) : (ofInt? i).isSome := by
  cases i with
  | ofNat n => exact isSome_ofWhole? false h
  | negSucc n => exact isSome_ofWhole? true h

/-! ## Truncation -/

theorem units_le_lastUnits {k : Nat} (h : k < infinityCode) : units k ≤ lastUnits := by
  have hdouble : twoTo 53 = 2 * twoTo 52 := by decide
  have hone : 1 ≤ twoTo 52 := twoTo_pos 52
  have hsignificand : k % twoTo 52 < twoTo 52 := Nat.mod_lt _ hone
  have hpos : 0 < twoTo 2045 := twoTo_pos 2045
  have hbinade : twoTo (k / twoTo 52 - 1) ≤ twoTo 2045 := by
    rw [infinityCode_eq] at h
    have hquotient : k / twoTo 52 < 2047 := Nat.div_lt_of_lt_mul (by omega)
    exact twoTo_le_twoTo (by omega)
  rw [lastUnits_eq]
  -- The number is too large to be looked at.
  generalize twoTo 2045 = p at hpos hbinade
  unfold units
  split
  · refine Nat.le_trans (m := twoTo 53 - 1) (by omega) ?_
    exact Nat.le_mul_of_pos_right _ hpos
  · exact Nat.mul_le_mul (by omega) hbinade

theorem within_of_le {i : Int} {n : Nat} (hi : i.natAbs ≤ n) (hn : n * twoTo 1074 ≤ lastUnits) :
    Within i := Nat.le_trans (Nat.mul_le_mul_right _ hi) hn

theorem within_natCast {n : Nat} (h : n * twoTo 1074 ≤ lastUnits) : Within n :=
  within_of_le (Nat.le_of_eq (Int.natAbs_natCast n)) h

theorem Within.neg {i : Int} (h : Within i) : Within (-i) :=
  within_of_le (Nat.le_of_eq (Int.natAbs_neg i)) h

theorem within_truncate (x : Float) : Within (truncate x) := by
  have hlimit : twoTo 63 * twoTo 1074 ≤ lastUnits := by decide +kernel
  unfold truncate
  split
  · exact within_of_le (Nat.zero_le _) hlimit
  · split
    · split
      · exact (within_natCast hlimit).neg
      · refine within_of_le ?_ hlimit
        have hpos : 1 ≤ twoTo 63 := twoTo_pos 63
        rw [Int.ofNat_eq_natCast]
        omega
    · next hover _ =>
      have hn : units (code x) / twoTo 1074 * twoTo 1074 ≤ lastUnits :=
        Nat.le_trans (Nat.div_mul_le_self _ _) (units_le_lastUnits (by omega))
      dsimp only
      split
      · exact (within_natCast hn).neg
      · exact within_natCast hn

theorem Within.between {a b i : Int} (ha : Within a) (hb : Within b) (hai : a ≤ i) (hib : i ≤ b) :
    Within i := by
  have hcase : i.natAbs ≤ a.natAbs ∨ i.natAbs ≤ b.natAbs := by omega
  rcases hcase with h | h
  · exact within_of_le h ha
  · exact within_of_le h hb

/-- What lies between the ends of a range that is made of doubles. -/
theorem isSome_ofInt?_of_truncate {x y : Float} {i : Int} (hx : truncate x ≤ i)
    (hy : i < truncate y) : (ofInt? i).isSome :=
  isSome_ofInt? ((within_truncate x).between (within_truncate y) hx (Int.le_of_lt hy))

end Tern.Number
