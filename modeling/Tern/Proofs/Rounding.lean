import Mathlib.Order.Monotone.Basic
import Tern.Number.Shortest
import Tern.Proofs.Ranges

/-!
# Rounding

Codes are in the order of their values (`strictMono_units`), and `codeBelow` finds the last one up
to a value (`units_codeBelow`). So a fraction is rounded to a code if it lies in the code's rounding
interval (`nearestCode_of_contains`), and a decimal is read as that code if it does
(`ofDecimal_of_contains`): the exponents that are not raised to a power are out of the way. The
shortest decimal of a code lies there, whether it is a multiple that the search has found or the
exact value (`contains_shortest`).
-/

namespace Tern.Number

/-! ## Powers -/

theorem twoTo_succ (n : Nat) : twoTo (n + 1) = 2 * twoTo n := Nat.pow_succ'

theorem twoTo_add (m n : Nat) : twoTo (m + n) = twoTo m * twoTo n := Nat.pow_add 2 m n

theorem twoTo_1075 : twoTo 1075 = 2 * twoTo 1074 := by decide +kernel

theorem twoTo_le_fivePow {m n : Nat} (h : m ≤ 2 * n) : twoTo m ≤ Nat.pow 5 n := by
  have hfour : twoTo (2 * n) = 4 ^ n := Nat.pow_mul 2 2 n
  refine (twoTo_le_twoTo h).trans ?_
  rw [hfour]
  exact Nat.pow_le_pow_left (by decide) n

theorem fivePow_mul_twoTo (n : Nat) : Nat.pow 5 n * twoTo n = tenTo n :=
  (Nat.mul_pow 5 2 n).symm

theorem tenTo_1074 : Nat.pow 5 1074 * twoTo 1074 = tenTo 1074 := by decide +kernel

theorem tenTo_pos (n : Nat) : 0 < tenTo n := Nat.pow_pos (by decide)

theorem tenTo_add (m n : Nat) : tenTo (m + n) = tenTo m * tenTo n := Nat.pow_add 10 m n

theorem tenTo_le_tenTo {m n : Nat} (h : m ≤ n) : tenTo m ≤ tenTo n :=
  Nat.pow_le_pow_right (by decide) h

/-! ## The values of codes -/

theorem units_of_lt {r : Nat} (h : r < twoTo 52) : units r = r := if_pos h

theorem binade_eq {a r : Nat} (h : r < twoTo 52) :
    ((a + 1) * twoTo 52 + r) / twoTo 52 - 1 = a := by
  rw [Nat.mul_comm, Nat.mul_add_div (twoTo_pos 52), Nat.div_eq_of_lt h, Nat.add_zero,
    Nat.add_sub_cancel]

theorem units_binade {a r : Nat} (h : r < twoTo 52) :
    units ((a + 1) * twoTo 52 + r) = (twoTo 52 + r) * twoTo a := by
  have hrest : ((a + 1) * twoTo 52 + r) % twoTo 52 = r := by
    rw [Nat.mul_comm, Nat.mul_add_mod, Nat.mod_eq_of_lt h]
  have hle : twoTo 52 ≤ (a + 1) * twoTo 52 + r := by
    rw [Nat.succ_mul]
    omega
  rw [units, if_neg (Nat.not_lt.mpr hle), binade_eq h, hrest]

/-- A code is in the first binade, where the values are the codes, or in a later one. -/
theorem lt_or_exists_binade (k : Nat) :
    k < twoTo 52 ∨ ∃ a r, r < twoTo 52 ∧ k = (a + 1) * twoTo 52 + r := by
  rcases Nat.lt_or_ge k (twoTo 52) with h | h
  · exact .inl h
  · have hquotient : 1 ≤ k / twoTo 52 := (Nat.one_le_div_iff (twoTo_pos 52)).mpr h
    refine .inr ⟨k / twoTo 52 - 1, k % twoTo 52, Nat.mod_lt _ (twoTo_pos 52), ?_⟩
    rw [Nat.sub_add_cancel hquotient, Nat.div_add_mod']

/-- The distance to the next code doubles from binade to binade. -/
theorem units_succ (k : Nat) : units (k + 1) = units k + twoTo (k / twoTo 52 - 1) := by
  have hpos := twoTo_pos 52
  rcases lt_or_exists_binade k with hk | ⟨a, r, hr, rfl⟩
  · rw [units_of_lt hk, Nat.div_eq_of_lt hk]
    by_cases hnext : k + 1 < twoTo 52
    · rw [units_of_lt hnext]
    · have hlast : k + 1 = (0 + 1) * twoTo 52 + 0 := by omega
      calc units (k + 1) = units ((0 + 1) * twoTo 52 + 0) := congrArg units hlast
        _ = (twoTo 52 + 0) * 1 := units_binade hpos
        _ = k + 1 := by omega
  · rw [binade_eq hr, units_binade hr]
    by_cases hnext : r + 1 < twoTo 52
    · rw [Nat.add_assoc, units_binade hnext, ← Nat.add_assoc, Nat.succ_mul]
    · have hk : (a + 1) * twoTo 52 + r + 1 = (a + 1 + 1) * twoTo 52 + 0 := by
        rw [Nat.succ_mul (a + 1)]
        omega
      rw [hk, units_binade hpos]
      show (twoTo 52 + 0) * 2 ^ (a + 1) = (twoTo 52 + r) * 2 ^ a + 2 ^ a
      rw [Nat.pow_succ, ← Nat.succ_mul]
      have hsum : twoTo 52 + r + 1 = (twoTo 52 + 0) * 2 := by omega
      rw [Nat.succ_eq_add_one, hsum, Nat.mul_right_comm, Nat.mul_assoc]

theorem strictMono_units : StrictMono units :=
  strictMono_nat_of_lt_succ fun k => by
    rw [units_succ]
    exact Nat.lt_add_of_pos_right (twoTo_pos _)

/-- The last code with at most so many units. -/
theorem units_codeBelow (q : Nat) : units (codeBelow q) ≤ q ∧ q < units (codeBelow q + 1) := by
  have hpos := twoTo_pos 52
  unfold codeBelow
  dsimp only
  generalize hs : q.log2 - 52 = s
  rcases Nat.lt_or_ge q (twoTo 52) with hq | hq
  · have hlog := log2_lt_of_lt_twoTo (by decide) hq
    obtain rfl : s = 0 := by omega
    have hcode : 0 * twoTo 52 + q / twoTo 0 = q := by
      rw [Nat.zero_mul, Nat.zero_add]
      exact Nat.div_one q
    rw [hcode, units_succ, units_of_lt hq]
    exact ⟨Nat.le_refl _, Nat.lt_add_of_pos_right (twoTo_pos _)⟩
  · -- the bits from the leading one on
    have hlog : 52 ≤ q.log2 := (Nat.le_log2 (by omega)).mpr hq
    have hlow : twoTo 52 ≤ q / twoTo s := by
      refine (Nat.le_div_iff_mul_le (twoTo_pos s)).mpr ?_
      show 2 ^ 52 * 2 ^ s ≤ q
      rw [← Nat.pow_add, ← hs, Nat.add_sub_cancel' hlog]
      exact Nat.log2_self_le (by omega)
    have hhigh : q / twoTo s < twoTo 52 + twoTo 52 := by
      refine Nat.div_lt_of_lt_mul (Nat.lt_of_lt_of_le Nat.lt_log2_self ?_)
      show 2 ^ (q.log2 + 1) ≤ 2 ^ s * 2 ^ 53
      rw [← Nat.pow_add]
      exact Nat.pow_le_pow_right (by decide) (by omega)
    obtain ⟨r, hr⟩ := Nat.exists_eq_add_of_le hlow
    have hcode : s * twoTo 52 + q / twoTo s = (s + 1) * twoTo 52 + r := by
      rw [hr, Nat.succ_mul, Nat.add_assoc]
    have hbelow : r < twoTo 52 := by omega
    rw [hcode, units_succ, binade_eq hbelow, units_binade hbelow, ← hr]
    exact ⟨Nat.div_mul_le_self .., Nat.lt_div_mul_add (twoTo_pos s)⟩

/-! ## Rounding intervals -/

/-- A fraction of units in the rounding interval of a code. -/
def Contains (k num den : Nat) : Prop := (roundingInterval k).holds (2 * num) den = true

theorem contains_iff {k num den : Nat} : Contains k num den ↔
    (units (k - 1) + units k) * den ≤ 2 * num ∧ 2 * num ≤ (units k + units (k + 1)) * den ∧
      (k % 2 = 1 → (units (k - 1) + units k) * den < 2 * num ∧
        2 * num < (units k + units (k + 1)) * den) := by
  have hlow := strictMono_units.monotone (Nat.sub_le k 1)
  have hhigh := strictMono_units (Nat.lt_add_one k)
  have horder : (units (k - 1) + units k) * den ≤ (units k + units (k + 1)) * den :=
    Nat.mul_le_mul_right den (by omega)
  simp only [Contains, Interval.holds, Bool.or_eq_true, Bool.and_eq_true, decide_eq_true_eq,
    beq_iff_eq]
  simp only [roundingInterval, decide_eq_true_eq]
  omega

/-- What lies in the rounding interval of a code is rounded to it. -/
theorem nearestCode_of_contains {k num den : Nat} (hk : 0 < k) (hden : 0 < den)
    (h : Contains k num den) : nearestCode num den = k := by
  obtain ⟨hlow, hhigh, hodd⟩ := contains_iff.mp h
  obtain ⟨hbelow, habove⟩ := units_codeBelow (num / den)
  unfold nearestCode
  dsimp only
  generalize codeBelow (num / den) = j at hbelow habove
  rw [Nat.le_div_iff_mul_le hden] at hbelow
  rw [Nat.div_lt_iff_lt_mul hden] at habove
  have hmono : ∀ {m n : Nat}, m < n → units m * den < units n * den := fun hlt =>
    Nat.mul_lt_mul_of_pos_right (strictMono_units hlt) hden
  simp only [Nat.add_mul] at hlow hhigh hodd ⊢
  have hstep := hmono (Nat.lt_add_one k)
  have hback := hmono (Nat.sub_one_lt_of_lt hk)
  -- the last code up to the fraction is the code itself or the one before it
  have hcases : j = k ∨ j + 1 = k := by
    by_contra hother
    rcases Nat.lt_or_gt_of_ne (not_or.mp hother).1 with hlt | hgt
    · have := (strictMono_units.monotone (show j + 1 ≤ k - 1 by omega))
      have := Nat.mul_le_mul_right den this
      omega
    · have := (strictMono_units.monotone (show k + 1 ≤ j by omega))
      have := Nat.mul_le_mul_right den this
      omega
  rcases hcases with rfl | rfl
  · rw [if_pos (by omega)]
  · rw [Nat.add_sub_cancel] at hlow hodd
    rw [if_neg (by omega)]

theorem contains_mul {k num den c : Nat} (hc : 0 < c) :
    Contains k (num * c) (den * c) ↔ Contains k num den := by
  simp only [contains_iff, ← Nat.mul_assoc, Nat.mul_le_mul_right_iff hc,
    Nat.mul_lt_mul_right hc]

/-- Equal fractions lie in the same intervals. -/
theorem contains_congr {k num den num' den' : Nat} (hden : 0 < den) (hden' : 0 < den')
    (h : num * den' = num' * den) : Contains k num den ↔ Contains k num' den' := by
  rw [← contains_mul hden', h, Nat.mul_comm den, contains_mul hden]

/-- The value of a code lies in its interval. -/
theorem contains_units {k den : Nat} (hk : 0 < k) (hden : 0 < den) :
    Contains k (units k * den) den := by
  have hback := Nat.mul_lt_mul_of_pos_right (strictMono_units (Nat.sub_one_lt_of_lt hk)) hden
  have hstep := Nat.mul_lt_mul_of_pos_right (strictMono_units (Nat.lt_add_one k)) hden
  simp only [contains_iff, Nat.add_mul]
  omega

/-! ## Reading decimals -/

namespace Decimal

/-- The value of a decimal in units, as a fraction. -/
def num (d : Decimal) : Nat := d.digits * tenTo d.exponent.toNat * twoTo 1074

def den (d : Decimal) : Nat := tenTo (-d.exponent).toNat

theorem den_pos (d : Decimal) : 0 < d.den := tenTo_pos _

theorem den_of_nonneg (d : Decimal) (h : 0 ≤ d.exponent) : d.den = 1 := by
  rw [den, Int.toNat_eq_zero.mpr (by omega)]

theorem num_of_nonpos (d : Decimal) (h : d.exponent ≤ 0) : d.num = d.digits * twoTo 1074 := by
  rw [num, Int.toNat_eq_zero.mpr h]
  exact congrArg (· * twoTo 1074) (Nat.mul_one _)

end Decimal

section Guards

variable {k : Nat} {d : Decimal} (hk : 0 < k) (h : Contains k d.num d.den)

include hk h

/-- A decimal that rounds to a positive code is at least half a unit. -/
theorem den_le_of_contains : d.den ≤ 2 * d.num := by
  have hunit : 1 ≤ units (k - 1) + units k :=
    Nat.le_add_left_of_le (Nat.succ_le_of_lt (strictMono_units hk))
  exact (Nat.le_mul_of_pos_left _ hunit).trans (contains_iff.mp h).1

theorem digits_ne_zero_of_contains : d.digits ≠ 0 := by
  intro hzero
  have hle := den_le_of_contains hk h
  have hpos := d.den_pos
  rw [Decimal.num, hzero, Nat.zero_mul, Nat.zero_mul] at hle
  omega

theorem exponent_le_of_contains (hfinite : k < infinityCode) : d.exponent ≤ 400 := by
  by_contra hlarge
  have hden := d.den_of_nonneg (by omega)
  have hhigh := (contains_iff.mp h).2.1
  rw [hden, Nat.mul_one] at hhigh
  have hle : units k + units (k + 1) ≤ 2 * (twoTo 53 * twoTo 2045) := by
    have h₁ := strictMono_units.monotone (Nat.le_of_lt hfinite)
    have h₂ := strictMono_units.monotone (show k + 1 ≤ infinityCode from hfinite)
    rw [units_infinityCode] at h₁ h₂
    omega
  have hnum : tenTo 401 * twoTo 1074 ≤ d.num := by
    refine Nat.mul_le_mul_right _ ?_
    have hpower : tenTo 401 ≤ tenTo d.exponent.toNat := tenTo_le_tenTo (by omega)
    refine hpower.trans (Nat.le_mul_of_pos_left _ ?_)
    exact Nat.pos_of_ne_zero (digits_ne_zero_of_contains hk h)
  have hbound : twoTo 53 * twoTo 2045 < tenTo 401 * twoTo 1074 := by decide +kernel
  generalize tenTo 401 * twoTo 1074 = a at hnum hbound
  generalize twoTo 53 * twoTo 2045 = b at hle hbound
  omega

theorem le_log2_of_contains : -400 ≤ d.exponent + d.digits.log2 := by
  by_contra hsmall
  generalize hg : (-d.exponent).toNat = g
  have hnum := d.num_of_nonpos (by omega)
  have hle := den_le_of_contains hk h
  rw [hnum, Decimal.den, hg] at hle
  have hdigits : d.digits < twoTo (g - 400) :=
    Nat.lt_of_lt_of_le Nat.lt_log2_self (twoTo_le_twoTo (by omega))
  have hfive : twoTo 675 ≤ Nat.pow 5 g := twoTo_le_fivePow (by omega)
  have hpowers : 2 * (twoTo (g - 400) * twoTo 1074) = twoTo 675 * twoTo g := by
    rw [← twoTo_add (g - 400), ← twoTo_succ, ← twoTo_add 675]
    exact congrArg twoTo (by omega)
  have hlt : d.digits * twoTo 1074 < twoTo (g - 400) * twoTo 1074 :=
    Nat.mul_lt_mul_of_pos_right hdigits (twoTo_pos _)
  have hge : twoTo 675 * twoTo g ≤ Nat.pow 5 g * twoTo g := Nat.mul_le_mul_right _ hfive
  rw [fivePow_mul_twoTo] at hge
  omega

end Guards

/-- A decimal in the rounding interval of a finite code is read as that code. -/
theorem ofDecimal_of_contains {k : Nat} {d : Decimal} (hk : 0 < k) (hfinite : k < infinityCode)
    (h : Contains k d.num d.den) (negative : Bool) :
    ofDecimal negative d.digits d.exponent = ofCode negative k := by
  have hlarge := exponent_le_of_contains hk h hfinite
  have hsmall := le_log2_of_contains hk h
  have hround := nearestCode_of_contains hk d.den_pos h
  rw [ofDecimal, if_neg (digits_ne_zero_of_contains hk h), if_neg (by omega), if_neg (by omega)]
  split
  · next hexponent =>
    rw [← hround, d.den_of_nonneg hexponent]
    rfl
  · rw [← hround, d.num_of_nonpos (by omega)]
    rfl

/-! ## The shortest decimal -/

/-- A multiple of a power of ten in half units. -/
theorem mul_powerInHalfUnits (m : Nat) (p : Int) :
    m * (powerInHalfUnits p).1 = 2 * (Decimal.mk m p).num ∧
      (powerInHalfUnits p).2 = (Decimal.mk m p).den := by
  unfold powerInHalfUnits
  split
  · next hp =>
    refine ⟨?_, (Decimal.den_of_nonneg _ hp).symm⟩
    rw [Decimal.num, twoTo_1075]
    dsimp only
    rw [Nat.mul_left_comm (tenTo _), Nat.mul_left_comm m, Nat.mul_assoc]
  · next hp =>
    refine ⟨?_, rfl⟩
    have hexponent : (Decimal.mk m p).exponent ≤ 0 := by
      dsimp only
      omega
    rw [Decimal.num_of_nonpos _ hexponent, twoTo_1075]
    exact Nat.mul_left_comm ..

/-- A multiple that is found lies in the interval. -/
theorem holds_of_multiple? {i : Interval} {p : Int} {m : Nat} (h : i.multiple? p = some m) :
    i.holds (m * (powerInHalfUnits p).1) (powerInHalfUnits p).2 = true := by
  unfold Interval.multiple? at h
  dsimp only at h
  split at h
  · cases h
  · next hbelow _ =>
    cases h
    exact hbelow
  · next habove =>
    cases h
    exact habove
  · next hbelow habove =>
    split at h
    · cases h
      exact hbelow
    · cases h
      exact habove

theorem contains_searchShortest {k : Nat} (hk : 0 < k) (tries : Nat) (p : Int) :
    Contains k (searchShortest k p tries).num (searchShortest k p tries).den := by
  induction tries generalizing p with
  | zero =>
      have hexact : (searchShortest k p 0).exponent = -1074 := rfl
      have hnum : (searchShortest k p 0).num = units k * tenTo 1074 := by
        have hexponent : (searchShortest k p 0).exponent ≤ 0 := by rw [hexact]; omega
        rw [Decimal.num_of_nonpos _ hexponent, searchShortest, Nat.mul_assoc, tenTo_1074]
      have hden : (searchShortest k p 0).den = tenTo 1074 := by
        rw [Decimal.den, hexact]
        exact congrArg tenTo (Int.toNat_natCast 1074)
      rw [hnum, hden]
      exact contains_units hk (tenTo_pos 1074)
  | succ tries ih =>
      rw [searchShortest]
      split
      · next m hm =>
        obtain ⟨hnum, hden⟩ := mul_powerInHalfUnits m p
        rw [Contains, ← hnum, ← hden]
        exact holds_of_multiple? hm
      · exact ih (p - 1)

theorem contains_shortest {k : Nat} (hk : 0 < k) :
    Contains k (shortest k).num (shortest k).den := by
  rw [shortest]
  exact contains_searchShortest hk _ _

end Tern.Number
