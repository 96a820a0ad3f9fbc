import Tern.Proofs.Doubles
import Tern.Proofs.Rounding

/-!
# The fewest digits

The shortest decimal of a double is read as the double, and no decimal with fewer digits is
(`isShortest_decimalOf`). What is read as a double lies in its rounding interval
(`contains_of_ofDecimal`), so the question is which decimals lie there. The search for the shortest
one starts no lower than the exponent of any of them (`exponent_le_topPower`) and comes to an
exponent that has a multiple there before it gives up (`isSome_multiple?_topPower`): it ends at the
greatest exponent (`shortest_spec`). A decimal with fewer digits would leave a multiple of the next
power of ten between itself and the shortest one (`length_shortest_le`).
-/

namespace Tern.Number

/-! ## Read as a code -/

/-- What is rounded to a code lies in its rounding interval. -/
theorem contains_of_nearestCode {k num den : Nat} (hk : 0 < k) (hden : 0 < den)
    (h : nearestCode num den = k) : Contains k num den := by
  obtain ⟨hbelow, habove⟩ := units_codeBelow (num / den)
  unfold nearestCode at h
  dsimp only at h
  generalize codeBelow (num / den) = j at hbelow habove h
  rw [Nat.le_div_iff_mul_le hden] at hbelow
  rw [Nat.div_lt_iff_lt_mul hden] at habove
  have hmono : ∀ {m n : Nat}, m < n → units m * den < units n * den := fun hlt =>
    Nat.mul_lt_mul_of_pos_right (strictMono_units hlt) hden
  have hnext := hmono (Nat.lt_add_one (j + 1))
  simp only [contains_iff, Nat.add_mul] at h ⊢
  split at h
  · subst h
    have hback := hmono (Nat.sub_one_lt_of_lt hk)
    omega
  · subst h
    rw [Nat.add_sub_cancel]
    omega

theorem contains_of_ofDecimal {k : Nat} {d : Decimal} {negative : Bool} (hk : 0 < k)
    (hfinite : k < infinityCode) (h : code (ofDecimal negative d.digits d.exponent) = k) :
    Contains k d.num d.den := by
  have hrounded : ∀ j, code (ofCode negative j) = k → j = k := by
    intro j hj
    rw [code_ofCode] at hj
    omega
  unfold ofDecimal at h
  split at h
  · cases hrounded _ h
    cases hk
  split at h
  · exact absurd (hrounded _ h) (Nat.ne_of_gt hfinite)
  split at h
  · cases hrounded _ h
    cases hk
  split at h
  · next hexponent =>
    refine contains_of_nearestCode hk d.den_pos ?_
    rw [d.den_of_nonneg hexponent]
    exact hrounded _ h
  · next hexponent =>
    refine contains_of_nearestCode hk d.den_pos ?_
    rw [d.num_of_nonpos (by omega)]
    exact hrounded _ h

/-! ## Multiples of a power of ten -/

/-- The decimal lies in the rounding interval of the code. -/
def Decimal.RoundsTo (d : Decimal) (k : Nat) : Prop := Contains k d.num d.den

/-- How far the decimal is from the value of the code, in units over the decimal's denominator. -/
def Decimal.dist (d : Decimal) (k : Nat) : Nat := Nat.dist d.num (units k * d.den)

/-- The last multiple of a power of ten up to the value of a code. -/
def lastMultiple (k : Nat) (p : Int) : Nat :=
  (roundingInterval k).value * (powerInHalfUnits p).2 / (powerInHalfUnits p).1

theorem Contains.between {k a b c den : Nat} (ha : Contains k a den) (hb : Contains k b den)
    (hac : a ≤ c) (hcb : c ≤ b) : Contains k c den := by
  rw [contains_iff] at ha hb ⊢
  omega

section Multiples

variable {k m : Nat} {p : Int}

theorem num_mk (m : Nat) (p : Int) : (Decimal.mk m p).num = m * (Decimal.mk 1 p).num := by
  rw [Decimal.num, Decimal.num, Nat.one_mul, Nat.mul_assoc]

theorem num_mono {m n : Nat} (h : m ≤ n) : (Decimal.mk m p).num ≤ (Decimal.mk n p).num :=
  Nat.mul_le_mul_right _ (Nat.mul_le_mul_right _ h)

theorem lastMultiple_spec (k : Nat) (p : Int) :
    (Decimal.mk (lastMultiple k p) p).num ≤ units k * (Decimal.mk 1 p).den ∧
      units k * (Decimal.mk 1 p).den < (Decimal.mk (lastMultiple k p + 1) p).num := by
  have hlast : lastMultiple k p =
      units k * (Decimal.mk 1 p).den / (Decimal.mk 1 p).num := by
    obtain ⟨hnum, hden⟩ := mul_powerInHalfUnits 1 p
    rw [Nat.one_mul] at hnum
    rw [lastMultiple, hnum, hden, roundingInterval, Nat.mul_assoc,
      Nat.mul_div_mul_left _ _ Nat.two_pos]
  have hpos : 0 < (Decimal.mk 1 p).num :=
    Nat.mul_pos (Nat.mul_pos Nat.one_pos (tenTo_pos _)) (twoTo_pos _)
  rw [num_mk (lastMultiple k p), num_mk (lastMultiple k p + 1), hlast]
  generalize (Decimal.mk 1 p).num = step at hpos
  exact ⟨Nat.div_mul_le_self .., Nat.lt_mul_of_div_lt (Nat.lt_succ_self _) hpos⟩

theorem holds_iff : (roundingInterval k).holds (m * (powerInHalfUnits p).1)
    (powerInHalfUnits p).2 = true ↔ (Decimal.mk m p).RoundsTo k := by
  obtain ⟨hnum, hden⟩ := mul_powerInHalfUnits m p
  rw [hnum, hden]
  rfl

/-- A multiple in the interval has one of the value's neighbours between itself and the value. -/
theorem roundsTo_lastMultiple (hk : 0 < k) (h : (Decimal.mk m p).RoundsTo k) :
    (m ≤ lastMultiple k p ∧ (Decimal.mk (lastMultiple k p) p).RoundsTo k) ∨
      (lastMultiple k p + 1 ≤ m ∧ (Decimal.mk (lastMultiple k p + 1) p).RoundsTo k) := by
  obtain ⟨hbelow, habove⟩ := lastMultiple_spec k p
  have hvalue := contains_units hk (Decimal.mk 1 p).den_pos
  rcases Nat.lt_or_ge (lastMultiple k p) m with hlt | hle
  · exact .inr ⟨hlt, hvalue.between h (Nat.le_of_lt habove) (num_mono hlt)⟩
  · exact .inl ⟨hle, Contains.between h hvalue (num_mono hle) hbelow⟩

/-- If any multiple lies in the interval, then one is found. -/
theorem isSome_multiple? (hk : 0 < k) (h : (Decimal.mk m p).RoundsTo k) :
    ((roundingInterval k).multiple? p).isSome := by
  have hneighbour := (roundsTo_lastMultiple hk h).imp And.right And.right
  rw [← holds_iff, ← holds_iff] at hneighbour
  unfold Interval.multiple?
  dsimp only
  rw [← lastMultiple]
  split
  · next hbelow habove =>
    rw [hbelow, habove] at hneighbour
    rcases hneighbour with h | h <;> cases h
  · rfl
  · rfl
  · split <;> rfl

/-- What is found is one of the neighbours, the nearer one if both lie in the interval. -/
theorem eq_of_multiple? {n : Nat} (h : (roundingInterval k).multiple? p = some n) :
    (n = lastMultiple k p ∧ ((Decimal.mk (lastMultiple k p + 1) p).RoundsTo k →
      2 * (units k * (Decimal.mk 1 p).den) ≤
        (Decimal.mk (lastMultiple k p) p).num + (Decimal.mk (lastMultiple k p + 1) p).num)) ∨
    (n = lastMultiple k p + 1 ∧ ((Decimal.mk (lastMultiple k p) p).RoundsTo k →
      (Decimal.mk (lastMultiple k p) p).num + (Decimal.mk (lastMultiple k p + 1) p).num ≤
        2 * (units k * (Decimal.mk 1 p).den))) := by
  have htwice : 2 * (roundingInterval k).value * (powerInHalfUnits p).2 =
      2 * (2 * (units k * (Decimal.mk 1 p).den)) := by
    rw [(mul_powerInHalfUnits 1 p).2, roundingInterval, Nat.mul_assoc, Nat.mul_assoc]
  have hmiddle : (lastMultiple k p + (lastMultiple k p + 1)) * (powerInHalfUnits p).1 =
      2 * ((Decimal.mk (lastMultiple k p) p).num +
        (Decimal.mk (lastMultiple k p + 1) p).num) := by
    rw [Nat.add_mul, (mul_powerInHalfUnits _ p).1, (mul_powerInHalfUnits _ p).1, Nat.mul_add]
  unfold Interval.multiple? at h
  dsimp only at h
  rw [← lastMultiple, htwice, hmiddle] at h
  rw [← holds_iff, ← holds_iff]
  split at h
  · cases h
  · next habove =>
    cases h
    exact .inl ⟨rfl, fun h => absurd (habove.symm.trans h) Bool.false_ne_true⟩
  · next hbelow _ =>
    cases h
    exact .inr ⟨rfl, fun h => absurd (hbelow.symm.trans h) Bool.false_ne_true⟩
  · split at h
    · cases h
      exact .inl ⟨rfl, fun _ => by omega⟩
    · cases h
      exact .inr ⟨rfl, fun _ => by omega⟩

/-- No multiple in the interval is nearer than the one that is found. -/
theorem dist_multiple?_le (hk : 0 < k) {n : Nat}
    (hfound : (roundingInterval k).multiple? p = some n) (h : (Decimal.mk m p).RoundsTo k) :
    (Decimal.mk n p).dist k ≤ (Decimal.mk m p).dist k := by
  obtain ⟨hlow, hhigh⟩ := lastMultiple_spec k p
  have hden : ∀ j, (Decimal.mk j p).den = (Decimal.mk 1 p).den := fun _ => rfl
  simp only [Decimal.dist, Nat.dist, hden]
  rcases roundsTo_lastMultiple hk h with ⟨hle, hbelow⟩ | ⟨hle, habove⟩ <;>
    have hmono := num_mono (p := p) hle
  · rcases eq_of_multiple? hfound with ⟨rfl, -⟩ | ⟨rfl, hnear⟩
    · omega
    · have := hnear hbelow
      omega
  · rcases eq_of_multiple? hfound with ⟨rfl, hnear⟩ | ⟨rfl, -⟩
    · have := hnear habove
      omega
    · omega

end Multiples

/-! ## The search -/

/-- The search ends at the greatest power with a multiple, if there is one to come to. -/
theorem searchShortest_spec {k tries : Nat} : ∀ {p : Int} {i : Nat}, i < tries →
    ((roundingInterval k).multiple? (p - i)).isSome →
    (roundingInterval k).multiple? (searchShortest k p tries).exponent =
        some (searchShortest k p tries).digits ∧
      ∀ q, (searchShortest k p tries).exponent < q → q ≤ p →
        (roundingInterval k).multiple? q = none := by
  induction tries with
  | zero => exact fun hi => absurd hi (Nat.not_lt_zero _)
  | succ tries ih =>
      intro p i hi h
      rw [searchShortest]
      split
      · next m hm => exact ⟨hm, fun q hlt hle => absurd hlt (Int.not_lt.mpr hle)⟩
      · next hnone =>
        cases i with
        | zero =>
            rw [Int.natCast_zero, Int.sub_zero, hnone] at h
            cases h
        | succ i =>
            have hstep : p - (i + 1 : Nat) = p - 1 - i := by omega
            rw [hstep] at h
            obtain ⟨hfound, hgreatest⟩ := ih (Nat.lt_of_succ_lt_succ hi) h
            refine ⟨hfound, fun q hlt hle => ?_⟩
            rcases Int.lt_or_eq_of_le hle with hbelow | rfl
            · exact hgreatest q hlt (Int.le_sub_one_of_lt hbelow)
            · exact hnone

/-! ## Powers of ten and of two -/

/-- 59/196 and 28/93 are below and above the decimal logarithm of two. -/
theorem tenTo_le_twoTo {f g : Int} (hlow : 196 * f ≤ 59 * g) (hhigh : 93 * f ≤ 28 * g) :
    (10 : ℚ) ^ f ≤ 2 ^ g := by
  have hpow : ∀ (a : ℚ) (f : Int) (n : Nat), (a ^ f) ^ n = (a ^ n) ^ f := fun a f n => by
    rw [← zpow_natCast, ← zpow_natCast, zpow_comm]
  have hpos : ∀ {a : ℚ} (f : Int), 0 < a → 0 ≤ a ^ f := fun f ha => (zpow_pos ha f).le
  rcases Int.le_total 0 f with hf | hf
  · refine (pow_le_pow_iff_left₀ (hpos f (by norm_num)) (hpos g (by norm_num))
      (show 59 ≠ 0 by decide)).mp ?_
    calc ((10 : ℚ) ^ f) ^ 59 = (10 ^ 59) ^ f := hpow ..
      _ ≤ (2 ^ 196) ^ f := zpow_le_zpow_left₀ hf (by norm_num) (by norm_num)
      _ = 2 ^ (196 * f) := (zpow_mul 2 196 f).symm
      _ ≤ 2 ^ (59 * g) := zpow_le_zpow_right₀ (by norm_num) hlow
      _ = (2 ^ g) ^ 59 := by rw [hpow, zpow_mul]; rfl
  · refine (pow_le_pow_iff_left₀ (hpos f (by norm_num)) (hpos g (by norm_num))
      (show 28 ≠ 0 by decide)).mp ?_
    obtain ⟨n, rfl⟩ := Int.exists_eq_neg_ofNat hf
    calc ((10 : ℚ) ^ (-n : Int)) ^ 28 = (10 ^ 28) ^ (-n : Int) := hpow ..
      _ = ((10 ^ 28) ^ n)⁻¹ := by rw [zpow_neg, zpow_natCast]
      _ ≤ ((2 ^ 93) ^ n)⁻¹ :=
        inv_anti₀ (by positivity) (pow_le_pow_left₀ (by norm_num) (by norm_num) n)
      _ = 2 ^ (93 * (-n : Int)) := by rw [zpow_mul, zpow_neg, zpow_natCast]; rfl
      _ ≤ 2 ^ (28 * g) := zpow_le_zpow_right₀ (by norm_num) hhigh
      _ = (2 ^ g) ^ 28 := by rw [hpow, zpow_mul]; rfl

theorem twoTo_le_tenTo {f g : Int} (hlow : 59 * g ≤ 196 * f) (hhigh : 28 * g ≤ 93 * f) :
    (2 : ℚ) ^ g ≤ 10 ^ f := by
  have hinverse : (10 : ℚ) ^ (-f) ≤ 2 ^ (-g) := tenTo_le_twoTo (by omega) (by omega)
  rw [zpow_neg, zpow_neg] at hinverse
  exact (inv_le_inv₀ (by positivity) (by positivity)).mp hinverse

theorem cast_twoTo (n : Nat) : (twoTo n : ℚ) = 2 ^ (n : Int) := by
  rw [zpow_natCast]
  exact Nat.cast_pow 2 n

theorem cast_tenTo (n : Nat) : (tenTo n : ℚ) = 10 ^ (n : Int) := by
  rw [zpow_natCast]
  exact Nat.cast_pow 10 n

/-- The number that a decimal stands for. -/
def Decimal.value (d : Decimal) : ℚ := d.digits * 10 ^ d.exponent

theorem Decimal.value_le_value {a b : Decimal} (hdigits : a.digits ≤ b.digits)
    (hexponent : a.exponent ≤ b.exponent) : a.value ≤ b.value :=
  mul_le_mul (Nat.cast_le.mpr hdigits) (zpow_le_zpow_right₀ (by norm_num) hexponent)
    (by positivity) (Nat.cast_nonneg _)

theorem value_mk_succ (m : Nat) (p : Int) :
    (Decimal.mk m (p + 1)).value = (Decimal.mk (m * 10) p).value := by
  rw [Decimal.value, Decimal.value, zpow_add_one₀ (by norm_num), Nat.cast_mul, Nat.cast_ofNat]
  ring

theorem cast_num (d : Decimal) : (d.num : ℚ) = d.value * twoTo 1074 * d.den := by
  have hten : (10 : ℚ) ^ (d.exponent.toNat : Int) =
      10 ^ d.exponent * 10 ^ ((-d.exponent).toNat : Int) := by
    rw [← zpow_add₀ (by norm_num)]
    exact congrArg _ (by omega)
  rw [Decimal.num, Decimal.den, Decimal.value, Nat.cast_mul, Nat.cast_mul, cast_tenTo,
    cast_tenTo, hten]
  ring

/-- Equal fractions are equal numbers. -/
theorem value_eq_of_num_mul_den_eq {a b : Decimal} (h : a.num * b.den = b.num * a.den) :
    a.value = b.value := by
  have hunit : (twoTo 1074 : ℚ) ≠ 0 := Nat.cast_ne_zero.mpr (Nat.ne_of_gt (twoTo_pos 1074))
  have ha : (a.den : ℚ) ≠ 0 := Nat.cast_ne_zero.mpr (Nat.ne_of_gt a.den_pos)
  have hb : (b.den : ℚ) ≠ 0 := Nat.cast_ne_zero.mpr (Nat.ne_of_gt b.den_pos)
  have hcast : (a.num * b.den : ℚ) = b.num * a.den := by exact_mod_cast h
  rw [cast_num, cast_num] at hcast
  generalize (twoTo 1074 : ℚ) = unit at hunit hcast
  refine mul_right_cancel₀ (mul_ne_zero (mul_ne_zero hunit ha) hb) ?_
  linear_combination hcast

section Value

variable {d : Decimal} {n : Nat}

theorem mul_den_le_num_iff : n * d.den ≤ 2 * d.num ↔ (n : ℚ) ≤ 2 * (d.value * twoTo 1074) := by
  rw [← mul_le_mul_iff_left₀ (show (0 : ℚ) < d.den from Nat.cast_pos.mpr d.den_pos), mul_assoc,
    ← cast_num]
  exact_mod_cast Iff.rfl

theorem num_le_mul_den_iff : 2 * d.num ≤ n * d.den ↔ 2 * (d.value * twoTo 1074) ≤ (n : ℚ) := by
  rw [← mul_le_mul_iff_left₀ (show (0 : ℚ) < d.den from Nat.cast_pos.mpr d.den_pos), mul_assoc,
    ← cast_num]
  exact_mod_cast Iff.rfl

end Value

/-- What stands for a number between two of an interval lies in it. -/
theorem Decimal.RoundsTo.between {a b c : Decimal} {k : Nat} (ha : a.RoundsTo k)
    (hb : b.RoundsTo k) (hac : a.value ≤ c.value) (hcb : c.value ≤ b.value) : c.RoundsTo k := by
  have hscale : ∀ {v w : ℚ}, v ≤ w → 2 * (v * twoTo 1074) ≤ 2 * (w * twoTo 1074) := fun hle =>
    mul_le_mul_of_nonneg_left (mul_le_mul_of_nonneg_right hle (Nat.cast_nonneg _)) zero_le_two
  rw [Decimal.RoundsTo, contains_iff] at ha hb ⊢
  simp only [← Nat.not_le, mul_den_le_num_iff, num_le_mul_den_iff, not_le] at ha hb ⊢
  refine ⟨ha.1.trans (hscale hac), (hscale hcb).trans hb.2.1, fun hodd => ?_⟩
  exact ⟨(ha.2.2 hodd).1.trans_le (hscale hac), (hscale hcb).trans_lt (hb.2.2 hodd).2⟩

/-! ## Where the search starts and what it comes to -/

theorem units_succ_le {k : Nat} (hk : 0 < k) : units (k + 1) ≤ 2 * units k := by
  have hgap : twoTo (k / twoTo 52 - 1) ≤ units k := by
    rcases lt_or_exists_binade k with hlt | ⟨a, r, hr, rfl⟩
    · rw [units_of_lt hlt, Nat.div_eq_of_lt hlt]
      exact hk
    · rw [binade_eq hr, units_binade hr]
      exact Nat.le_mul_of_pos_left _ (Nat.add_pos_left (twoTo_pos 52) r)
  rw [units_succ]
  omega

theorem units_succ_le_twoTo (k : Nat) : units (k + 1) ≤ twoTo (53 + (k / twoTo 52 - 1)) := by
  have hdouble : twoTo 53 = twoTo 52 + twoTo 52 := by decide
  rw [units_succ, twoTo_add, hdouble]
  rcases lt_or_exists_binade k with hlt | ⟨a, r, hr, rfl⟩
  · rw [units_of_lt hlt, Nat.div_eq_of_lt hlt]
    show k + 1 ≤ (twoTo 52 + twoTo 52) * 1
    omega
  · rw [binade_eq hr, units_binade hr, ← Nat.succ_mul]
    exact Nat.mul_le_mul_right _ (by omega)

theorem log2_units_lt {k : Nat} (h : k < infinityCode) : (units k).log2 < 2098 :=
  log2_lt_of_lt_twoTo (by decide) (Nat.lt_of_le_of_lt (units_le_lastUnits h) lastUnits_lt)

/-- A power of at most half the distance to the code before has a multiple in the interval. -/
theorem roundsTo_of_step_le {k : Nat} {p : Int} (hk : 0 < k)
    (h : 2 * (Decimal.mk 1 p).num ≤ (units k - units (k - 1)) * (Decimal.mk 1 p).den) :
    (Decimal.mk (lastMultiple k p) p).RoundsTo k := by
  obtain ⟨hlow, hhigh⟩ := lastMultiple_spec k p
  have hnext := Nat.mul_lt_mul_of_pos_right (strictMono_units (Nat.lt_add_one k))
    (Decimal.mk 1 p).den_pos
  have hback := Nat.mul_lt_mul_of_pos_right (strictMono_units (Nat.sub_one_lt_of_lt hk))
    (Decimal.mk 1 p).den_pos
  have hden : (Decimal.mk (lastMultiple k p) p).den = (Decimal.mk 1 p).den := rfl
  rw [num_mk, Nat.succ_mul, ← num_mk] at hhigh
  rw [Nat.sub_mul] at h
  rw [Decimal.RoundsTo, contains_iff, Nat.add_mul, Nat.add_mul, hden]
  omega

section Window

variable {k : Nat} (hk : 0 < k) (hfinite : k < infinityCode)

include hk hfinite

/-- No decimal with a greater exponent lies in the interval. -/
theorem exponent_le_topPower {d : Decimal} (h : d.RoundsTo k) : d.exponent ≤ topPower k := by
  have hlog := log2_units_lt hfinite
  have hunits : units k + units (k + 1) < 2 * twoTo ((units k).log2 + 2) := by
    have hvalue : units k < twoTo ((units k).log2 + 1) := Nat.lt_log2_self
    have hnext := units_succ_le hk
    rw [twoTo_succ]
    omega
  have hpower : 10 ^ d.exponent * twoTo 1074 < (twoTo ((units k).log2 + 2) : ℚ) := by
    have hdigits : (1 : ℚ) ≤ d.digits :=
      Nat.one_le_cast.mpr (Nat.pos_of_ne_zero (digits_ne_zero_of_contains hk h))
    have hvalue : 10 ^ d.exponent ≤ d.value := le_mul_of_one_le_left (by positivity) hdigits
    have hhigh := num_le_mul_den_iff.mp (contains_iff.mp h).2.1
    have hcast : ((units k + units (k + 1) : Nat) : ℚ) < 2 * twoTo ((units k).log2 + 2) := by
      exact_mod_cast hunits
    exact (mul_le_mul_of_nonneg_right hvalue (Nat.cast_nonneg _)).trans_lt
      (lt_of_mul_lt_mul_left (hhigh.trans_lt hcast) zero_le_two)
  by_contra hlarge
  rw [topPower] at hlarge
  generalize (units k).log2 = l at *
  have hle : (2 : ℚ) ^ ((l : Int) + 2 - 1074) ≤ 10 ^ d.exponent :=
    twoTo_le_tenTo (by omega) (by omega)
  refine absurd hpower (not_lt.mpr ?_)
  calc (twoTo (l + 2) : ℚ) = 2 ^ ((l : Int) + 2 - 1074) * twoTo 1074 := by
        rw [cast_twoTo, cast_twoTo, ← zpow_add₀ two_ne_zero]
        exact congrArg _ (by omega)
    _ ≤ 10 ^ d.exponent * twoTo 1074 := mul_le_mul_of_nonneg_right hle (Nat.cast_nonneg _)

/-- A power that is small enough has a multiple in the interval. -/
theorem isSome_multiple?_topPower : ((roundingInterval k).multiple? (topPower k - 20)).isSome := by
  have hlog := log2_units_lt hfinite
  obtain ⟨j, rfl⟩ := Nat.exists_eq_add_one_of_ne_zero (Nat.ne_of_gt hk)
  have hbinade : (units (j + 1)).log2 ≤ 53 + (j / twoTo 52 - 1) := by
    have hpos : units (j + 1) ≠ 0 := Nat.ne_of_gt (strictMono_units.lt_iff_lt.mpr hk)
    exact (Nat.pow_le_pow_iff_right Nat.one_lt_two).mp
      ((Nat.log2_self_le hpos).trans (units_succ_le_twoTo j))
  refine isSome_multiple? hk (roundsTo_of_step_le hk (num_le_mul_den_iff.mpr ?_))
  rw [Nat.add_sub_cancel, units_succ, Nat.add_sub_cancel_left, Decimal.value, Nat.cast_one,
    one_mul]
  generalize j / twoTo 52 - 1 = a at *
  have hpower : (10 : ℚ) ^ (topPower (j + 1) - 20) ≤ 2 ^ ((a : Int) - 1075) := by
    rw [topPower]
    exact tenTo_le_twoTo (by omega) (by omega)
  calc 2 * (10 ^ (topPower (j + 1) - 20) * (twoTo 1074 : ℚ))
      ≤ 2 * (2 ^ ((a : Int) - 1075) * twoTo 1074) :=
        mul_le_mul_of_nonneg_left (mul_le_mul_of_nonneg_right hpower (Nat.cast_nonneg _))
          zero_le_two
    _ = twoTo a := by
        rw [cast_twoTo, cast_twoTo, ← zpow_add₀ two_ne_zero, ← zpow_one_add₀ two_ne_zero]
        exact congrArg _ (by omega)

/-- The search ends at the greatest exponent of all the decimals in the interval. -/
theorem shortest_spec :
    (roundingInterval k).multiple? (shortest k).exponent = some (shortest k).digits ∧
      ∀ d : Decimal, d.RoundsTo k → d.exponent ≤ (shortest k).exponent := by
  obtain ⟨hfound, hgreatest⟩ :=
    searchShortest_spec (show 20 < 24 by decide) (isSome_multiple?_topPower hk hfinite)
  refine ⟨hfound, fun d hd => ?_⟩
  by_contra hgreater
  have hnone := hgreatest d.exponent (Int.not_le.mp hgreater) (exponent_le_topPower hk hfinite hd)
  have hsome := isSome_multiple? hk hd
  rw [hnone] at hsome
  cases hsome

/-- A decimal with fewer digits would leave a multiple of the next power between itself and the
shortest one. -/
theorem length_shortest_le {d : Decimal} (h : d.RoundsTo k) :
    (Nat.toDigits 10 (shortest k).digits).length ≤ (Nat.toDigits 10 d.digits).length := by
  obtain ⟨-, hgreatest⟩ := shortest_spec hk hfinite
  by_contra hfewer
  obtain ⟨n, hn⟩ : ∃ n, (Nat.toDigits 10 d.digits).length = n + 1 :=
    Nat.exists_eq_add_one_of_ne_zero (mt List.length_eq_zero_iff.mp Nat.toDigits_ne_nil)
  rw [hn] at hfewer
  have hshort : d.digits < 10 ^ (n + 1) :=
    (Nat.length_toDigits_le_iff (b := 10) (by decide) n.succ_pos).mp (Nat.le_of_eq hn)
  have hlong : 10 ^ (n + 1) ≤ (shortest k).digits :=
    Nat.not_lt.mp (mt (Nat.length_toDigits_le_iff (b := 10) (by decide) n.succ_pos).mpr hfewer)
  have hnext : (Decimal.mk (10 ^ n) ((shortest k).exponent + 1)).RoundsTo k := by
    refine h.between (contains_shortest hk) ?_ ?_ <;> rw [value_mk_succ, ← Nat.pow_succ]
    · exact Decimal.value_le_value (Nat.le_of_lt hshort) (hgreatest d h)
    · exact Decimal.value_le_value hlong (Int.le_refl _)
  exact absurd (hgreatest _ hnext) (Int.not_le.mpr (Int.lt_succ _))

theorem dist_shortest_le {d : Decimal} (h : d.RoundsTo k)
    (hexponent : d.exponent = (shortest k).exponent) : (shortest k).dist k ≤ d.dist k := by
  obtain ⟨m, p⟩ := d
  obtain rfl : p = (shortest k).exponent := hexponent
  exact dist_multiple?_le hk (shortest_spec hk hfinite).1 h

end Window

/-! ## The decimals of a double -/

/-- The decimal is read as the double, and no other that is has fewer digits, or its exponent and
is nearer. -/
structure IsShortest (d : Decimal) (x : Float) : Prop where
  reads : ofDecimal (isNegative x) d.digits d.exponent = x
  fewest : ∀ e : Decimal, ofDecimal (isNegative x) e.digits e.exponent = x →
    (Nat.toDigits 10 d.digits).length ≤ (Nat.toDigits 10 e.digits).length
  nearest : ∀ e : Decimal, ofDecimal (isNegative x) e.digits e.exponent = x →
    e.exponent = d.exponent → d.dist (code x) ≤ e.dist (code x)

/-- The shortest decimal of a code; it is zero for zero. -/
def decimalOf (k : Nat) : Decimal := if k = 0 then ⟨0, 0⟩ else shortest k

theorem isShortest_decimalOf {x : Float} (hfinite : x.isFinite) :
    IsShortest (decimalOf (code x)) x := by
  have hlt := code_lt_of_isFinite hfinite
  have hcode := ofCode_code hfinite
  rcases Nat.eq_zero_or_pos (code x) with hzero | hpos
  · rw [hzero] at hcode
    rw [decimalOf, if_pos hzero]
    have hdist : (Decimal.mk 0 0).dist (code x) = 0 := by
      rw [hzero, Decimal.dist, Decimal.num, units_of_lt (twoTo_pos 52), Nat.zero_mul, Nat.zero_mul,
        Nat.zero_mul, Nat.dist_self]
    refine ⟨by rw [ofDecimal, if_pos rfl, hcode], fun e _ => ?_, fun e _ _ => ?_⟩
    · exact List.length_pos_iff.mpr Nat.toDigits_ne_nil
    · rw [hdist]
      exact Nat.zero_le _
  · rw [decimalOf, if_neg (Nat.ne_of_gt hpos)]
    have hrounds : ∀ e : Decimal, ofDecimal (isNegative x) e.digits e.exponent = x →
        e.RoundsTo (code x) := fun e he => contains_of_ofDecimal hpos hlt (congrArg code he)
    refine ⟨?_, fun e he => ?_, fun e he => ?_⟩
    · rw [ofDecimal_of_contains hpos hlt (contains_shortest hpos), hcode]
    · exact length_shortest_le hpos hlt (hrounds e he)
    · exact dist_shortest_le hpos hlt (hrounds e he)

end Tern.Number
