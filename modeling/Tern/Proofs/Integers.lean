import Tern.Proofs.Order

/-!
# Integers among the doubles

An integer that is at most 2⁵³ from zero is a double and not just near one (`exists_exactly`). The
codes up to a value end with one that has the value itself, since the last of them is a multiple of
the distance to the next, and so is the integer (`units_codeBelow_of_le`).
-/

namespace Tern.Number

/-- The double has the integer for its value, with a minus sign below zero only. -/
structure Exactly (x : Float) (i : Int) : Prop where
  finite : x.isFinite
  value : units (code x) = i.natAbs * twoTo 1074
  sign : isNegative x = decide (i < 0)

namespace Exactly

variable {x y : Float} {i : Int}

theorem unique (hx : Exactly x i) (hy : Exactly y i) : x = y := by
  have hcode : code x = code y := strictMono_units.injective (hx.value.trans hy.value.symm)
  rw [← ofCode_code hx.finite, ← ofCode_code hy.finite, hcode, hx.sign, hy.sign]

end Exactly

/-! ## Codes of integers -/

/-- The value of a code is a multiple of the distance to the next. -/
theorem dvd_units (k : Nat) : twoTo (k / twoTo 52 - 1) ∣ units k := by
  obtain hk | ⟨a, r, hr, rfl⟩ := lt_or_exists_binade k
  · rw [Nat.div_eq_of_lt hk]
    exact Nat.one_dvd _
  · rw [binade_eq hr, units_binade hr]
    exact Nat.dvd_mul_left ..

/-- The distance to the next code is small beside the value. -/
theorem distance_lt {k n : Nat} (h : units k < twoTo (52 + n)) (hn : 0 < n) :
    k / twoTo 52 - 1 < n := by
  obtain hk | ⟨a, r, hr, rfl⟩ := lt_or_exists_binade k
  · rw [Nat.div_eq_of_lt hk]
    exact hn
  · rw [units_binade hr] at h
    rw [binade_eq hr]
    refine Nat.lt_of_not_le fun hle => Nat.not_lt.mpr ?_ h
    rw [twoTo_add]
    exact Nat.mul_le_mul (Nat.le_add_right ..) (twoTo_le_twoTo hle)

/-- Two multiples of one distance that are less than it apart are the same. -/
theorem eq_of_dvd {d p q : Nat} (hp : d ∣ p) (hq : d ∣ q) (hle : p ≤ q) (hlt : q < p + d) :
    p = q := by
  have hrest : q - p = 0 := Nat.eq_zero_of_dvd_of_lt (Nat.dvd_sub hq hp) (by omega)
  omega

/-- Up to such a value the distances to the next code divide the value. -/
theorem distance_dvd {k n e : Nat} (h : n ≤ twoTo 53) (hk : units k ≤ n * twoTo e) :
    twoTo (k / twoTo 52 - 1) ∣ n * twoTo e := by
  have hsum : twoTo 53 * twoTo e = twoTo (52 + (e + 1)) := by
    rw [← twoTo_add]
    exact congrArg twoTo (by omega)
  obtain hn | rfl := Nat.lt_or_eq_of_le h
  · have hsmall : units k < twoTo (52 + (e + 1)) := by
      rw [← hsum]
      exact Nat.lt_of_le_of_lt hk (Nat.mul_lt_mul_of_pos_right hn (twoTo_pos e))
    have hdistance := distance_lt hsmall (Nat.succ_pos e)
    exact Nat.dvd_mul_left_of_dvd (Nat.pow_dvd_pow 2 (by omega)) n
  · have hsmall : units k < twoTo (52 + (e + 1 + 1)) := by
      refine Nat.lt_of_le_of_lt (hk.trans_eq hsum) ?_
      exact Nat.pow_lt_pow_right (by decide) (by omega)
    have hdistance := distance_lt hsmall (Nat.succ_pos _)
    rw [hsum]
    exact Nat.pow_dvd_pow 2 (by omega)

theorem units_codeBelow_of_le {n : Nat} (h : n ≤ twoTo 53) :
    units (codeBelow (n * twoTo 1074)) = n * twoTo 1074 := by
  obtain ⟨hle, hlt⟩ := units_codeBelow (n * twoTo 1074)
  rw [units_succ] at hlt
  exact eq_of_dvd (dvd_units _) (distance_dvd h hle) hle hlt

/-- A value that a code has is rounded to that code. -/
theorem nearestCode_of_units {q : Nat} (h : units (codeBelow q) = q) :
    nearestCode q 1 = codeBelow q := by
  have hnext : units (codeBelow q) < units (codeBelow q + 1) := strictMono_units (Nat.lt_add_one _)
  unfold nearestCode
  dsimp only
  rw [Nat.div_one]
  exact if_pos (.inl (by omega))

theorem ofWhole?_exactly (negative : Bool) {n : Nat} (h : n ≤ twoTo 53) :
    ∃ x, ofWhole? negative n = some x ∧ x.isFinite ∧ units (code x) = n * twoTo 1074 ∧
      isNegative x = negative := by
  have hunits := units_codeBelow_of_le h
  have hlast : n * twoTo 1074 ≤ lastUnits := by
    refine Nat.le_trans (Nat.mul_le_mul_right _ h) ?_
    decide +kernel
  have hfinite := nearestCode_lt hlast
  rw [nearestCode_of_units hunits] at hfinite
  have hcode :
      code (ofCode negative (codeBelow (n * twoTo 1074))) = codeBelow (n * twoTo 1074) := by
    rw [code_ofCode, Nat.min_eq_left (Nat.le_of_lt hfinite)]
  refine ⟨ofCode negative (codeBelow (n * twoTo 1074)), ?_, ?_, ?_, isNegative_ofCode ..⟩
  · unfold ofWhole?
    dsimp only
    rw [nearestCode_of_units hunits, if_pos hfinite]
  · exact isFinite_iff_code.mpr (hcode.symm ▸ hfinite)
  · rw [hcode, hunits]

/-- An integer up to 2⁵³ is a double. -/
theorem exists_exactly {i : Int} (h : i.natAbs ≤ twoTo 53) :
    ∃ x, ofInt? i = some x ∧ Exactly x i := by
  cases i with
  | ofNat n =>
    obtain ⟨x, hx, hfinite, hvalue, hsign⟩ := ofWhole?_exactly false h
    refine ⟨x, hx, hfinite, hvalue, ?_⟩
    exact hsign.trans (decide_eq_false (Int.not_lt.mpr (Int.natCast_nonneg n))).symm
  | negSucc n =>
    obtain ⟨x, hx, hfinite, hvalue, hsign⟩ := ofWhole?_exactly true h
    exact ⟨x, hx, hfinite, hvalue, hsign.trans (decide_eq_true (Int.negSucc_lt_zero n)).symm⟩

end Tern.Number
