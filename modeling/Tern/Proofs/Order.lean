import Tern.Proofs.Doubles
import Tern.Proofs.Rounding

/-!
# Doubles in order

A double that is a number has a place, its code counted upwards or, with the sign bit, downwards,
and doubles are compared as their places are (`lt_iff`, `le_iff`, `beq_iff`); what is no number is
neither less than anything nor greater, nor equal to anything. Truncation goes by the place as well
(`truncate_eq`), so it keeps the order of finite doubles. An infinity is cut down to the end of the
64-bit range and a finite double is not, so that between the two the order may be lost
(`truncate_le_truncate_iff`).
-/

namespace Tern.Number

open Float.Model (Format UnpackedFloat)
open Float.Model.UnpackedFloat

/-- Where a double stands among the others. Both zeros stand at zero. -/
def place (x : Float) : Int := if isNegative x then -(code x : Int) else code x

/-! ## Unpacked doubles -/

/-- A code that is counted upwards or downwards. -/
def counted : Sign → Nat → Int
  | .negative, k => -(k : Int)
  | .positive, k => k

/-- What a double of that sign and code is unpacked to, when it is a number. A significand has its
leading one unless the exponent is the least. -/
inductive Unpacks : UnpackedFloat → Sign → Nat → Prop
  | infinity {s : Sign} : Unpacks (.infinity s) s infinityCode
  | zero {s : Sign} : Unpacks (.zero s) s 0
  | finite {s : Sign} {x : Int} {a m k : Nat} (hpos : 0 < m) (hx : x = (a : Int) - 1074)
      (hk : k = a * twoTo 52 + m) (hm : m < twoTo 53) (ha : a = 0 ∨ twoTo 52 ≤ m)
      (hfinite : k < infinityCode) : Unpacks (.finite s m x hpos) s k

theorem Unpacks.le {a : UnpackedFloat} {s : Sign} {k : Nat} (h : Unpacks a s k) :
    k ≤ infinityCode := by
  cases h with
  | infinity => exact Nat.le_refl _
  | zero => exact Nat.zero_le _
  | finite hpos hx hk hm ha hfinite => exact Nat.le_of_lt hfinite

theorem Unpacks.isFinite {a : UnpackedFloat} {s : Sign} {k : Nat} (h : Unpacks a s k)
    (hlt : k < infinityCode) : a.isFinite = true := by
  cases h with
  | infinity => exact absurd hlt (Nat.lt_irrefl _)
  | zero => rfl
  | finite => rfl

section Components

variable {s : Sign} {e : BitVec 11} {m : BitVec 52}

/-- With an exponent of its own a significand has its leading one. -/
theorem Unpacks.normal (hmax : e ≠ -1#11) (hzero : e ≠ 0#11) (hpos : 0 < (1#1 ++ m).toNat) :
    Unpacks (.finite s (1#1 ++ m).toNat
      (e.toNat - ((Format.exponentBias .binary64 : Nat) + (52 : Nat) : Int)) hpos) s
      (e.toNat * twoTo 52 + m.toNat) := by
  have hm : m.toNat < twoTo 52 := m.isLt
  have hexponent : 0 < e.toNat := Nat.pos_of_ne_zero fun h0 => hzero (BitVec.eq_of_toNat_eq h0)
  have hlead : (1#1 ++ m).toNat = twoTo 52 + m.toNat :=
    (toNat_append 1#1 m).trans (by rw [BitVec.toNat_ofNat]; rfl)
  have hsplit : e.toNat * twoTo 52 = (e.toNat - 1) * twoTo 52 + twoTo 52 := by
    rw [← Nat.succ_mul, Nat.succ_eq_add_one, Nat.sub_add_cancel hexponent]
  have hbias : ((Format.exponentBias .binary64 : Nat) : Int) + (52 : Nat) = 1075 := by decide
  have hdouble : twoTo 53 = twoTo 52 + twoTo 52 := by decide
  refine .finite (a := e.toNat - 1) hpos ?_ ?_ ?_ (.inr ?_) (lt_infinityCode hmax)
  · rw [hbias]
    omega
  · rw [hlead, hsplit, Nat.add_assoc]
  · rw [hlead]
    omega
  · exact (Nat.le_add_right ..).trans_eq hlead.symm

theorem unpacks_of_components {x : Float}
    (h : x.toBits.toBitVec = packComponents .binary64 s e m) :
    x.toModel.unpack = .notANumber ∧ infinityCode < code x ∨
      Unpacks x.toModel.unpack s (code x) := by
  have hunpack : x.toModel.unpack = unpack .binary64 (packComponents .binary64 s e m) := by
    rw [← h]
    rfl
  rw [hunpack, code_eq h, unpack]
  simp only [unpackExponent_packComponents, unpackMantissa_packComponents,
    unpackSign_packComponents, Sign.ofBitVec_toBitVec]
  by_cases hmax : e = -1#11
  · have hexponent : e.toNat = 2047 := congrArg BitVec.toNat hmax
    rw [if_pos hmax, hexponent, ← infinityCode_eq]
    by_cases hm : m = 0#52
    · obtain rfl := hm
      exact .inr (if_pos rfl ▸ .infinity)
    · have hpos : 0 < m.toNat := Nat.pos_of_ne_zero fun h0 => hm (BitVec.eq_of_toNat_eq h0)
      exact .inl ⟨if_neg hm, Nat.lt_add_of_pos_right hpos⟩
  · rw [if_neg hmax]
    refine .inr ?_
    by_cases hzero : e = 0#11
    · obtain rfl := hzero
      rw [if_pos rfl]
      by_cases hm : m = 0#52
      · obtain rfl := hm
        exact .zero
      · have hlt : m.toNat < twoTo 53 := Nat.lt_trans m.isLt (by decide)
        rw [dif_neg hm]
        exact .finite (a := 0) _ (by decide) rfl hlt (.inl rfl) (lt_infinityCode hmax)
    · rw [if_neg hzero]
      exact .normal hmax hzero _

end Components

theorem unpacks (x : Float) : x.toModel.unpack = .notANumber ∧ infinityCode < code x ∨
    ∃ s, Unpacks x.toModel.unpack s (code x) ∧ place x = counted s (code x) := by
  obtain ⟨s, e, m, hx⟩ := exists_components x.toBits.toBitVec
  refine (unpacks_of_components hx).imp_right fun h => ⟨s, h, ?_⟩
  have hsign := isNegative_iff hx
  cases s with
  | negative => exact if_pos (hsign.mpr rfl)
  | positive => exact if_neg fun hneg => nomatch hsign.mp hneg

theorem isFinite_iff_code {x : Float} : x.isFinite ↔ code x < infinityCode := by
  refine ⟨code_lt_of_isFinite, fun hlt => ?_⟩
  obtain ⟨-, hcode⟩ | ⟨s, hx, -⟩ := unpacks x
  · exact absurd hlt (Nat.lt_asymm hcode)
  · exact hx.isFinite hlt

/-! ## Comparison -/

theorem counted_zero (s : Sign) : counted s 0 = 0 := by
  cases s <;> rfl

theorem negative_counted {k : Nat} (h : 0 < k) : counted .negative k < 0 := by
  rw [counted]
  omega

theorem neg_lt_counted {s : Sign} {j k : Nat} (h : k < j) : -(j : Int) < counted s k := by
  cases s <;> simp only [counted] <;> omega

theorem counted_lt {s : Sign} {j k : Nat} (h : k < j) : counted s k < j := by
  cases s <;> simp only [counted] <;> omega

theorem compare_neg_neg (i j : Int) : compare (-i) (-j) = (compare i j).swap := by
  have hanti : StrictAnti fun k : Int => -k := fun _ _ => Int.neg_lt_neg
  rw [← cmp_eq_compare, ← cmp_eq_compare, cmp_swap]
  exact hanti.cmp_map_eq i j

theorem some_lt {i j : Int} (h : i < j) : some .lt = some (compare i j) :=
  congrArg some (Int.compare_eq_lt.mpr h).symm

theorem some_gt {i j : Int} (h : j < i) : some .gt = some (compare i j) :=
  congrArg some (Int.compare_eq_gt.mpr h).symm

/-- The exponent counts first, since the significand of the greater one has its leading one. -/
theorem then_compare {a b m n : Nat} (hm : m < twoTo 53) (hn : n < twoTo 53)
    (ha : a = 0 ∨ twoTo 52 ≤ m) (hb : b = 0 ∨ twoTo 52 ≤ n) :
    (compare ((a : Int) - 1074) ((b : Int) - 1074)).then (compare m n) =
      compare ((a * twoTo 52 + m : Nat) : Int) ((b * twoTo 52 + n : Nat) : Int) := by
  have hdouble : twoTo 53 = twoTo 52 + twoTo 52 := by decide
  rcases Nat.lt_trichotomy a b with hab | rfl | hab
  · have hstep : (a + 1) * twoTo 52 ≤ b * twoTo 52 := Nat.mul_le_mul_right _ hab
    rw [Nat.succ_mul] at hstep
    have hexponent : compare ((a : Int) - 1074) ((b : Int) - 1074) = .lt :=
      Int.compare_eq_lt.mpr (by omega)
    rw [hexponent, Int.compare_eq_lt.mpr (by omega)]
    rfl
  · have hexponent : compare ((a : Int) - 1074) ((a : Int) - 1074) = .eq :=
      Int.compare_eq_eq.mpr rfl
    rw [hexponent]
    show compare m n = _
    rcases Nat.lt_trichotomy m n with hmn | rfl | hmn
    · rw [Nat.compare_eq_lt.mpr hmn, Int.compare_eq_lt.mpr (by omega)]
    · rw [Nat.compare_eq_eq.mpr rfl, Int.compare_eq_eq.mpr rfl]
    · rw [Nat.compare_eq_gt.mpr hmn, Int.compare_eq_gt.mpr (by omega)]
  · have hstep : (b + 1) * twoTo 52 ≤ a * twoTo 52 := Nat.mul_le_mul_right _ hab
    rw [Nat.succ_mul] at hstep
    have hexponent : compare ((a : Int) - 1074) ((b : Int) - 1074) = .gt :=
      Int.compare_eq_gt.mpr (by omega)
    rw [hexponent, Int.compare_eq_gt.mpr (by omega)]
    rfl

theorem compare_of_unpacks {a b : UnpackedFloat} {s t : Sign} {j k : Nat} (ha : Unpacks a s j)
    (hb : Unpacks b t k) : a.compare b = some (compare (counted s j) (counted t k)) := by
  cases ha with
  | infinity =>
    cases hb with
    | infinity => cases s <;> cases t <;> rfl
    | zero => cases s <;> cases t <;> rfl
    | finite hpos hx hk hm hb hfinite =>
      cases s with
      | negative => exact some_lt (neg_lt_counted hfinite)
      | positive => exact some_gt (counted_lt hfinite)
  | zero =>
    cases hb with
    | infinity => cases s <;> cases t <;> rfl
    | zero => cases s <;> cases t <;> rfl
    | finite hpos hx hk hm hb hfinite =>
      rw [counted_zero]
      cases t with
      | negative => exact some_gt (negative_counted (by omega))
      | positive => exact some_lt (Int.natCast_pos.mpr (by omega))
  | finite hpos hx hk hm ha hfinite =>
    cases hb with
    | infinity =>
      cases t with
      | negative => exact some_gt (neg_lt_counted hfinite)
      | positive => exact some_lt (counted_lt hfinite)
    | zero =>
      rw [counted_zero]
      cases s with
      | negative => exact some_lt (negative_counted (by omega))
      | positive => exact some_gt (Int.natCast_pos.mpr (by omega))
    | finite hpos' hx' hk' hm' hb hfinite' =>
      have hsame := then_compare hm hm' ha hb
      rw [← hx, ← hx', ← hk, ← hk'] at hsame
      cases s with
      | negative =>
        cases t with
        | negative =>
          refine congrArg some ?_
          rw [hsame, counted, counted, compare_neg_neg]
        | positive => exact some_lt ((negative_counted (by omega)).trans_le (Int.natCast_nonneg _))
      | positive =>
        cases t with
        | negative => exact some_gt ((negative_counted (by omega)).trans_le (Int.natCast_nonneg _))
        | positive => exact congrArg some hsame

/-- What is no number is compared with nothing. -/
theorem compare_unpack (x y : Float) : x.toModel.unpack.compare y.toModel.unpack =
    if code x ≤ infinityCode ∧ code y ≤ infinityCode then some (compare (place x) (place y))
    else none := by
  obtain ⟨hx, hcode⟩ | ⟨s, hx, hplace⟩ := unpacks x
  · rw [hx, if_neg fun hand => Nat.not_le.mpr hcode hand.1]
    rfl
  obtain ⟨hy, hcode⟩ | ⟨t, hy, hplace'⟩ := unpacks y
  · rw [hy, if_neg fun hand => Nat.not_le.mpr hcode hand.2]
    cases x.toModel.unpack <;> rfl
  · rw [compare_of_unpacks hx hy, if_pos ⟨hx.le, hy.le⟩, hplace, hplace']

section Order

variable {x y : Float}

theorem lt_iff :
    x < y ↔ code x ≤ infinityCode ∧ code y ≤ infinityCode ∧ place x < place y := by
  have hmodel : x < y ↔ x.toModel.unpack.lt y.toModel.unpack = true :=
    decide_eq_true_iff (p := x.toModel < y.toModel)
  rw [hmodel, UnpackedFloat.lt, compare_unpack, ← and_assoc]
  split
  · next hnumbers => simp [hnumbers, Int.compare_eq_lt]
  · next hnumbers => simp [hnumbers]

theorem le_iff :
    x ≤ y ↔ code x ≤ infinityCode ∧ code y ≤ infinityCode ∧ place x ≤ place y := by
  have hmodel : x ≤ y ↔ x.toModel.unpack.le y.toModel.unpack = true :=
    decide_eq_true_iff (p := x.toModel ≤ y.toModel)
  rw [hmodel, UnpackedFloat.le, compare_unpack, ← and_assoc]
  split
  · next hnumbers => simp [hnumbers, Int.isLE_compare]
  · next hnumbers => simp [hnumbers]

end Order

/-! ## Places -/

section Places

variable {x y : Float}

theorem abs_place_lt (h : x.isFinite) :
    -(infinityCode : Int) < place x ∧ place x < infinityCode := by
  have hlt := code_lt_of_isFinite h
  unfold place
  split <;> omega

/-- Beyond the finite doubles on either side there is one number. -/
theorem place_of_not_isFinite (h : ¬x.isFinite) (hnumber : code x ≤ infinityCode) :
    place x = infinityCode ∧ truncate x = 2 ^ 63 - 1 ∨
      place x = -(infinityCode : Int) ∧ truncate x = -2 ^ 63 := by
  have hcode : code x = infinityCode := by
    have hge : ¬code x < infinityCode := mt isFinite_iff_code.mpr h
    omega
  rw [truncate, if_neg (Nat.not_lt.mpr hnumber), if_pos hcode, place, hcode]
  cases isNegative x with
  | false => exact .inl ⟨rfl, rfl⟩
  | true => exact .inr ⟨rfl, rfl⟩

/-- The whole part of a code's value. -/
def wholeUnits (k : Nat) : Nat := units k / twoTo 1074

theorem monotone_wholeUnits : Monotone wholeUnits :=
  fun _ _ h => Nat.div_le_div_right (strictMono_units.monotone h)

theorem wholeUnits_zero : wholeUnits 0 = 0 := by
  rw [wholeUnits, units_of_lt (twoTo_pos 52), Nat.zero_div]

/-- The whole part of the double at a place. -/
def wholeAt : Int → Int
  | .ofNat k => wholeUnits k
  | .negSucc k => -wholeUnits (k + 1)

theorem wholeAt_neg (k : Nat) : wholeAt (-(k : Int)) = -(wholeUnits k : Int) := by
  cases k with
  | zero =>
    show (wholeUnits 0 : Int) = -(wholeUnits 0 : Int)
    rw [wholeUnits_zero]
    rfl
  | succ k => rfl

theorem monotone_wholeAt : Monotone wholeAt := by
  intro i j hij
  cases i with
  | ofNat i =>
    cases j with
    | ofNat j => exact Int.ofNat_le.mpr (monotone_wholeUnits (Int.ofNat_le.mp hij))
    | negSucc j => exact absurd hij (Int.not_le.mpr (Int.negSucc_lt_zero j |>.trans_le
        (Int.natCast_nonneg i)))
  | negSucc i =>
    cases j with
    | ofNat j =>
      exact (Int.neg_nonpos_of_nonneg (Int.natCast_nonneg _)).trans (Int.natCast_nonneg _)
    | negSucc j =>
      exact Int.neg_le_neg (Int.ofNat_le.mpr (monotone_wholeUnits (by omega)))

/-- A finite double is cut down to the whole part at its place. -/
theorem truncate_eq (h : x.isFinite) : truncate x = wholeAt (place x) := by
  have hlt := code_lt_of_isFinite h
  rw [truncate, if_neg (Nat.lt_asymm hlt), if_neg (Nat.ne_of_lt hlt), place]
  cases isNegative x with
  | false => rfl
  | true => exact (wholeAt_neg _).symm

/-- Truncation keeps the order of two doubles, unless one of them is an infinity and the other is
finite and beyond the 64-bit range on the same side. -/
theorem truncate_le_truncate_iff (h : x ≤ y) : truncate x ≤ truncate y ↔
    (x.isFinite → ¬y.isFinite → truncate x < 2 ^ 63) ∧
      (y.isFinite → ¬x.isFinite → -2 ^ 63 ≤ truncate y) := by
  obtain ⟨hx, hy, hplace⟩ := le_iff.mp h
  by_cases hxf : x.isFinite <;> by_cases hyf : y.isFinite
  · rw [truncate_eq hxf, truncate_eq hyf]
    exact iff_of_true (monotone_wholeAt hplace)
      ⟨fun _ hne => absurd hyf hne, fun _ hne => absurd hxf hne⟩
  · have hbelow := abs_place_lt hxf
    obtain ⟨-, hlimit⟩ | ⟨hend, -⟩ := place_of_not_isFinite hyf hy
    · rw [hlimit, Int.le_sub_one_iff]
      exact ⟨fun hlt => ⟨fun _ _ => hlt, fun hyes => absurd hyes hyf⟩, fun hand => hand.1 hxf hyf⟩
    · omega
  · have hbelow := abs_place_lt hyf
    obtain ⟨hend, -⟩ | ⟨-, hlimit⟩ := place_of_not_isFinite hxf hx
    · omega
    · rw [hlimit]
      exact ⟨fun hle => ⟨fun hyes => absurd hyes hxf, fun _ _ => hle⟩, fun hand => hand.2 hyf hxf⟩
  · have hinfinity : 0 < infinityCode := by decide
    refine iff_of_true ?_ ⟨fun hyes => absurd hyes hxf, fun hyes => absurd hyes hyf⟩
    obtain ⟨hend, hlimit⟩ | ⟨-, hlimit⟩ := place_of_not_isFinite hxf hx
    · obtain ⟨-, hlimit'⟩ | ⟨hend', -⟩ := place_of_not_isFinite hyf hy
      · rw [hlimit, hlimit']
      · omega
    · rw [hlimit]
      obtain ⟨-, hlimit'⟩ | ⟨-, hlimit'⟩ := place_of_not_isFinite hyf hy
      · exact hlimit' ▸ by decide
      · exact hlimit' ▸ Int.le_refl _

/-! ## Around zero -/

/-- The code of one. -/
def oneCode : Nat := 1023 * twoTo 52

theorem units_oneCode : units oneCode = twoTo 1074 := by decide +kernel

theorem wholeUnits_eq_zero_iff {k : Nat} : wholeUnits k = 0 ↔ k < oneCode := by
  rw [wholeUnits, Nat.div_eq_zero_iff_lt (twoTo_pos 1074), ← units_oneCode,
    strictMono_units.lt_iff_lt]

theorem lt_zero_iff (h : x.isFinite) : x < 0 ↔ place x < 0 := by
  have hzero : code 0 ≤ infinityCode ∧ place 0 = 0 := by decide +kernel
  rw [lt_iff, hzero.2]
  exact and_iff_right (Nat.le_of_lt (code_lt_of_isFinite h)) |>.trans (and_iff_right hzero.1)

theorem neg_one_lt_iff (h : x.isFinite) : -1 < x ↔ -(oneCode : Int) < place x := by
  have hone : code (-1) ≤ infinityCode ∧ place (-1) = -(oneCode : Int) := by decide +kernel
  rw [lt_iff, hone.2]
  exact and_iff_right hone.1 |>.trans (and_iff_right (Nat.le_of_lt (code_lt_of_isFinite h)))

theorem truncate_nonneg (h : x.isFinite) (hx : ¬x < 0) : 0 ≤ truncate x := by
  have hzero : wholeAt 0 = 0 := congrArg Nat.cast wholeUnits_zero
  rw [truncate_eq h, ← hzero]
  exact monotone_wholeAt (Int.not_lt.mp (mt (lt_zero_iff h).mpr hx))

/-- Below zero a double is cut down to zero exactly when it is above minus one. -/
theorem truncate_of_neg (h : x.isFinite) (hx : x < 0) :
    truncate x ≤ 0 ∧ (truncate x = 0 ↔ -1 < x) := by
  obtain ⟨k, hk⟩ : ∃ k : Nat, place x = -(k : Int) :=
    ⟨(place x).natAbs, by have := (lt_zero_iff h).mp hx; omega⟩
  have hwhole := wholeUnits_eq_zero_iff (k := k)
  rw [truncate_eq h, neg_one_lt_iff h, hk, wholeAt_neg]
  omega

end Places

end Tern.Number
