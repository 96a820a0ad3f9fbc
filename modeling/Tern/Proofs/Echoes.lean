import Tern.Eval.Collections
import Tern.Proofs.Parts
import Tern.Proofs.Ranges
import Tern.Proofs.Shape

/-!
# What is too long to be written

An integer has a text when it has no more digits than the limit. The whole part of a double never
has more (`inFull_truncate`), so that only a range from elsewhere can have an end that is too long.
A value is *overlong* when such a range is part of it, however deep in lists and instances. Exactly
then it has no echo (`echo_eq_error_iff`), and the integer that the echo stops at is such an end.
-/

namespace Tern

namespace Number

theorem inFull_eq_error {i j : Int} (h : inFull i = .error j) : j = i := by
  unfold inFull at h
  split at h <;> cases h
  rfl

theorem length_toDigits_le_iff {k n : Nat} (hk : 0 < k) :
    (Nat.toDigits 10 n).length ≤ k ↔ n < tenTo k :=
  Nat.length_toDigits_le_iff (by decide) hk

theorem inFull_of_lt {i : Int} (h : i.natAbs < tenTo digitLimit) :
    inFull i = .ok (toString i) :=
  if_pos ((length_toDigits_le_iff (by decide)).mpr h)

theorem inFull_of_le {i : Int} (h : tenTo digitLimit ≤ i.natAbs) : inFull i = .error i :=
  if_neg fun hle => Nat.not_lt.mpr h ((length_toDigits_le_iff (by decide)).mp hle)

/-- The least integer that has too many digits. -/
def pastWritten : Int := (tenTo digitLimit : Int)

theorem le_natAbs_pastWritten : tenTo digitLimit ≤ pastWritten.natAbs :=
  Nat.le_of_eq (Int.natAbs_natCast _).symm

theorem natAbs_truncate_lt (x : Float) : (truncate x).natAbs < tenTo digitLimit := by
  have hlimit : lastUnits < tenTo digitLimit * twoTo 1074 := by decide +kernel
  exact Nat.lt_of_mul_lt_mul_right (Nat.lt_of_le_of_lt (within_truncate x) hlimit)

/-- The whole part of a double can be written. -/
theorem inFull_truncate (x : Float) : inFull (truncate x) = .ok (toString (truncate x)) :=
  inFull_of_lt (natAbs_truncate_lt x)

end Number

open Number

namespace Value

variable {v : Value} {items : List Value} {fields : List (String × Value)} {name x : String}
  {i : Int} {α β γ : Type}

/-- The integer is an end, too long to be written, of a range that is part of the value. -/
def Overlong (v : Value) (i : Int) : Prop :=
  ∃ start stop, (range start stop).Part v ∧ Failure.OfRange start stop (.unwritable i)

theorem overlong_range {start stop : Int} :
    (range start stop).Overlong i ↔ Failure.OfRange start stop (.unwritable i) := by
  constructor
  · rintro ⟨_, _, hpart, h⟩
    cases hpart
    exact h
  · exact fun h => ⟨start, stop, .self, h⟩

theorem overlong_cons {rest : List Value} :
    (list (v :: rest)).Overlong i ↔ v.Overlong i ∨ (list rest).Overlong i := by
  constructor
  · rintro ⟨start, stop, hpart, h⟩
    cases hpart with
    | item hv hpart =>
      obtain rfl | hv := List.mem_cons.mp hv
      · exact .inl ⟨start, stop, hpart, h⟩
      · exact .inr ⟨start, stop, .item hv hpart, h⟩
  · rintro (⟨start, stop, hpart, h⟩ | ⟨start, stop, hpart, h⟩)
    · exact ⟨start, stop, .item List.mem_cons_self hpart, h⟩
    · cases hpart with
      | item hv hpart => exact ⟨start, stop, .item (List.mem_cons_of_mem _ hv) hpart, h⟩

theorem overlong_slot {rest : List (String × Value)} :
    (object name ((x, v) :: rest)).Overlong i ↔ v.Overlong i ∨ (object name rest).Overlong i := by
  constructor
  · rintro ⟨start, stop, hpart, h⟩
    cases hpart with
    | slot hp hpart =>
      obtain rfl | hp := List.mem_cons.mp hp
      · exact .inl ⟨start, stop, hpart, h⟩
      · exact .inr ⟨start, stop, .slot hp hpart, h⟩
  · rintro (⟨start, stop, hpart, h⟩ | ⟨start, stop, hpart, h⟩)
    · exact ⟨start, stop, .slot List.mem_cons_self hpart, h⟩
    · cases hpart with
      | slot hp hpart => exact ⟨start, stop, .slot (List.mem_cons_of_mem _ hp) hpart, h⟩

/-! ## Echoes -/

/-- A text of the value comes to its end if nothing in the value is too long; else it stops at
something that is. -/
def Fits (v : Value) : Except Int α → Prop
  | .ok _ => ∀ i, ¬v.Overlong i
  | .error i => v.Overlong i

theorem Fits.map {r : Except Int α} (h : v.Fits r) (f : α → β) : v.Fits (r.map f) := by
  cases r <;> exact h

/-- A text that stops where its first part does, and goes on as its second part does. -/
theorem Fits.both {u w : Value} {r : Except Int α} {q : Except Int β} {o : Except Int γ}
    (hv : v.Fits r) (hw : w.Fits q) (hu : ∀ i, u.Overlong i ↔ v.Overlong i ∨ w.Overlong i)
    (hstop : ∀ i, r = .error i → o = .error i) (hgo : ∀ a, r = .ok a → ∃ f, o = q.map f) :
    u.Fits o := by
  cases r with
  | error i =>
    rw [hstop i rfl]
    exact (hu i).mpr (.inl hv)
  | ok a =>
    obtain ⟨f, rfl⟩ := hgo a rfl
    refine Fits.map ?_ f
    cases q with
    | error i => exact (hu i).mpr (.inr hw)
    | ok b => exact fun i hi => ((hu i).mp hi).elim (hv i) (hw i)

/-- A value without parts that is no range has nothing in it that is too long. -/
theorem fits_ok (hrange : ∀ start stop u, (range start stop).Part u → u ≠ v) (a : α) :
    v.Fits (.ok a) := by
  rintro i ⟨start, stop, hpart, -⟩
  exact hrange start stop v hpart rfl

theorem fits_range (start stop : Int) : (range start stop).Fits (range start stop).echo := by
  rw [echo]
  cases hstart : inFull start with
  | error i =>
    obtain rfl := inFull_eq_error hstart
    exact overlong_range.mpr (.unwritable (.inl rfl) hstart)
  | ok text =>
    -- The start has a text, so that only the stop may be too long.
    refine Fits.map ?_ _
    cases hstop : inFull stop with
    | error i =>
      obtain rfl := inFull_eq_error hstop
      exact overlong_range.mpr (.unwritable (.inr rfl) hstop)
    | ok text' =>
      intro i hi
      cases overlong_range.mp hi with
      | unwritable hend h =>
        obtain rfl | rfl := hend
        · cases hstart.symm.trans h
        · cases hstop.symm.trans h

mutual

theorem fits_echo : ∀ v : Value, v.Fits v.echo
  | .list items => (fits_echoItems items).map _
  | .range start stop => fits_range start stop
  | .object name [] => fits_ok (by rintro _ _ _ (_ | _ | ⟨hp, -⟩) ⟨⟩; cases hp) _
  | .object name ((x, v) :: rest) => (fits_echoFields name ((x, v) :: rest)).map _
  | .nothing | .number _ | .string _ | .bool _ | .function _ | .struct _ | .enum _
  | .variant _ _ => fits_ok (by rintro _ _ _ (_ | _ | _) ⟨⟩) _

theorem fits_echoItems : ∀ items : List Value, (list items).Fits (echoItems items)
  | [] => fits_ok (by rintro _ _ _ (_ | ⟨hv, -⟩ | _) ⟨⟩; cases hv) _
  | v :: rest =>
    (fits_echo v).both (fits_echoItems rest) (fun _ => overlong_cons)
      (fun i h => by rw [echoItems, h]) fun text h => ⟨_, by rw [echoItems, h]⟩

theorem fits_echoFields (name : String) : ∀ fields : List (String × Value),
    (object name fields).Fits (echoFields fields)
  | [] => fits_ok (by rintro _ _ _ (_ | _ | ⟨hp, -⟩) ⟨⟩; cases hp) _
  | (x, v) :: rest =>
    (fits_echo v).both (fits_echoFields name rest) (fun _ => overlong_slot)
      (fun i h => by rw [echoFields, h]) fun text h => ⟨_, by rw [echoFields, h]⟩

end

theorem overlong_of_echo (h : v.echo = .error i) : v.Overlong i := by
  have hfits := v.fits_echo
  rwa [h] at hfits

/-- A value has no echo if and only if something in it is too long. -/
theorem echo_eq_error_iff (v : Value) : (∃ i, v.echo = .error i) ↔ ∃ i, v.Overlong i := by
  refine ⟨fun ⟨i, h⟩ => ⟨i, overlong_of_echo h⟩, fun ⟨i, h⟩ => ?_⟩
  have hfits := v.fits_echo
  cases he : v.echo with
  | error j => exact ⟨j, rfl⟩
  | ok text =>
    rw [he] at hfits
    exact (hfits i h).elim

/-! ## Operands -/

theorem overlong_of_operandText (h : v.operandText = .error i) : v.Overlong i := by
  unfold operandText at h
  split at h
  · cases h
  · exact overlong_of_echo h

end Value

/-- Operands that are refused are shown in an error, unless one of them has no text. -/
theorem Operator.refusal_cases (op : Operator) (a b : Value) :
    (∃ left right, a.operandText = .ok left ∧ b.operandText = .ok right ∧
      op.refusal a b = .raised ⟨.cannotCombine op.combining left right, none⟩) ∨
    ∃ i, (a.operandText = .error i ∨
      ∃ left, a.operandText = .ok left ∧ b.operandText = .error i) ∧
      op.refusal a b = .unwritable i := by
  unfold refusal
  cases a.operandText with
  | error i => exact .inr ⟨i, .inl rfl, rfl⟩
  | ok left =>
    cases b.operandText with
    | error i => exact .inr ⟨i, .inr ⟨left, rfl, rfl⟩, rfl⟩
    | ok right => exact .inl ⟨left, right, rfl, rfl, rfl⟩

/-- What a refusal stops at is the end of a range in one of the operands. -/
theorem Operator.refusal_overlong (op : Operator) (a b : Value) :
    (op.refusal a b).Documented ∨
    ∃ i, (a.Overlong i ∨ b.Overlong i) ∧ op.refusal a b = .unwritable i := by
  obtain ⟨left, right, -, -, h⟩ | ⟨i, ha | ⟨-, -, hb⟩, h⟩ := op.refusal_cases a b
  · rw [h]
    exact .inl rfl
  · exact .inr ⟨i, .inl (Value.overlong_of_operandText ha), h⟩
  · exact .inr ⟨i, .inr (Value.overlong_of_operandText hb), h⟩

/-- A range that is made of doubles is the reason for no failure. -/
theorem Failure.not_ofRange_truncate {f : Failure} (x y : Float) :
    ¬f.OfRange (truncate x) (truncate y) := by
  rintro (⟨hx, hy, hnone⟩ | ⟨rfl | rfl, h⟩)
  · have hsome := isSome_ofInt?_of_truncate hx hy
    rw [hnone] at hsome
    cases hsome
  · cases (inFull_truncate x).symm.trans h
  · cases (inFull_truncate y).symm.trans h

namespace Eval

theorem refuseIndex_of_lt (name : String) {i : Int} (h : i.natAbs < tenTo digitLimit) :
    refuseIndex name i = raise (.indexOutOfBounds (toString i) name) := by
  rw [refuseIndex, inFull_of_lt h]

theorem refuseIndex_of_le (name : String) {i : Int} (h : tenTo digitLimit ≤ i.natAbs) :
    refuseIndex name i = fail (.unwritable i) := by
  rw [refuseIndex, inFull_of_le h]

/-- An index that is the whole part of a double is shown in an error. -/
theorem refuseIndex_truncate (name : String) (x : Float) : refuseIndex name (truncate x) =
    raise (.indexOutOfBounds (toString (truncate x)) name) :=
  refuseIndex_of_lt name (natAbs_truncate_lt x)

end Eval

end Tern
