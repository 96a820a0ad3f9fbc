import Tern.Proofs.Decimals
import Tern.Proofs.Doubles
import Tern.Proofs.Literals
import Tern.Proofs.Shortness

/-!
# Printed numbers

What the language prints for a finite double without the sign bit is a number token, and a program
whose value is that very double (`submit_plain`). It has as few digits as any decimal that is read
as the double, apart from zeros that show their place. For the other finite doubles a minus stands
in front of what is printed for their opposite, so that a negative number is printed as an operator
and a token.
-/

namespace Tern

open Number Text

/-- The digits of a code write its shortest decimal, and are read as the code. -/
theorem exists_plainCode {k : Nat} (h : k < infinityCode) :
    ∃ whole fraction, plainCode k = joinPoint (whole, fraction) ∧ IsTight whole fraction ∧
      (written whole fraction).value = (decimalOf k).value ∧
      ofNumeral? (String.ofList (plainCode k)) = some (ofCode false k) := by
  rcases Nat.eq_zero_or_pos k with rfl | hk
  · have hzero : IsTight (Nat.toDigits 10 0) [] := isTight_toDigits (by simp) (by simp)
    have hvalue : written (Nat.toDigits 10 0) [] = decimalOf 0 := rfl
    have hdigits : (decimalOf 0).digits = 0 := rfl
    have hprinted : plainCode 0 = joinPoint (Nat.toDigits 10 0, []) := by
      rw [plainCode, if_pos rfl, Nat.toDigits_zero]
      rfl
    refine ⟨_, _, hprinted, hzero, congrArg Decimal.value hvalue, ?_⟩
    rw [hprinted, hzero.ofNumeral?_joinPoint, hvalue, ofDecimal, if_pos hdigits]
  · have htight := (shortest k).isTight_positional
    have hsame := (shortest k).same_positional
    have hcontains := (contains_congr (shortest k).den_pos (written _ _).den_pos
      hsame.symm).mp (contains_shortest hk)
    have hprinted : plainCode k = joinPoint (shortest k).positional := if_neg (Nat.ne_of_gt hk)
    have hdecimal : decimalOf k = shortest k := if_neg (Nat.ne_of_gt hk)
    refine ⟨_, _, hprinted, htight, ?_, ?_⟩
    · rw [hdecimal]
      exact value_eq_of_num_mul_den_eq hsame
    · rw [hprinted]
      refine htight.ofNumeral?_joinPoint.trans ?_
      rw [ofDecimal_of_contains hk h hcontains]

theorem plain_of_isFinite {x : Float} (h : x.isFinite) : plain x =
    String.ofList (if isNegative x then '-' :: plainCode (code x) else plainCode (code x)) := by
  have hlt := code_lt_of_isFinite h
  rw [plain, plainChars, if_neg (Nat.not_lt.mpr (Nat.le_of_lt hlt))]
  dsimp only
  rw [if_neg (Nat.ne_of_lt hlt)]

/-- What is printed for a finite double without the sign bit is a number token whose value is the
double: Latin digits without zeros that could be left out, which write a shortest decimal of the
double. With the sign bit, it is what is printed for the opposite, after a minus. -/
theorem submit_plain {x : Float} (h : x.isFinite) :
    (isNegative x = false →
      lex (plain x) = ⟨[⟨.number, plain x, .start, 0⟩], none⟩ ∧
      (∀ pos env s, evaluate (.token .number (plain x) pos) env s = (.ok (.number x), s)) ∧
      (∀ env s, submit (plain x) env s = (.ok (.number x), s)) ∧
      ∃ whole fraction d, (plain x).toList = joinPoint (whole, fraction) ∧
        IsTight whole fraction ∧ IsShortest d x ∧ (written whole fraction).value = d.value) ∧
    (isNegative x = true →
      (-x).isFinite ∧ isNegative (-x) = false ∧ plain x = "-" ++ plain (-x)) := by
  have hplain := plain_of_isFinite h
  constructor
  · intro hsign
    obtain ⟨whole, fraction, hcode, htight, hvalue, hread⟩ :=
      exists_plainCode (code_lt_of_isFinite h)
    rw [hsign, if_neg (by decide)] at hplain
    have htext : IsText .number (plain x).toList := by
      rw [hplain, String.toList_ofList, hcode]
      exact htight.isText
    have htoken : ∀ env s, Eval.token .number (plain x) env s = (.ok (.number x), s) := by
      intro env s
      have hcode := ofCode_code h
      rw [hsign] at hcode
      rw [Eval.token, hplain, hread, hcode]
      rfl
    have hkind : TokenKind.number ∈ literalKinds := by decide
    refine ⟨lex_of_isText (by decide) (by decide) htext,
      fun pos env s => evalNode_token (htoken env s) turnLimit 999 pos,
      fun env s => submit_literal hkind htext (htoken env s), whole, fraction, _, ?_, htight,
      isShortest_decimalOf h, hvalue⟩
    rw [hplain, String.toList_ofList, hcode]
  · intro hsign
    have hother := isFinite_neg h
    have hpositive : isNegative (-x) = false := by rw [isNegative_neg h, hsign]; rfl
    refine ⟨hother, hpositive, ?_⟩
    rw [hplain, plain_of_isFinite hother, hpositive, hsign, code_neg h, if_pos rfl,
      if_neg (by decide)]
    exact String.toList_injective (by simp)

/-- A tenth is not a double: the text is read as the double nearest to it. -/
theorem submit_plain_tenth :
    plain (Float.ofBits 0x3FB999999999999A) = "0.1" ∧
      (∀ env s, submit "0.1" env s = (.ok (.number (Float.ofBits 0x3FB999999999999A)), s)) ∧
      plain (Float.ofBits 0xBFB999999999999A) =
        "-" ++ plain (-Float.ofBits 0xBFB999999999999A) := by
  have htext : plain (Float.ofBits 0x3FB999999999999A) = "0.1" := by decide +kernel
  have htenth := submit_plain (x := Float.ofBits 0x3FB999999999999A) (by decide +kernel)
  have hopposite := submit_plain (x := Float.ofBits 0xBFB999999999999A) (by decide +kernel)
  rw [htext] at htenth
  exact ⟨htext, (htenth.1 (by decide +kernel)).2.2.1,
    (hopposite.2 (by decide +kernel)).2.2⟩

end Tern
