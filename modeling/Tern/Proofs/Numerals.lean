import Mathlib.Data.List.TakeDrop
import Tern.Number.Numeral
import Tern.Syntax.Lexeme

/-!
# Numerals of the lexer

The text that the terminal of numbers takes is a run of digits, perhaps with a point and another
run (`IsPlainNumeral`). In Latin form it has neither blanks nor underscores nor a sign, and is no
word, so that it stands for a double (`isSome_ofNumeral?`).
-/

namespace Tern

open Text Number

/-! ## Digits in Latin form -/

/-- The code points of a digit's script are far from the blanks, and Latin below 128. -/
theorem digitZeros_spec :
    ∀ first ∈ digitZeros, (first = 48 ∨ 128 ≤ first) ∧
      ∀ i, i < 10 → isBlank (Char.ofNat (first + i)) = false := by
  decide +kernel

theorem isLatinDigit_ofNat : ∀ d, d < 10 → isLatinDigit (Char.ofNat (48 + d)) = true := by
  decide

theorem isLatinDigit_latinize {c : Char} (h : isDigit c = true) :
    isLatinDigit (latinize c) = true := by
  obtain ⟨d, hd⟩ := Option.isSome_iff_exists.mp h
  obtain ⟨first, hfirst, hz⟩ := List.exists_of_findSome?_eq_some hd
  split at hz
  · next hrange =>
    obtain ⟨hlow, hhigh⟩ := hrange
    obtain ⟨hzero, hblank⟩ := digitZeros_spec first hfirst
    have hc : c = Char.ofNat (first + (c.toNat - first)) := by
      rw [Nat.add_sub_cancel' hlow, Char.ofNat_toNat]
    unfold latinize
    split
    · next hlt =>
      obtain rfl : first = 48 := hzero.resolve_right (by omega)
      rw [hc]
      exact isLatinDigit_ofNat _ (by omega)
    · have hnot : isBlank c = false := by
        rw [hc]
        exact hblank _ (by omega)
      rw [hnot, hd]
      exact isLatinDigit_ofNat d (digitValue?_lt hd)
  · cases hz

theorem toNat_of_isLatinDigit {c : Char} (h : isLatinDigit c = true) :
    48 ≤ c.toNat ∧ c.toNat < 58 := by
  simp only [isLatinDigit, Bool.and_eq_true, decide_eq_true_eq] at h
  exact ⟨h.1, Nat.lt_succ_of_le h.2⟩

theorem mem_of_isLatinDigit {c : Char} (h : isLatinDigit c = true) :
    c ∈ ['0', '1', '2', '3', '4', '5', '6', '7', '8', '9'] := by
  obtain ⟨hlow, hhigh⟩ := toNat_of_isLatinDigit h
  rw [← Char.ofNat_toNat c]
  generalize c.toNat = n at hlow hhigh
  have : ∀ n, n < 58 → 48 ≤ n →
      Char.ofNat n ∈ ['0', '1', '2', '3', '4', '5', '6', '7', '8', '9'] := by decide
  exact this n hhigh hlow

/-- The Latin zero is the first of the table. -/
theorem isDigit_of_isLatinDigit {c : Char} (h : isLatinDigit c = true) : isDigit c = true := by
  rw [isDigit, digitValue?, digitZeros, List.findSome?_cons, if_pos (toNat_of_isLatinDigit h)]
  rfl

theorem latinize_of_isLatinDigit {c : Char} (h : isLatinDigit c = true) : latinize c = c := by
  have hlt := (toNat_of_isLatinDigit h).2
  rw [latinize, if_pos (by omega)]

/-- What a Latin digit is not. -/
theorem ne_of_isLatinDigit {c : Char} (h : isLatinDigit c = true) :
    isEdgeBlank c = false ∧ c ≠ '_' ∧ c ≠ '-' ∧ c ≠ '+' ∧ c.toLower ≠ 'n' ∧ c.toLower ≠ 'i' := by
  have hmem := mem_of_isLatinDigit h
  simp only [List.mem_cons, List.not_mem_nil, or_false] at hmem
  rcases hmem with rfl | rfl | rfl | rfl | rfl | rfl | rfl | rfl | rfl | rfl <;> decide

/-! ## Plain numerals -/

/-- Digits, perhaps with a point between them. -/
inductive IsPlainNumeral (digit : Char → Bool) : List Char → Prop
  | whole {ds : List Char} (hne : ds ≠ []) (hd : ∀ c ∈ ds, digit c = true) :
      IsPlainNumeral digit ds
  | pointed {ds fs : List Char} (hne : ds ≠ []) (hd : ∀ c ∈ ds, digit c = true) (hnf : fs ≠ [])
      (hf : ∀ c ∈ fs, digit c = true) : IsPlainNumeral digit (ds ++ '.' :: fs)

namespace IsPlainNumeral

variable {digit : Char → Bool} {cs : List Char}

theorem mem (h : IsPlainNumeral digit cs) {c : Char} (hc : c ∈ cs) :
    digit c = true ∨ c = '.' := by
  cases h with
  | whole _ hd => exact .inl (hd c hc)
  | pointed _ hd _ hf =>
      rcases List.mem_append.mp hc with hc | hc
      · exact .inl (hd c hc)
      · rcases List.mem_cons.mp hc with rfl | hc
        · exact .inr rfl
        · exact .inl (hf c hc)

theorem first (h : IsPlainNumeral digit cs) : ∃ c rest, cs = c :: rest ∧ digit c = true := by
  cases h with
  | whole hne hd =>
      obtain ⟨c, rest, rfl⟩ := List.exists_cons_of_ne_nil hne
      exact ⟨c, rest, rfl, hd c (List.mem_cons_self ..)⟩
  | pointed hne hd _ _ =>
      obtain ⟨c, rest, rfl⟩ := List.exists_cons_of_ne_nil hne
      exact ⟨c, _, rfl, hd c (List.mem_cons_self ..)⟩

theorem last (h : IsPlainNumeral digit cs) :
    ∃ c rest, cs.reverse = c :: rest ∧ digit c = true := by
  have hend : ∀ ds : List Char, ds ≠ [] → (∀ c ∈ ds, digit c = true) →
      ∃ c rest, ds.reverse = c :: rest ∧ digit c = true := by
    intro ds hne hd
    obtain ⟨c, rest, hc⟩ := List.exists_cons_of_ne_nil (mt List.reverse_eq_nil_iff.mp hne)
    refine ⟨c, rest, hc, hd c (List.mem_reverse.mp ?_)⟩
    rw [hc]
    exact List.mem_cons_self ..
  cases h with
  | whole hne hd => exact hend _ hne hd
  | pointed _ _ hnf hf =>
      obtain ⟨c, rest, hc, hdigit⟩ := hend _ hnf hf
      exact ⟨c, _, by rw [List.reverse_append, List.reverse_cons, hc]; rfl, hdigit⟩

theorem map {digit' : Char → Bool} {f : Char → Char} (h : IsPlainNumeral digit cs)
    (hf : ∀ c, digit c = true → digit' (f c) = true) (hpoint : f '.' = '.') :
    IsPlainNumeral digit' (cs.map f) := by
  have hmap : ∀ ds : List Char, (∀ c ∈ ds, digit c = true) →
      ∀ c ∈ ds.map f, digit' c = true := by
    intro ds hd c hc
    obtain ⟨d, hmem, rfl⟩ := List.mem_map.mp hc
    exact hf d (hd d hmem)
  cases h with
  | whole hne hd => exact .whole (mt List.map_eq_nil_iff.mp hne) (hmap _ hd)
  | pointed hne hd hnf hfs =>
      rw [List.map_append, List.map_cons, hpoint]
      exact .pointed (mt List.map_eq_nil_iff.mp hne) (hmap _ hd)
        (mt List.map_eq_nil_iff.mp hnf) (hmap _ hfs)

end IsPlainNumeral

/-! ## What they stand for -/

theorem dropUnderscores?_of_not_mem : ∀ {cs : List Char} {digit : Bool}, '_' ∉ cs →
    dropUnderscores? digit cs = some cs
  | [], _, _ => by simp [dropUnderscores?]
  | c :: rest, digit, h => by
      have hc : c ≠ '_' := fun hc => h (hc ▸ List.mem_cons_self ..)
      have ih : dropUnderscores? (isLatinDigit c) rest = some rest :=
        dropUnderscores?_of_not_mem fun hmem => h (List.mem_cons_of_mem _ hmem)
      cases digit <;> simp [dropUnderscores?, hc, ih]

theorem span_digits {ds rest : List Char} (hd : ∀ c ∈ ds, isLatinDigit c = true)
    (hrest : ∀ c ∈ rest.head?, isLatinDigit c = false) :
    (ds ++ rest).span isLatinDigit = (ds, rest) := by
  rw [List.span_eq_takeWhile_dropWhile, List.takeWhile_append_of_pos hd,
    List.dropWhile_append_of_pos hd]
  cases rest with
  | nil => simp
  | cons c later => simp [hrest c rfl]

theorem span_digits_end {ds : List Char} (hd : ∀ c ∈ ds, isLatinDigit c = true) :
    ds.span isLatinDigit = (ds, []) := by
  have h : (ds ++ []).span isLatinDigit = (ds, []) := span_digits hd nofun
  rwa [List.append_nil] at h

/-- The digits on both sides of a point. -/
theorem span_pointed {ds fs : List Char} (hd : ∀ c ∈ ds, isLatinDigit c = true)
    (hf : ∀ c ∈ fs, isLatinDigit c = true) :
    (ds ++ '.' :: fs).span isLatinDigit = (ds, '.' :: fs) ∧
      fractionPart ('.' :: fs) = (fs, []) := by
  refine ⟨span_digits hd ?_, span_digits_end hf⟩
  rintro c ⟨⟩
  rfl

section Latin

variable {cs : List Char} (h : IsPlainNumeral isLatinDigit cs)

include h

theorem trimEdges_plain : trimEdges cs = cs := by
  obtain ⟨c, rest, rfl, hc⟩ := h.first
  obtain ⟨l, init, hrev, hl⟩ := h.last
  unfold trimEdges
  rw [List.dropWhile_cons_of_neg (by simp [(ne_of_isLatinDigit hc).1]), hrev,
    List.dropWhile_cons_of_neg (by simp [(ne_of_isLatinDigit hl).1]), ← hrev,
    List.reverse_reverse]

theorem not_mem_underscore_plain : '_' ∉ cs := by
  intro hmem
  rcases h.mem hmem with hd | hd
  · exact (ne_of_isLatinDigit hd).2.1 rfl
  · cases hd

theorem signed_plain : signed cs = (false, cs) := by
  obtain ⟨c, rest, rfl, hc⟩ := h.first
  obtain ⟨-, -, hminus, hplus, -⟩ := ne_of_isLatinDigit hc
  unfold signed
  split
  · next heq => exact absurd (List.cons.inj heq).1 hminus
  · next heq => exact absurd (List.cons.inj heq).1 hplus
  · rfl

/-- A plain numeral is no word: words do not start with a digit. -/
theorem map_toLower_ne_plain {c : Char} {rest : List Char} (hc : c = 'n' ∨ c = 'i') :
    cs.map Char.toLower ≠ c :: rest := by
  obtain ⟨d, later, rfl, hd⟩ := h.first
  obtain ⟨-, -, -, -, hn, hi⟩ := ne_of_isLatinDigit hd
  intro heq
  rw [List.map_cons] at heq
  have hfirst := (List.cons.inj heq).1
  rcases hc with rfl | rfl
  · exact hn hfirst
  · exact hi hfirst

/-- The digits before the point and after it. -/
theorem span_plain : ∃ whole rest fraction, cs.span isLatinDigit = (whole, rest) ∧
    fractionPart rest = (fraction, []) ∧ whole ≠ [] := by
  cases h with
  | whole hne hd => exact ⟨cs, [], [], span_digits_end hd, rfl, hne⟩
  | pointed hne hd _ hf =>
      obtain ⟨hspan, hfraction⟩ := span_pointed hd hf
      exact ⟨_, _, _, hspan, hfraction, hne⟩

/-- The double nearest to what the digits write. -/
theorem unsigned?_plain {whole rest fraction : List Char}
    (hspan : cs.span isLatinDigit = (whole, rest)) (hfraction : fractionPart rest = (fraction, []))
    (hne : whole ≠ []) (negative : Bool) : unsigned? negative cs =
      some (ofDecimal negative (ofDigits (whole ++ fraction)) (-fraction.length)) := by
  have hnan : cs.map Char.toLower ≠ "nan".toList := map_toLower_ne_plain h (c := 'n') (.inl rfl)
  have hinf : cs.map Char.toLower ≠ "inf".toList := map_toLower_ne_plain h (c := 'i') (.inr rfl)
  have hinfinity : cs.map Char.toLower ≠ "infinity".toList :=
    map_toLower_ne_plain h (c := 'i') (.inr rfl)
  unfold unsigned?
  rw [hspan]
  dsimp only
  rw [if_neg hnan, if_neg (not_or.mpr ⟨hinf, hinfinity⟩), hfraction]
  simp [hne, exponent?]

end Latin

/-- Blanks, underscores and signs are no part of a plain numeral. -/
theorem ofNumeral?_plain {text : String}
    (h : IsPlainNumeral isLatinDigit (text.toList.map latinize)) :
    ofNumeral? text = unsigned? false (text.toList.map latinize) := by
  unfold ofNumeral?
  rw [trimEdges_plain h, dropUnderscores?_of_not_mem (not_mem_underscore_plain h)]
  simp only [Option.bind_eq_bind, Option.bind_some, signed_plain h]

theorem isSome_ofNumeral? {text : String} (h : IsPlainNumeral isDigit text.toList) :
    (ofNumeral? text).isSome := by
  have hl : IsPlainNumeral isLatinDigit (text.toList.map latinize) :=
    h.map (fun _ => isLatinDigit_latinize) (by decide)
  obtain ⟨whole, rest, fraction, hspan, hfraction, hne⟩ := span_plain hl
  rw [ofNumeral?_plain hl, unsigned?_plain hl hspan hfraction hne]
  rfl

end Tern
