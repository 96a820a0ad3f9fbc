import Mathlib.Data.List.TakeWhile
import Tern.Proofs.Numerals
import Tern.Proofs.Trees

/-!
# Lexemes and their texts

Every lexeme is the longest match of some terminal at its place (`longestMatch?_mem`), so that
its text is what its kind promises: numbers are numerals, and the operators are among the fixed
texts. A reserved word has no promise to keep. Hence trees of programs are well shaped
(`parse_wellShaped`).
-/

namespace Tern

open Text

/-! ## The longest match -/

theorem furthest_foldl_mem {cs : List Char} {kind : TokenKind} {n : Nat} :
    ∀ {ts : List (TokenKind × (List Char → Nat))} {best : Option (TokenKind × Nat)},
    ts.foldl (fun best (kind, reach) => furthest cs best kind reach) best = some (kind, n) →
    best = some (kind, n) ∨ ∃ reach, (kind, reach) ∈ ts ∧ n = reach cs ∧ 0 < n
  | [], _, h => .inl h
  | (k, r) :: rest, best, h => by
      rw [List.foldl_cons] at h
      rcases furthest_foldl_mem h with hbest | ⟨reach, hmem, hn⟩
      · dsimp only [furthest] at hbest
        by_cases hlt : (best.map (·.2)).getD 0 < r cs
        · rw [if_pos hlt] at hbest
          cases hbest
          exact .inr ⟨r, List.mem_cons_self .., rfl, Nat.zero_lt_of_lt hlt⟩
        · rw [if_neg hlt] at hbest
          exact .inl hbest
      · exact .inr ⟨reach, List.mem_cons_of_mem _ hmem, hn⟩

theorem longestMatch?_mem {cs : List Char} {kind : TokenKind} {n : Nat}
    (h : longestMatch? cs = some (kind, n)) :
    ∃ reach, (kind, reach) ∈ terminals ∧ n = reach cs ∧ 0 < n :=
  (furthest_foldl_mem h).resolve_left nofun

theorem length_drop_of_longestMatch? {c : Char} {cs : List Char} {kind : TokenKind} {n : Nat}
    (h : longestMatch? (c :: cs) = some (kind, n)) : ((c :: cs).drop n).length ≤ cs.length := by
  obtain ⟨-, -, -, hpos⟩ := longestMatch?_mem h
  rw [List.length_drop, List.length_cons]
  omega

/-- A lexeme is a match, with a reserved word in place of an identifier spelled like it. -/
theorem match_of_mem_lexFrom {l : Lexeme} : ∀ {rounds : Nat} {pos : Pos} {offset : Nat}
    {cs : List Char}, l ∈ (lexFrom rounds pos offset cs).lexemes →
    ∃ rest kind n, longestMatch? rest = some (kind, n) ∧ l.text = String.ofList (rest.take n) ∧
      l.kind = reserve kind l.text
  | rounds, _, _, [], h => by
      cases rounds <;> cases h
  | 0, _, _, _ :: _, h => by cases h
  | rounds + 1, pos, offset, c :: rest, h => by
      unfold lexFrom at h
      split at h
      · cases h
      · next kind n hmatch =>
        rcases List.mem_cons.mp h with rfl | h
        · exact ⟨c :: rest, kind, n, hmatch, rfl, rfl⟩
        · exact match_of_mem_lexFrom h

/-! ## Texts of terminals -/

theorem take_reachRun (p : Char → Bool) (cs : List Char) :
    cs.take (reachRun p cs) = cs.takeWhile p :=
  (List.prefix_iff_eq_take.mp (List.takeWhile_prefix p)).symm

theorem isPlainNumeral_takeWhile {cs : List Char} (h : 0 < reachRun isDigit cs) :
    IsPlainNumeral isDigit (cs.take (reachRun isDigit cs)) := by
  rw [take_reachRun]
  exact .whole (List.ne_nil_of_length_pos h) fun _ => List.mem_takeWhile_imp

/-- What the terminal of numbers takes is a numeral. -/
theorem isPlainNumeral_take {cs : List Char} (h : 0 < reachNumber cs) :
    IsPlainNumeral isDigit (cs.take (reachNumber cs)) := by
  unfold reachNumber at h ⊢
  dsimp only at h ⊢
  split at h
  · next rest hrest =>
    split at h
    · next hnone =>
      rw [if_pos hnone]
      exact isPlainNumeral_takeWhile h
    · next hsome =>
      obtain ⟨hw, hf⟩ := not_or.mp hsome
      rw [if_neg hsome]
      have htake : cs.take (reachRun isDigit cs + 1 + reachRun isDigit rest) =
          cs.takeWhile isDigit ++ '.' :: rest.takeWhile isDigit := by
        rw [Nat.add_assoc, List.take_add, hrest, take_reachRun, Nat.add_comm 1,
          List.take_succ_cons, take_reachRun]
      rw [htake]
      exact .pointed (List.ne_nil_of_length_pos (Nat.pos_of_ne_zero hw))
        (fun _ => List.mem_takeWhile_imp) (List.ne_nil_of_length_pos (Nat.pos_of_ne_zero hf))
        fun _ => List.mem_takeWhile_imp
  · exact isPlainNumeral_takeWhile h

theorem take_reachWord {word cs : List Char} (h : 0 < reachWord word cs) :
    cs.take (reachWord word cs) = word := by
  unfold reachWord at h ⊢
  split
  · next hp => exact (List.prefix_iff_eq_take.mp (List.isPrefixOf_iff_prefix.mp hp)).symm
  · next hp =>
    rw [if_neg hp] at h
    cases h

theorem fits_fixedTexts :
    ∀ q ∈ fixedTexts, q.1 ≠ .ident ∧ ∀ word ∈ q.2, q.1.Fits word := by
  simp [fixedTexts, TokenKind.Fits, Operator.ofText?, Arith.ofInPlace?]

/-- An identifier, or the word that it is reserved for. -/
theorem fits_reserve_ident (text other : String) : (reserve .ident text).Fits other := by
  have hall : ∀ q ∈ keywords, q.2.Fits other := by
    simp [keywords, TokenKind.Fits]
  simp only [reserve, if_true]
  cases hk : keywords.lookup text with
  | none => trivial
  | some k =>
      obtain ⟨front, back, hmem, -⟩ := List.lookup_eq_some_iff.mp hk
      exact hall (text, k) (hmem ▸ List.mem_append_right _ (List.mem_cons_self ..))

theorem reserve_of_ne {kind : TokenKind} (h : kind ≠ .ident) (text : String) :
    reserve kind text = kind := by
  rw [reserve, if_neg h]

theorem fits_of_longestMatch? {cs : List Char} {kind : TokenKind} {n : Nat} {text : String}
    (h : longestMatch? cs = some (kind, n)) (ht : text = String.ofList (cs.take n)) :
    (reserve kind text).Fits text := by
  obtain ⟨reach, hmem, rfl, hpos⟩ := longestMatch?_mem h
  rcases List.mem_append.mp hmem with hmem | hmem
  · simp only [List.mem_cons, Prod.mk.injEq, List.not_mem_nil, or_false] at hmem
    rcases hmem with ⟨rfl, rfl⟩ | ⟨rfl, rfl⟩ | ⟨rfl, rfl⟩ | ⟨rfl, rfl⟩ | ⟨rfl, rfl⟩
    · show (Number.ofNumeral? text).isSome
      refine isSome_ofNumeral? ?_
      rw [ht, String.toList_ofList]
      exact isPlainNumeral_take hpos
    · trivial
    · exact fits_reserve_ident text text
    · trivial
    · trivial
  · obtain ⟨⟨k, words⟩, hq, hword⟩ := List.mem_flatMap.mp hmem
    obtain ⟨word, hw, heq⟩ := List.mem_map.mp hword
    cases heq
    obtain ⟨hne, hfits⟩ := fits_fixedTexts _ hq
    rw [take_reachWord hpos, String.ofList_toList] at ht
    rw [reserve_of_ne hne, ht]
    exact hfits word hw

theorem fits_of_mem_lexemes {source : String} {t : Lexeme} (h : t ∈ (lex source).lexemes) :
    t.kind.Fits t.text := by
  obtain ⟨rest, kind, n, hmatch, htext, hkind⟩ := match_of_mem_lexFrom h
  rw [hkind]
  exact fits_of_longestMatch? hmatch htext

/-- The tree of a program is well shaped. -/
theorem parse_wellShaped {source : String} {tree : Node} (h : parse source = .ok tree) :
    tree.WellShaped := wellShaped_of_parse h fun _ => fits_of_mem_lexemes

end Tern
