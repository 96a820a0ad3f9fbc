import Tern.Proofs.Lexemes

/-!
# The texts of terminals

What each terminal of the grammar stands for, as a set of texts and apart from how far it reaches
(`IsText`). Where no terminal reaches, no text of any terminal stands
(`not_isText_of_longestMatch?`). The lexemes of a text make up all that comes before the place
where the cutting fails, and nothing matches there (`lexFrom_failure`).
-/

namespace Tern

open Text

/-- What follows the opening quote of a string. -/
inductive IsStringRest : List Char → Prop
  | close : IsStringRest ['"']
  | plain {c : Char} {cs : List Char} (hquote : c ≠ '"') (hslash : c ≠ '\\')
      (h : IsStringRest cs) : IsStringRest (c :: cs)
  | escaped {c : Char} {cs : List Char} (hc : c ≠ '\n') (h : IsStringRest cs) :
      IsStringRest ('\\' :: c :: cs)

/-- The texts of the terminals. -/
inductive IsText : TokenKind → List Char → Prop
  | number {cs : List Char} (h : IsPlainNumeral isDigit cs) : IsText .number cs
  | string {cs : List Char} (h : IsStringRest cs) : IsText .string ('"' :: cs)
  | ident {c : Char} {cs : List Char} (hc : isNameStart c) (h : ∀ d ∈ cs, isNamePart d) :
      IsText .ident (c :: cs)
  | comment {cs : List Char} (h : ∀ c ∈ cs, c ≠ '\n') : IsText .comment ('#' :: cs)
  | blank {cs : List Char} (hne : cs ≠ []) (h : ∀ c ∈ cs, isBlank c) : IsText .blank cs
  | fixed {k : TokenKind} {texts : List String} {text : String} (hk : (k, texts) ∈ fixedTexts)
      (ht : text ∈ texts) : IsText k text.toList
  | reserved {k : TokenKind} {text : String} (h : (text, k) ∈ keywords) : IsText k text.toList

/-! ## Where no terminal reaches -/

theorem furthest_foldl_eq_none {cs : List Char} :
    ∀ {ts : List (TokenKind × (List Char → Nat))} {best : Option (TokenKind × Nat)},
    ts.foldl (fun best (kind, reach) => furthest cs best kind reach) best = none →
    best = none ∧ ∀ q ∈ ts, q.2 cs = 0
  | [], _, h => ⟨h, by simp⟩
  | (k, r) :: rest, best, h => by
      rw [List.foldl_cons] at h
      obtain ⟨hbest, hrest⟩ := furthest_foldl_eq_none h
      dsimp only [furthest] at hbest
      split at hbest
      · cases hbest
      · next hlt =>
        subst hbest
        exact ⟨rfl, List.forall_mem_cons.mpr ⟨Nat.eq_zero_of_not_pos hlt, hrest⟩⟩

theorem reach_eq_zero {cs : List Char} (h : longestMatch? cs = none)
    {q : TokenKind × (List Char → Nat)} (hq : q ∈ terminals) : q.2 cs = 0 :=
  (furthest_foldl_eq_none h).2 q hq

theorem le_reachRun {p : Char → Bool} {cs : List Char} (h : ∀ c ∈ cs, p c) (more : List Char) :
    cs.length ≤ reachRun p (cs ++ more) := by
  rw [reachRun, List.takeWhile_append_of_pos h, List.length_append]
  exact Nat.le_add_right ..

theorem reachRun_stop {p : Char → Bool} {cs : List Char} (h : ∀ c ∈ cs, p c) {d : Char}
    (hd : p d = false) (more : List Char) : reachRun p (cs ++ d :: more) = cs.length := by
  rw [reachRun, List.takeWhile_append_of_pos h, List.takeWhile_cons_of_neg (by simp [hd]),
    List.append_nil]

theorem reachRun_le_reachNumber (cs : List Char) : reachRun isDigit cs ≤ reachNumber cs := by
  unfold reachNumber
  dsimp only
  split
  · split <;> omega
  · exact Nat.le_refl _

theorem le_reachNumber {cs : List Char} (h : IsPlainNumeral isDigit cs) (more : List Char) :
    cs.length ≤ reachNumber (cs ++ more) := by
  cases h with
  | whole _ hd => exact (le_reachRun hd more).trans (reachRun_le_reachNumber _)
  | @pointed ds fs hne hd hnf hf =>
      have hwhole : reachRun isDigit (ds ++ '.' :: (fs ++ more)) = ds.length :=
        reachRun_stop hd rfl _
      have hfraction : fs.length ≤ reachRun isDigit (fs ++ more) := le_reachRun hf more
      have hds := List.length_pos_iff.mpr hne
      have hfs := List.length_pos_iff.mpr hnf
      rw [List.append_assoc, List.cons_append, reachNumber, hwhole, List.drop_left]
      show _ ≤ if ds.length = 0 ∨ reachRun isDigit (fs ++ more) = 0 then ds.length
        else ds.length + 1 + reachRun isDigit (fs ++ more)
      rw [if_neg (by omega), List.length_append, List.length_cons]
      omega

theorem reachClosing_append {cs : List Char} (h : IsStringRest cs) (more : List Char) :
    reachClosing (cs ++ more) = some cs.length := by
  induction h with
  | close => simp [reachClosing]
  | @plain c cs hquote hslash _ ih =>
      rw [List.cons_append, reachClosing.eq_def]
      split <;> simp_all
  | @escaped c cs hc _ ih =>
      rw [List.cons_append, List.cons_append, reachClosing, if_neg hc, ih]
      rfl

theorem le_reachWord (word more : List Char) : word.length ≤ reachWord word (word ++ more) := by
  rw [reachWord, if_pos (List.isPrefixOf_iff_prefix.mpr (List.prefix_append ..))]

theorem le_reachName {c : Char} {cs : List Char} (hc : isNameStart c) (h : ∀ d ∈ cs, isNamePart d)
    (more : List Char) : (c :: cs).length ≤ reachName (c :: cs ++ more) := by
  have hrest := le_reachRun h more
  rw [List.cons_append, reachName, if_pos hc, List.length_cons]
  omega

/-- Reserved words are spelled like names. -/
theorem keywords_isName : ∀ q ∈ keywords, ∃ c rest, q.1.toList = c :: rest ∧ isNameStart c ∧
    ∀ d ∈ rest, isNamePart d := by
  simp [keywords, isNameStart, isNamePart]

theorem IsText.ne_nil {k : TokenKind} {w : List Char} (hw : IsText k w) : w ≠ [] := by
  have hfixed : ∀ q ∈ fixedTexts, ∀ text ∈ q.2, text.toList ≠ [] := by decide
  cases hw with
  | number h => cases h <;> simp_all
  | string _ => exact List.cons_ne_nil _ _
  | ident _ _ => exact List.cons_ne_nil _ _
  | comment _ => exact List.cons_ne_nil _ _
  | blank hne _ => exact hne
  | fixed hk ht => exact hfixed _ hk _ ht
  | reserved h =>
      obtain ⟨c, rest, hcs, -⟩ := keywords_isName _ h
      exact hcs ▸ List.cons_ne_nil _ _

/-- Wherever the text of a terminal stands, some terminal reaches at least its end. -/
theorem exists_le_reach {k : TokenKind} {w : List Char} (hw : IsText k w) (more : List Char) :
    ∃ q ∈ terminals, w.length ≤ q.2 (w ++ more) := by
  cases hw with
  | number h => exact ⟨(.number, reachNumber), by simp [terminals], le_reachNumber h more⟩
  | @string cs h =>
      refine ⟨(.string, reachString), by simp [terminals], ?_⟩
      show _ ≤ ((reachClosing (cs ++ more)).map (· + 1)).getD 0
      rw [reachClosing_append h]
      exact Nat.le_refl _
  | ident hc h => exact ⟨(.ident, reachName), by simp [terminals], le_reachName hc h more⟩
  | @comment cs h =>
      have hrest : cs.length ≤ reachRun (· != '\n') (cs ++ more) :=
        le_reachRun (fun c hc => by simpa using h c hc) more
      refine ⟨(.comment, reachComment), by simp [terminals], ?_⟩
      simp only [List.cons_append, reachComment, List.length_cons]
      omega
  | blank _ h => exact ⟨(.blank, reachRun isBlank), by simp [terminals], le_reachRun h more⟩
  | @fixed _ _ text hk ht =>
      have hmem : (k, reachWord text.toList) ∈ terminals :=
        List.mem_append_right _ (List.mem_flatMap.mpr ⟨_, hk, List.mem_map.mpr ⟨text, ht, rfl⟩⟩)
      exact ⟨_, hmem, le_reachWord ..⟩
  | reserved h =>
      obtain ⟨c, rest, hcs, hc, hrest⟩ := keywords_isName _ h
      refine ⟨(.ident, reachName), by simp [terminals], ?_⟩
      rw [hcs]
      exact le_reachName hc hrest more

theorem not_isText_of_longestMatch? {cs : List Char} (h : longestMatch? cs = none)
    {k : TokenKind} {w : List Char} (hw : IsText k w) : ¬w <+: cs := by
  rintro ⟨more, rfl⟩
  obtain ⟨q, hq, hle⟩ := exists_le_reach hw more
  rw [reach_eq_zero h hq] at hle
  exact hw.ne_nil (List.length_eq_zero_iff.mp (Nat.le_zero.mp hle))

/-! ## Where the cutting ends -/

/-- The characters of lexemes that follow each other. -/
def texts (ls : List Lexeme) : List Char := ls.flatMap (·.text.toList)

@[simp] theorem texts_nil : texts [] = [] := rfl

@[simp] theorem texts_cons (l : Lexeme) (ls : List Lexeme) :
    texts (l :: ls) = l.text.toList ++ texts ls := rfl

theorem Pos.after_append (p : Pos) (cs ds : List Char) :
    p.after (cs ++ ds) = (p.after cs).after ds := List.foldl_append ..

theorem texts_lexFrom {rounds : Nat} {pos : Pos} {offset : Nat} {cs : List Char}
    (hrounds : cs.length ≤ rounds) (h : (lexFrom rounds pos offset cs).failure? = none) :
    texts (lexFrom rounds pos offset cs).lexemes = cs := by
  fun_induction lexFrom rounds pos offset cs with
  | case1 => rfl
  | case2 =>
      cases List.length_eq_zero_iff.mp (Nat.le_zero.mp hrounds)
      rfl
  | case3 => cases h
  | case4 rounds pos offset c rest kind n hmatch taken text later ih =>
      have hlen : ((c :: rest).drop n).length ≤ rounds :=
        (length_drop_of_longestMatch? hmatch).trans (Nat.le_of_succ_le_succ hrounds)
      rw [texts_cons, ih hlen h, String.toList_ofList]
      exact List.take_append_drop ..

theorem lexFrom_failure {rounds : Nat} {pos : Pos} {offset : Nat} {cs : List Char}
    {f : LexFailure} (h : (lexFrom rounds pos offset cs).failure? = some f) :
    ∃ rest, cs = texts (lexFrom rounds pos offset cs).lexemes ++ f.char :: rest ∧
      f.pos = pos.after (texts (lexFrom rounds pos offset cs).lexemes) ∧
      longestMatch? (f.char :: rest) = none := by
  fun_induction lexFrom rounds pos offset cs with
  | case1 => cases h
  | case2 => cases h
  | case3 rounds pos offset c rest hmatch =>
      cases h
      exact ⟨rest, rfl, rfl, hmatch⟩
  | case4 rounds pos offset c rest kind n hmatch taken text later ih =>
      obtain ⟨more, hcs, hpos, hnone⟩ := ih h
      have htext : text.toList = taken := String.toList_ofList
      refine ⟨more, ?_, ?_, hnone⟩
      · rw [texts_cons, htext, List.append_assoc, ← hcs]
        exact (List.take_append_drop ..).symm
      · rw [texts_cons, htext, Pos.after_append]
        exact hpos

end Tern
