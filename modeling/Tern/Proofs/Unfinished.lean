import Tern.Proofs.Submission

/-!
# Unfinished drafts

A draft with something open is one that Enter does not submit, so it had better be the beginning of
a text that can be submitted. Brackets can always be closed on a new line (`exists_closed`), and so
can a string that has only come to the end of the draft (`failure?_lex_close`). But a backslash
takes the next character with it and must not take a newline: a string where a newline stands after
a backslash is closed by nothing, and counts as open whatever is written after it
(`openDepth_append_of_hasBrokenString`). It is the only draft of this kind
(`finishable_iff`).
-/

namespace Tern

open Text

/-! ## Strings that nothing closes -/

/-- What follows an opening quote comes to a newline after a backslash before any closing quote. -/
def breaksOff : List Char → Bool
  | [] => false
  | '"' :: _ => false
  | ['\\'] => false
  | '\\' :: c :: rest => c = '\n' || breaksOff rest
  | _ :: rest => breaksOff rest

/-- The cutting of a draft stops at the quote of a string that nothing closes. -/
def hasBrokenString (draft : String) : Bool :=
  match (lex draft).failure? with
  | none => false
  | some f => f.char = '"' && breaksOff (draft.toList.drop (f.offset + 1))

/-- What is merely not closed yet is closed by a quote. The blank before it is for a backslash at
the end, which takes it. -/
theorem isStringRest_close {cs : List Char} (hopen : reachClosing cs = none)
    (h : breaksOff cs = false) : IsStringRest (cs ++ [' ', '"']) := by
  fun_induction breaksOff cs with
  | case1 => exact .plain (by decide) (by decide) .close
  | case2 => cases hopen
  | case3 => exact .escaped (by decide) .close
  | case4 c rest ih =>
      simp only [Bool.or_eq_false_iff, decide_eq_false_iff_not] at h
      rw [reachClosing, if_neg h.1, Option.map_eq_none_iff] at hopen
      exact .escaped h.1 (ih hopen h.2)
  | case5 c rest hquote hone hslash ih =>
      have hplain : c ≠ '\\' := by
        rintro rfl
        cases rest with
        | nil => exact hone rfl rfl
        | cons d rest => exact hslash d rest rfl rfl
      rw [reachClosing, Option.map_eq_none_iff] at hopen
      · exact .plain hquote hplain (ih hopen h)
      all_goals assumption

theorem reachClosing_append_of_breaksOff {cs : List Char} (h : breaksOff cs) (more : List Char) :
    reachClosing (cs ++ more) = none := by
  fun_induction breaksOff cs with
  | case1 => cases h
  | case2 => cases h
  | case3 => cases h
  | case4 c rest ih =>
      simp only [Bool.or_eq_true, decide_eq_true_eq] at h
      rw [List.cons_append, List.cons_append, reachClosing]
      split
      · rfl
      · next hc => rw [ih (h.resolve_left hc), Option.map_none]
  | case5 c rest hquote hone hslash ih =>
      have hplain : c ≠ '\\' := by
        rintro rfl
        cases rest with
        | nil => exact hone rfl rfl
        | cons d rest => exact hslash d rest rfl rfl
      rw [List.cons_append, reachClosing, ih h, Option.map_none]
      · exact hquote
      · exact fun hc => absurd hc hplain
      · exact fun _ _ hc => absurd hc hplain

/-! ## Matches at a quote -/

theorem longestMatch?_quote_eq_none_iff {cs : List Char} :
    longestMatch? ('"' :: cs) = none ↔ reachClosing cs = none := by
  constructor
  · intro h
    cases hreach : reachClosing cs with
    | none => rfl
    | some n =>
        have htext : IsText .string ('"' :: cs.take n) := .string (isStringRest_take hreach)
        refine absurd ?_ (not_isText_of_longestMatch? h htext)
        exact List.cons_prefix_cons.mpr ⟨rfl, List.take_prefix ..⟩
  · intro h
    cases hmatch : longestMatch? ('"' :: cs) with
    | none => rfl
    | some found =>
        obtain ⟨k, n⟩ := found
        have htext := isText_of_longestMatch? hmatch
        have hinit : ('"' :: cs).take n <+: '"' :: cs := List.take_prefix ..
        generalize ('"' :: cs).take n = w at htext hinit
        obtain ⟨c, w, rfl⟩ := List.exists_cons_of_ne_nil htext.ne_nil
        obtain ⟨rfl, more, rfl⟩ := List.cons_prefix_cons.mp hinit
        have hcovers := covers_of_isText htext
        rw [← family_of_isText htext] at hcovers
        obtain ⟨_, heq, hrest⟩ := hcovers
        cases heq
        rw [reachClosing_append hrest] at h
        cases h

theorem longestMatch?_string {cs : List Char} (h : IsStringRest cs) (more : List Char) :
    longestMatch? ('"' :: cs ++ more) = some (.string, ('"' :: cs).length) := by
  have htext : IsText .string ('"' :: cs) := .string h
  refine longestMatch?_eq_some_iff.mpr ⟨by decide, htext, fun k v hv hinit => ?_⟩
  by_contra hlt
  obtain ⟨c, u, rfl, -⟩ := exists_cons_of_longer hinit (Nat.lt_of_not_le hlt)
  have hcovers := covers_of_isText hv
  rw [family_of_initial htext hv hinit] at hcovers
  cases eq_nil_of_covers_quote ⟨cs, rfl, h⟩ hcovers

/-! ## Cutting a longer text -/

/-- The longest match of blanks ends before a character that is none. -/
theorem isBlank_of_blank {w rest : List Char}
    (h : longestMatch? (w ++ rest) = some (.blank, w.length)) :
    ∀ c ∈ rest.head?, isBlank c = false := by
  obtain ⟨-, htext, hmax⟩ := longestMatch?_eq_some_iff.mp h
  intro c hc
  obtain ⟨rest, rfl⟩ := List.head?_eq_some_iff.mp hc
  by_contra hblank
  have hlong : IsText .blank (w ++ [c]) := .blank (by simp) (by
    intro d hd
    rcases List.mem_append.mp hd with hd | hd
    · exact (covers_of_isText htext).2 d hd
    · rw [List.mem_singleton.mp hd]
      simpa using hblank)
  have hle := hmax .blank _ hlong (prefix_append_cons w c rest)
  rw [List.length_append, List.length_singleton] at hle
  omega

/-- A match stays the longest when what follows it keeps its first character, and goes on as before
or with a gap. -/
theorem longestMatch?_same_head {w cs ds : List Char} {c : Char} {k : TokenKind}
    (h : longestMatch? (w ++ c :: cs) = some (k, w.length))
    (hnext : Clear ds ∨ cs.head? = ds.head?) :
    longestMatch? (w ++ c :: ds) = some (k, w.length) := by
  have htext := (longestMatch?_eq_some_iff.mp h).2.1
  by_cases hk : k.isIgnored
  · rcases eq_of_isIgnored hk with rfl | rfl
    · have hhead := eq_newline_of_comment h
      exact longestMatch?_comment htext (by simpa using hhead)
    · have hhead := isBlank_of_blank h
      exact longestMatch?_blanks htext (by simpa using hhead)
  · exact longestMatch?_ahead (by simpa using hk) h (.inr ⟨c, cs, ds, rfl, rfl, hnext⟩)

/-- Where the cutting of a text fails at a character, the lexemes before it are those of every
longer text, if two characters are there from the failure on or a gap follows. -/
theorem lexFrom_append {rounds : Nat} {p : Pos} {offset : Nat} {cs : List Char} {f : LexFailure}
    (h : (lexFrom rounds p offset cs).failure? = some f) :
    ∃ rest, cs = texts (lexFrom rounds p offset cs).lexemes ++ f.char :: rest ∧
      f.offset = offset + (texts (lexFrom rounds p offset cs).lexemes).length ∧
      longestMatch? (f.char :: rest) = none ∧
      ∀ {more : List Char} {rounds' : Nat}, Clear more ∨ rest ≠ [] →
        (cs ++ more).length ≤ rounds' →
        let later := lexFrom rounds' f.pos f.offset (f.char :: (rest ++ more))
        lexFrom rounds' p offset (cs ++ more) =
          ⟨(lexFrom rounds p offset cs).lexemes ++ later.lexemes, later.failure?⟩ := by
  fun_induction lexFrom rounds p offset cs with
  | case1 => cases h
  | case2 => cases h
  | case3 rounds p offset c rest hmatch =>
      cases h
      exact ⟨rest, rfl, rfl, hmatch, fun _ _ => rfl⟩
  | case4 rounds p offset c rest kind n hmatch taken text later ih =>
      obtain ⟨rest', hsplit, hoffset, hnone, hlonger⟩ := ih h
      have htaken : taken.length = n := length_take_of_longestMatch? hmatch
      have hcs : c :: rest = taken ++ (texts later.lexemes ++ f.char :: rest') := by
        rw [← hsplit]
        exact (List.take_append_drop ..).symm
      have htext : text.toList = taken := String.toList_ofList
      refine ⟨rest', ?_, ?_, hnone, ?_⟩
      · rw [texts_cons, htext, List.append_assoc, ← hcs]
      · rw [texts_cons, htext, List.length_append, htaken, hoffset, Nat.add_assoc]
      · intro more rounds' hmore hrounds
        -- The match sees the first two characters after it at most.
        have hlong : longestMatch? (taken ++ ((c :: rest).drop n ++ more)) =
            some (kind, taken.length) := by
          rw [← htaken, hcs] at hmatch
          rw [hsplit]
          cases hlater : texts later.lexemes with
          | nil =>
              rw [hlater] at hmatch
              refine longestMatch?_same_head hmatch ?_
              cases rest' with
              | nil => exact .inl (hmore.resolve_right (· rfl))
              | cons d rest' => exact .inr rfl
          | cons d ds =>
              rw [hlater] at hmatch
              refine longestMatch?_same_head hmatch (.inr ?_)
              cases ds <;> rfl
        have hall : (c :: rest) ++ more = taken ++ ((c :: rest).drop n ++ more) := by
          rw [← List.append_assoc]
          exact congrArg (· ++ more) (List.take_append_drop ..).symm
        rw [hall] at hrounds ⊢
        have hlen : ((c :: rest).drop n ++ more).length ≤ rounds' :=
          (List.suffix_append taken _).length_le.trans hrounds
        rw [lexFrom_of_longestMatch? hrounds hlong, htaken, hlonger hmore hlen]
        rfl

theorem lex_append {draft : String} {f : LexFailure} (h : (lex draft).failure? = some f) :
    ∃ rest, draft.toList = texts (lex draft).lexemes ++ f.char :: rest ∧
      draft.toList.drop (f.offset + 1) = rest ∧ longestMatch? (f.char :: rest) = none ∧
      ∀ more : String, Clear more.toList ∨ rest ≠ [] →
        let later := lexFrom (draft ++ more).toList.length f.pos f.offset
          (f.char :: (rest ++ more.toList))
        lex (draft ++ more) = ⟨(lex draft).lexemes ++ later.lexemes, later.failure?⟩ := by
  obtain ⟨rest, hsplit, hoffset, hnone, hlonger⟩ := lexFrom_append h
  refine ⟨rest, hsplit, ?_, hnone, fun more hmore => ?_⟩
  · rw [hsplit, hoffset, Nat.zero_add, List.append_cons, List.drop_left' (by simp)]
  · rw [lex, String.toList_append]
    exact hlonger hmore (Nat.le_refl _)

/-! ## Finishing a draft -/

theorem nesting_append (ls ms : List Lexeme) : nesting (ls ++ ms) = nesting ls + nesting ms := by
  induction ls with
  | nil => exact (Int.zero_add _).symm
  | cons l ls ih => rw [List.cons_append, nesting, nesting, ih, Int.add_assoc]

theorem nesting_of_closing : ∀ {n : Nat} {ts : List Lexeme},
    kinds ts = List.replicate n .parenClose → nesting ts = -n
  | 0, ts, h => by
      obtain rfl := List.map_eq_nil_iff.mp h
      rfl
  | n + 1, ts, h => by
      obtain ⟨t, ts, rfl, ht, hts⟩ := kinds_eq_cons h
      rw [nesting, ht, nesting_of_closing hts]
      show (-1 : Int) + -n = -(n + 1 : Nat)
      omega

theorem openDepth_of_lex {draft : String} (h : (lex draft).failure? = none) :
    openDepth draft = (nesting (tokens draft)).toNat := by
  rw [openDepth, h, tokens, nesting_filter_isIgnored]

/-- Brackets are closed on a new line, whatever the draft ends with. -/
theorem exists_closed {draft : String} (h : (lex draft).failure? = none) :
    ∃ more, (lex (draft ++ more)).failure? = none ∧ openDepth (draft ++ more) = 0 := by
  generalize hn : (nesting (tokens draft)).toNat = n
  have hspelled : ∀ k ∈ List.replicate n TokenKind.parenClose, k ∈ spelled := by
    intro k hk
    rw [(List.mem_replicate.mp hk).2]
    decide
  obtain ⟨ts, hclosing, hkinds⟩ := scans_spellingChars hspelled
    ((Pos.start.after draft.toList).next '\n') (0 + draft.toList.length + 1)
  have hscans := (scans_tokens h).append hclosing
  refine ⟨String.ofList ('\n' :: spellingChars (List.replicate n .parenClose)), ?_⟩
  rw [← String.toList_ofList (l := '\n' :: _), ← String.toList_append] at hscans
  obtain ⟨htokens, hnone⟩ := tokens_of_scans hscans
  refine ⟨hnone, ?_⟩
  rw [openDepth_of_lex hnone, htokens, nesting_append, nesting_of_closing hkinds]
  omega

theorem failure?_lex_close {draft : String} {f : LexFailure} (h : (lex draft).failure? = some f)
    (hquote : f.char = '"') (hwhole : breaksOff (draft.toList.drop (f.offset + 1)) = false) :
    (lex (draft ++ " \"")).failure? = none := by
  obtain ⟨rest, hsplit, rfl, hnone, hlonger⟩ := lex_append h
  generalize draft.toList.drop (f.offset + 1) = rest at hsplit hwhole hnone hlonger
  rw [hquote] at hsplit hnone hlonger
  have hstring := longestMatch?_string
    (isStringRest_close (longestMatch?_quote_eq_none_iff.mp hnone) hwhole) []
  have hrounds : ('"' :: (rest ++ [' ', '"']) ++ []).length ≤ (draft ++ " \"").toList.length := by
    rw [String.toList_append, hsplit]
    simp
  have hlater := lexFrom_of_longestMatch? hrounds hstring f.pos f.offset
  rw [List.append_nil] at hlater
  rw [hlonger " \"" (.inl (clear_cons rfl _))]
  show (lexFrom _ f.pos f.offset ('"' :: (rest ++ [' ', '"']))).failure? = none
  rw [hlater]
  cases (draft ++ " \"").toList.length <;> rfl

theorem lexFrom_of_longestMatch?_eq_none {rounds : Nat} {p : Pos} {offset : Nat} {c : Char}
    {cs : List Char} (hrounds : (c :: cs).length ≤ rounds) (h : longestMatch? (c :: cs) = none) :
    lexFrom rounds p offset (c :: cs) = ⟨[], some ⟨c, p, offset⟩⟩ := by
  obtain ⟨rounds, rfl⟩ := Nat.exists_eq_succ_of_ne_zero
    (Nat.ne_of_gt (Nat.lt_of_lt_of_le (Nat.succ_pos _) hrounds))
  rw [lexFrom, h]

/-- After a broken string a draft stays as open as it is. -/
theorem openDepth_append_of_hasBrokenString {draft : String} (h : hasBrokenString draft)
    (more : String) : (lex (draft ++ more)).failure? ≠ none ∧
      openDepth (draft ++ more) = openDepth draft := by
  unfold hasBrokenString at h
  split at h
  · cases h
  · next f hfailure =>
    simp only [Bool.and_eq_true, decide_eq_true_eq] at h
    obtain ⟨hquote, hbreaks⟩ := h
    obtain ⟨rest, hsplit, rfl, -, hlonger⟩ := lex_append hfailure
    generalize draft.toList.drop (f.offset + 1) = rest at hsplit hbreaks hlonger
    have hrest : rest ≠ [] := by
      rintro rfl
      cases hbreaks
    have hnone : longestMatch? (f.char :: (rest ++ more.toList)) = none := by
      rw [hquote]
      exact longestMatch?_quote_eq_none_iff.mpr (reachClosing_append_of_breaksOff hbreaks _)
    have hrounds : (f.char :: (rest ++ more.toList)).length ≤ (draft ++ more).toList.length := by
      rw [String.toList_append, hsplit]
      simp
    have hlonger := hlonger more (.inr hrest)
    rw [lexFrom_of_longestMatch?_eq_none hrounds hnone] at hlonger
    dsimp only at hlonger
    rw [List.append_nil] at hlonger
    refine ⟨by rw [hlonger]; nofun, ?_⟩
    rw [openDepth, openDepth, hlonger, hfailure]

/-- A draft with something open can be finished unless a string in it is broken. -/
theorem finishable_iff {draft : String} (h : 0 < openDepth draft) :
    (∃ more, (lex (draft ++ more)).failure? = none ∧ openDepth (draft ++ more) = 0) ↔
      hasBrokenString draft = false := by
  constructor
  · rintro ⟨more, hnone, -⟩
    rw [← Bool.not_eq_true]
    exact fun hbroken => (openDepth_append_of_hasBrokenString hbroken more).1 hnone
  · intro hwhole
    cases hfailure : (lex draft).failure? with
    | none => exact exists_closed hfailure
    | some f =>
        have hquote : f.char = '"' := by
          by_contra hother
          rw [openDepth, hfailure] at h
          dsimp only at h
          rw [if_neg hother] at h
          cases h
        rw [hasBrokenString, hfailure] at hwhole
        have hclosed := failure?_lex_close hfailure hquote (by simpa [hquote] using hwhole)
        obtain ⟨more, hmore⟩ := exists_closed hclosed
        rw [String.append_assoc] at hmore
        exact ⟨_, hmore⟩

/-- The backslash at the end takes whatever comes next. -/
theorem finishable_iff_backslash : 0 < openDepth "print(\"a\\" ∧
    hasBrokenString "print(\"a\\" = false ∧
    ∃ more, (lex ("print(\"a\\" ++ more)).failure? = none ∧
      openDepth ("print(\"a\\" ++ more) = 0 :=
  ⟨by decide +kernel, by decide +kernel,
    (finishable_iff (by decide +kernel)).mpr (by decide +kernel)⟩

/-- A string that is broken at once is open and can never be finished. -/
theorem not_finishable_newline : openDepth "\"\\\n" = 1 ∧
    ¬∃ more, (lex ("\"\\\n" ++ more)).failure? = none ∧
      openDepth ("\"\\\n" ++ more) = 0 := by
  refine ⟨by decide +kernel, ?_⟩
  rintro ⟨more, hnone, -⟩
  exact (openDepth_append_of_hasBrokenString (by decide +kernel) more).1 hnone

end Tern
