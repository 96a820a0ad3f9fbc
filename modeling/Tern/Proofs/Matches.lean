import Tern.Proofs.Terminals

/-!
# The longest match

A terminal takes a text of its kind and never reaches beyond the end. The first character of a
text tells the family of its kind (`family_of_isText`), so that no two terminals share a text
(`eq_of_isText`). Hence the longest match can be said without the reaches of terminals and their
order: it is the longest text of any terminal at the front (`longestMatch?_eq_some_iff`).
-/

namespace Tern

open Text

/-! ## What a terminal takes -/

theorem isStringRest_take {cs : List Char} {n : Nat} (h : reachClosing cs = some n) :
    IsStringRest (cs.take n) := by
  fun_induction reachClosing cs generalizing n with
  | case1 => cases h
  | case2 => cases h; exact .close
  | case3 => cases h
  | case4 => cases h
  | case5 c rest hc ih =>
      obtain ⟨m, hm, rfl⟩ := Option.map_eq_some_iff.mp h
      exact .escaped hc (ih hm)
  | case6 c rest hquote hone hslash ih =>
      obtain ⟨m, hm, rfl⟩ := Option.map_eq_some_iff.mp h
      refine .plain hquote ?_ (ih hm)
      rintro rfl
      cases rest with
      | nil => exact hone rfl rfl
      | cons d rest => exact hslash d rest rfl rfl

theorem isText_takeString {cs : List Char} (h : 0 < reachString cs) :
    IsText .string (cs.take (reachString cs)) := by
  unfold reachString at h ⊢
  split at h
  · next rest =>
    cases hn : reachClosing rest with
    | none => simp [hn] at h
    | some n => exact .string (isStringRest_take hn)
  · cases h

theorem isText_takeName {cs : List Char} (h : 0 < reachName cs) :
    IsText .ident (cs.take (reachName cs)) := by
  unfold reachName at h ⊢
  split at h
  · next c rest =>
    by_cases hc : isNameStart c
    · rw [if_pos hc, Nat.add_comm, List.take_succ_cons, take_reachRun]
      exact .ident hc fun _ => List.mem_takeWhile_imp
    · rw [if_neg hc] at h
      cases h
  · cases h

theorem isText_takeComment {cs : List Char} (h : 0 < reachComment cs) :
    IsText .comment (cs.take (reachComment cs)) := by
  unfold reachComment at h ⊢
  split at h
  · rw [Nat.add_comm, List.take_succ_cons, take_reachRun]
    exact .comment fun c hc => by simpa using List.mem_takeWhile_imp hc
  · cases h

theorem isText_takeBlanks {cs : List Char} (h : 0 < reachRun isBlank cs) :
    IsText .blank (cs.take (reachRun isBlank cs)) := by
  rw [take_reachRun]
  exact .blank (List.ne_nil_of_length_pos h) fun _ => List.mem_takeWhile_imp

/-- What a terminal takes is a text of its kind. -/
theorem isText_take {cs : List Char} {kind : TokenKind} {reach : List Char → Nat}
    (hmem : (kind, reach) ∈ terminals) (hpos : 0 < reach cs) :
    IsText kind (cs.take (reach cs)) := by
  rcases List.mem_append.mp hmem with hmem | hmem
  · simp only [List.mem_cons, Prod.mk.injEq, List.not_mem_nil, or_false] at hmem
    rcases hmem with ⟨rfl, rfl⟩ | ⟨rfl, rfl⟩ | ⟨rfl, rfl⟩ | ⟨rfl, rfl⟩ | ⟨rfl, rfl⟩
    · exact .number (isPlainNumeral_take hpos)
    · exact isText_takeString hpos
    · exact isText_takeName hpos
    · exact isText_takeComment hpos
    · exact isText_takeBlanks hpos
  · obtain ⟨⟨k, words⟩, hq, hword⟩ := List.mem_flatMap.mp hmem
    obtain ⟨word, hw, heq⟩ := List.mem_map.mp hword
    cases heq
    rw [take_reachWord hpos]
    exact .fixed hq hw

/-! ## No terminal reaches beyond the end -/

theorem reachRun_le_length (p : Char → Bool) (cs : List Char) : reachRun p cs ≤ cs.length :=
  (List.takeWhile_prefix p).length_le

theorem reachNumber_le_length (cs : List Char) : reachNumber cs ≤ cs.length := by
  have hwhole := reachRun_le_length isDigit cs
  unfold reachNumber
  dsimp only
  split
  · next rest hrest =>
    have hlen := congrArg List.length hrest
    have hfraction := reachRun_le_length isDigit rest
    rw [List.length_drop, List.length_cons] at hlen
    split <;> omega
  · exact hwhole

theorem le_length_of_reachClosing {cs : List Char} {n : Nat} (h : reachClosing cs = some n) :
    n ≤ cs.length := by
  fun_induction reachClosing cs generalizing n with
  | case1 => cases h
  | case2 => cases h; exact Nat.succ_le_succ (Nat.zero_le _)
  | case3 => cases h
  | case4 => cases h
  | case5 c rest hc ih =>
      obtain ⟨m, hm, rfl⟩ := Option.map_eq_some_iff.mp h
      exact Nat.add_le_add_right (ih hm) 2
  | case6 c rest hquote hone hslash ih =>
      obtain ⟨m, hm, rfl⟩ := Option.map_eq_some_iff.mp h
      exact Nat.add_le_add_right (ih hm) 1

theorem reachString_le_length (cs : List Char) : reachString cs ≤ cs.length := by
  unfold reachString
  split
  · next rest =>
    cases hn : reachClosing rest with
    | none => exact Nat.zero_le _
    | some n => exact Nat.add_le_add_right (le_length_of_reachClosing hn) 1
  · exact Nat.zero_le _

theorem reachName_le_length (cs : List Char) : reachName cs ≤ cs.length := by
  unfold reachName
  split
  · next c rest =>
    have hrest := reachRun_le_length isNamePart rest
    rw [List.length_cons]
    split <;> omega
  · exact Nat.zero_le _

theorem reachComment_le_length (cs : List Char) : reachComment cs ≤ cs.length := by
  unfold reachComment
  split
  · next rest =>
    have hrest := reachRun_le_length (· != '\n') rest
    rw [List.length_cons]
    omega
  · exact Nat.zero_le _

theorem reachWord_le_length (word cs : List Char) : reachWord word cs ≤ cs.length := by
  unfold reachWord
  split
  · next h => exact (List.isPrefixOf_iff_prefix.mp h).length_le
  · exact Nat.zero_le _

theorem reach_le_length {q : TokenKind × (List Char → Nat)} (hq : q ∈ terminals)
    (cs : List Char) : q.2 cs ≤ cs.length := by
  rcases List.mem_append.mp hq with hq | hq
  · simp only [List.mem_cons, List.not_mem_nil, or_false] at hq
    rcases hq with rfl | rfl | rfl | rfl | rfl
    · exact reachNumber_le_length cs
    · exact reachString_le_length cs
    · exact reachName_le_length cs
    · exact reachComment_le_length cs
    · exact reachRun_le_length isBlank cs
  · obtain ⟨_, -, hword⟩ := List.mem_flatMap.mp hq
    obtain ⟨word, -, rfl⟩ := List.mem_map.mp hword
    exact reachWord_le_length word.toList cs

/-! ## The first character -/

/-- What the first character of a text can be. -/
inductive Family
  | digit | quote | letter | hash | blank | sign
  deriving DecidableEq

def family (c : Char) : Family :=
  if isDigit c then .digit
  else if c = '"' then .quote
  else if isNameStart c then .letter
  else if c = '#' then .hash
  else if isBlank c then .blank
  else .sign

/-- The family of the first characters of a kind's texts. -/
def TokenKind.family : TokenKind → Family
  | .number => .digit
  | .string => .quote
  | .comment => .hash
  | .blank => .blank
  | k => if k = .ident ∨ k ∈ keywords.map (·.2) then .letter else .sign

theorem lt_of_isNameStart {c : Char} (h : isNameStart c) : c.toNat < 128 := by
  simp only [isNameStart, Bool.or_eq_true, Bool.and_eq_true, decide_eq_true_eq, beq_iff_eq] at h
  rcases h with (⟨-, hle⟩ | ⟨-, hle⟩) | rfl
  · exact Nat.lt_of_le_of_lt hle (by decide)
  · exact Nat.lt_of_le_of_lt hle (by decide)
  · decide

theorem family_of_isNameStart {c : Char} (h : isNameStart c) :
    family c = .letter ∧ isBlank c = false := by
  have hall : ∀ n, n < 128 → isNameStart (Char.ofNat n) →
      family (Char.ofNat n) = .letter ∧ isBlank (Char.ofNat n) = false := by
    decide +kernel
  have := hall c.toNat (lt_of_isNameStart h)
  rw [Char.ofNat_toNat] at this
  exact this h

/-- No digit of any script is a blank. -/
theorem isBlank_of_isDigit {c : Char} (h : isDigit c) : isBlank c = false := by
  obtain ⟨d, hd⟩ := Option.isSome_iff_exists.mp h
  obtain ⟨first, hfirst, hz⟩ := List.exists_of_findSome?_eq_some hd
  split at hz
  · next hrange =>
    obtain ⟨hlow, hhigh⟩ := hrange
    have hc : c = Char.ofNat (first + (c.toNat - first)) := by
      rw [Nat.add_sub_cancel' hlow, Char.ofNat_toNat]
    rw [hc]
    exact (digitZeros_spec first hfirst).2 _ (by omega)
  · cases hz

theorem family_of_isBlank {c : Char} (h : isBlank c) : family c = .blank := by
  have hdigit : isDigit c = false := by
    rw [← Bool.not_eq_true]
    intro hd
    rw [isBlank_of_isDigit hd] at h
    cases h
  have hname : isNameStart c = false := by
    rw [← Bool.not_eq_true]
    intro hn
    rw [(family_of_isNameStart hn).2] at h
    cases h
  have hquote : c ≠ '"' := by rintro rfl; cases h
  have hhash : c ≠ '#' := by rintro rfl; cases h
  simp [family, hdigit, hname, hquote, hhash, h]

theorem family_fixedTexts :
    ∀ q ∈ fixedTexts, ∀ text ∈ q.2, ∀ c ∈ text.toList.head?, family c = q.1.family := by
  have hfirst : ∀ q ∈ fixedTexts, ∀ text ∈ q.2,
      text.toList.head?.all (family · = q.1.family) := by decide +kernel
  intro q hq text ht c hc
  simpa [Option.mem_def.mp hc] using hfirst q hq text ht

theorem family_keywords : ∀ q ∈ keywords, q.2.family = .letter := by
  decide +kernel

/-- The first character of a text tells its kind's family. -/
theorem family_of_isText {kind : TokenKind} {c : Char} {cs : List Char}
    (h : IsText kind (c :: cs)) : family c = kind.family := by
  generalize hw : c :: cs = w at h
  cases h with
  | number h =>
      obtain ⟨d, rest, rfl, hd⟩ := h.first
      cases hw
      exact if_pos hd
  | string h => cases hw; rfl
  | ident hc h => cases hw; exact (family_of_isNameStart hc).1
  | comment h => cases hw; rfl
  | blank hne h =>
      subst hw
      exact family_of_isBlank (h c (List.mem_cons_self ..))
  | fixed hk ht => exact family_fixedTexts _ hk _ ht c (by rw [← hw]; rfl)
  | reserved h =>
      obtain ⟨d, rest, hd, hstart, -⟩ := keywords_isName _ h
      rw [hd] at hw
      cases hw
      rw [family_keywords _ h]
      exact (family_of_isNameStart hstart).1

/-- The texts of a family. -/
def Family.Covers : Family → List Char → Prop
  | .digit, w => IsPlainNumeral isDigit w
  | .quote, w => ∃ cs, w = '"' :: cs ∧ IsStringRest cs
  | .letter, w => ∃ c cs, w = c :: cs ∧ isNameStart c ∧ ∀ d ∈ cs, isNamePart d
  | .hash, w => ∃ cs, w = '#' :: cs ∧ ∀ c ∈ cs, c ≠ '\n'
  | .blank, w => w ≠ [] ∧ ∀ c ∈ w, isBlank c
  | .sign, w => ∃ q ∈ fixedTexts, ∃ text ∈ q.2, w = text.toList

theorem covers_of_isText {kind : TokenKind} {w : List Char} (h : IsText kind w) :
    kind.family.Covers w := by
  have hsign : ∀ q ∈ fixedTexts, q.1.family = .sign := by decide +kernel
  cases h with
  | number h => exact h
  | string h => exact ⟨_, rfl, h⟩
  | ident hc h => exact ⟨_, _, rfl, hc, h⟩
  | comment h => exact ⟨_, rfl, h⟩
  | blank hne h => exact ⟨hne, h⟩
  | fixed hk ht =>
      rw [hsign _ hk]
      exact ⟨_, hk, _, ht, rfl⟩
  | reserved h =>
      rw [family_keywords _ h]
      exact keywords_isName _ h

/-! ## No two terminals share a text -/

theorem eq_of_family :
    ∀ k ∈ terminals.map (·.1), ∀ k' ∈ terminals.map (·.1), k.family = k'.family →
      k.family ≠ .sign → k = k' := by
  decide +kernel

theorem eq_of_mem_fixedTexts :
    ∀ q ∈ fixedTexts, ∀ q' ∈ fixedTexts, ∀ text ∈ q.2, text ∈ q'.2 → q.1 = q'.1 := by
  decide +kernel

theorem mem_fixedTexts_of_isText {kind : TokenKind} {w : List Char} (h : IsText kind w)
    (hsign : kind.family = .sign) : ∃ texts text, (kind, texts) ∈ fixedTexts ∧ text ∈ texts ∧
      w = text.toList := by
  cases h with
  | fixed hk ht => exact ⟨_, _, hk, ht, rfl⟩
  | reserved h =>
      rw [family_keywords _ h] at hsign
      cases hsign
  | _ => cases hsign

theorem eq_of_isText {k k' : TokenKind} (hk : k ∈ terminals.map (·.1))
    (hk' : k' ∈ terminals.map (·.1)) {w : List Char} (h : IsText k w) (h' : IsText k' w) :
    k = k' := by
  obtain ⟨c, cs, rfl⟩ := List.exists_cons_of_ne_nil h.ne_nil
  have hfamily : k.family = k'.family := (family_of_isText h).symm.trans (family_of_isText h')
  by_cases hsign : k.family = .sign
  · obtain ⟨texts, text, hmem, htext, hw⟩ := mem_fixedTexts_of_isText h hsign
    obtain ⟨texts', text', hmem', htext', hw'⟩ := mem_fixedTexts_of_isText h' (hfamily ▸ hsign)
    obtain rfl : text = text' := String.toList_injective (hw.symm.trans hw')
    exact eq_of_mem_fixedTexts _ hmem _ hmem' text htext htext'
  · exact eq_of_family k hk k' hk' hfamily hsign

/-! ## The longest match is the longest text -/

theorem le_of_furthest_foldl {cs : List Char} {kind : TokenKind} {n : Nat} :
    ∀ {ts : List (TokenKind × (List Char → Nat))} {best : Option (TokenKind × Nat)},
    ts.foldl (fun best (kind, reach) => furthest cs best kind reach) best = some (kind, n) →
    (best.map (·.2)).getD 0 ≤ n ∧ ∀ q ∈ ts, q.2 cs ≤ n
  | [], _, h => by
      subst h
      exact ⟨Nat.le_refl _, by simp⟩
  | (k, r) :: rest, best, h => by
      rw [List.foldl_cons] at h
      obtain ⟨hbest, hrest⟩ := le_of_furthest_foldl h
      dsimp only [furthest] at hbest
      split at hbest
      · next hlt =>
        exact ⟨(Nat.le_of_lt hlt).trans hbest, List.forall_mem_cons.mpr ⟨hbest, hrest⟩⟩
      · next hle =>
        exact ⟨hbest, List.forall_mem_cons.mpr ⟨(Nat.le_of_not_lt hle).trans hbest, hrest⟩⟩

theorem length_le_of_longestMatch? {cs : List Char} {kind : TokenKind} {n : Nat}
    (h : longestMatch? cs = some (kind, n)) {k : TokenKind} {w : List Char} (hw : IsText k w)
    (hinit : w <+: cs) : w.length ≤ n := by
  obtain ⟨more, rfl⟩ := hinit
  obtain ⟨q, hq, hle⟩ := exists_le_reach hw more
  exact hle.trans ((le_of_furthest_foldl h).2 q hq)

theorem isText_of_longestMatch? {cs : List Char} {kind : TokenKind} {n : Nat}
    (h : longestMatch? cs = some (kind, n)) : IsText kind (cs.take n) := by
  obtain ⟨reach, hmem, rfl, hpos⟩ := longestMatch?_mem h
  exact isText_take hmem hpos

theorem kind_of_longestMatch? {cs : List Char} {kind : TokenKind} {n : Nat}
    (h : longestMatch? cs = some (kind, n)) : kind ∈ terminals.map (·.1) := by
  obtain ⟨reach, hmem, -⟩ := longestMatch?_mem h
  exact List.mem_map.mpr ⟨_, hmem, rfl⟩

theorem length_take_of_longestMatch? {cs : List Char} {kind : TokenKind} {n : Nat}
    (h : longestMatch? cs = some (kind, n)) : (cs.take n).length = n := by
  obtain ⟨reach, hmem, rfl, -⟩ := longestMatch?_mem h
  rw [List.length_take, Nat.min_eq_left (reach_le_length hmem cs)]

/-- The longest match of a text that goes on, said without the reaches of terminals. -/
theorem longestMatch?_eq_some_iff {w more : List Char} {kind : TokenKind} :
    longestMatch? (w ++ more) = some (kind, w.length) ↔
      kind ∈ terminals.map (·.1) ∧ IsText kind w ∧
        ∀ k v, IsText k v → v <+: w ++ more → v.length ≤ w.length := by
  constructor
  · intro h
    have htext := isText_of_longestMatch? h
    rw [List.take_left] at htext
    exact ⟨kind_of_longestMatch? h, htext, fun k v hv => length_le_of_longestMatch? h hv⟩
  · rintro ⟨hkind, htext, hmax⟩
    have hinit : w <+: w ++ more := List.prefix_append ..
    cases hmatch : longestMatch? (w ++ more) with
    | none => exact absurd hinit (not_isText_of_longestMatch? hmatch htext)
    | some found =>
        obtain ⟨k, n⟩ := found
        have hle := length_le_of_longestMatch? hmatch htext hinit
        have hge := hmax k _ (isText_of_longestMatch? hmatch) (List.take_prefix ..)
        rw [length_take_of_longestMatch? hmatch] at hge
        obtain rfl : n = w.length := Nat.le_antisymm hge hle
        have hfound := isText_of_longestMatch? hmatch
        rw [List.take_left] at hfound
        rw [eq_of_isText (kind_of_longestMatch? hmatch) hkind hfound htext]

theorem exists_cons_of_longestMatch? {w more : List Char} {kind : TokenKind}
    (h : longestMatch? (w ++ more) = some (kind, w.length)) : ∃ c v, w = c :: v :=
  List.exists_cons_of_ne_nil (longestMatch?_eq_some_iff.mp h).2.1.ne_nil

/-- A text that a longer one starts with is of the same family. -/
theorem family_of_initial {k k' : TokenKind} {w v more : List Char} (hw : IsText k w)
    (hv : IsText k' v) (hinit : v <+: w ++ more) : k'.family = k.family := by
  obtain ⟨c, w, rfl⟩ := List.exists_cons_of_ne_nil hw.ne_nil
  obtain ⟨d, v, rfl⟩ := List.exists_cons_of_ne_nil hv.ne_nil
  obtain ⟨rfl, -⟩ := List.cons_prefix_cons.mp hinit
  exact (family_of_isText hv).symm.trans (family_of_isText hw)

theorem exists_cons_of_longer {v w more : List Char} (hinit : v <+: w ++ more)
    (hlt : w.length < v.length) : ∃ c u, v = w ++ c :: u ∧ c :: u <+: more := by
  obtain ⟨u, rfl⟩ : w <+: v :=
    List.prefix_of_prefix_length_le (List.prefix_append ..) hinit (Nat.le_of_lt hlt)
  obtain ⟨c, u, rfl⟩ := List.exists_cons_of_ne_nil (l := u) (by rintro rfl; simp at hlt)
  exact ⟨c, u, rfl, (List.prefix_append_right_inj w).mp hinit⟩

/-- Blanks are matched up to the next character that is none. -/
theorem longestMatch?_blanks {w more : List Char} (hw : IsText .blank w)
    (hmore : ∀ c ∈ more.head?, isBlank c = false) :
    longestMatch? (w ++ more) = some (.blank, w.length) := by
  refine longestMatch?_eq_some_iff.mpr ⟨by decide, hw, fun k v hv hinit => ?_⟩
  have hcovers := covers_of_isText hv
  rw [family_of_initial hw hv hinit] at hcovers
  by_contra hlt
  obtain ⟨c, u, rfl, rest, rfl⟩ := exists_cons_of_longer hinit (Nat.lt_of_not_le hlt)
  have hblank := hcovers.2 c (by simp)
  rw [hmore c rfl] at hblank
  cases hblank

/-- A comment is matched up to the end of its line. -/
theorem longestMatch?_comment {w more : List Char} (hw : IsText .comment w)
    (hmore : ∀ c ∈ more.head?, c = '\n') :
    longestMatch? (w ++ more) = some (.comment, w.length) := by
  refine longestMatch?_eq_some_iff.mpr ⟨by decide, hw, fun k v hv hinit => ?_⟩
  have hcovers := covers_of_isText hv
  rw [family_of_initial hw hv hinit] at hcovers
  by_contra hlt
  obtain ⟨c, u, rfl, rest, rfl⟩ := exists_cons_of_longer hinit (Nat.lt_of_not_le hlt)
  obtain ⟨cs, hcs, hline⟩ := hcovers
  obtain ⟨d, w, rfl⟩ := List.exists_cons_of_ne_nil hw.ne_nil
  obtain rfl : w ++ c :: u = cs := List.tail_eq_of_cons_eq hcs
  exact hline c (by simp) (hmore c rfl)

/-! ## Reserved words -/

theorem mem_keywords_of_lookup {text : String} {k : TokenKind}
    (h : keywords.lookup text = some k) : (text, k) ∈ keywords := by
  obtain ⟨front, back, hmem, -⟩ := List.lookup_eq_some_iff.mp h
  exact hmem ▸ List.mem_append_right _ (List.mem_cons_self ..)

/-- Reserving a name keeps it a text of its kind. -/
theorem isText_reserve {kind : TokenKind} {text : String} (h : IsText kind text.toList) :
    IsText (reserve kind text) text.toList := by
  by_cases hkind : kind = .ident
  · subst hkind
    rw [reserve, if_pos rfl]
    cases hk : keywords.lookup text with
    | none => exact h
    | some k => exact .reserved (mem_keywords_of_lookup hk)
  · rwa [reserve_of_ne hkind]

/-- Where the longest match is spelled like a reserved word, it is that word. -/
theorem reserve_of_mem_keywords {cs : List Char} {kind : TokenKind} {n : Nat} {text : String}
    (h : longestMatch? cs = some (kind, n)) (htext : cs.take n = text.toList) {k : TokenKind}
    (hk : (text, k) ∈ keywords) : reserve kind text = k := by
  have hstands : IsText kind text.toList := htext ▸ isText_of_longestMatch? h
  have hname : IsText .ident text.toList := by
    obtain ⟨c, rest, hc, hstart, hrest⟩ := keywords_isName _ hk
    exact hc ▸ .ident hstart hrest
  obtain rfl : kind = .ident :=
    eq_of_isText (kind_of_longestMatch? h) (by decide) hstands hname
  have hlookup : ∀ q ∈ keywords, keywords.lookup q.1 = some q.2 := by decide
  rw [reserve, if_pos rfl, hlookup _ hk]
  rfl

theorem isIgnored_reserve (kind : TokenKind) (text : String) :
    (reserve kind text).isIgnored = kind.isIgnored := by
  have hwords : ∀ q ∈ keywords, q.2.isIgnored = false := by decide
  by_cases hkind : kind = .ident
  · subst hkind
    rw [reserve, if_pos rfl]
    cases hk : keywords.lookup text with
    | none => rfl
    | some k => exact hwords _ (mem_keywords_of_lookup hk)
  · rw [reserve_of_ne hkind]

/-! ## Cutting by matches -/

/-- More rounds than characters make no difference. -/
theorem lexFrom_rounds : ∀ {m n : Nat} {p : Pos} {offset : Nat} {cs : List Char},
    cs.length ≤ m → cs.length ≤ n → lexFrom m p offset cs = lexFrom n p offset cs
  | m, n, _, _, [], _, _ => by cases m <;> cases n <;> rfl
  | m + 1, n + 1, p, offset, c :: cs, hm, hn => by
      rw [lexFrom, lexFrom]
      split
      · rfl
      · next kind k hmatch =>
        have hlen := length_drop_of_longestMatch? hmatch
        dsimp only
        rw [lexFrom_rounds (hlen.trans (Nat.le_of_succ_le_succ hm))
          (hlen.trans (Nat.le_of_succ_le_succ hn))]

/-- A match at the front of a text is its first lexeme. -/
theorem lexFrom_of_longestMatch? {w cs : List Char} {kind : TokenKind} {rounds : Nat}
    (hrounds : (w ++ cs).length ≤ rounds) (h : longestMatch? (w ++ cs) = some (kind, w.length))
    (p : Pos) (offset : Nat) :
    let later := lexFrom rounds (p.after w) (offset + w.length) cs
    lexFrom rounds p offset (w ++ cs) =
      ⟨⟨reserve kind (String.ofList w), String.ofList w, p, offset⟩ :: later.lexemes,
        later.failure?⟩ := by
  obtain ⟨c, w, rfl⟩ := exists_cons_of_longestMatch? h
  obtain ⟨rounds, rfl⟩ := Nat.exists_eq_succ_of_ne_zero (Nat.ne_of_gt (Nat.lt_of_lt_of_le
    (Nat.succ_pos _) hrounds))
  have hlen : cs.length ≤ rounds := by
    simp only [List.cons_append, List.length_cons, List.length_append] at hrounds
    omega
  intro later
  have hlater : lexFrom rounds (p.after (c :: w)) (offset + (c :: w).length) cs = later :=
    lexFrom_rounds hlen (Nat.le_succ_of_le hlen)
  rw [List.cons_append] at h ⊢
  rw [lexFrom, h]
  dsimp only
  rw [← List.cons_append, List.take_left, List.drop_left, hlater]

end Tern
