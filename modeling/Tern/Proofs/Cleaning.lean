import Tern.Proofs.Layout
import Tern.Proofs.Neighbours
import Tern.Session.Draft

/-!
# Cleaning

A submitted text loses its invisible characters before it is parsed. Two of them, the no-break space
and the carriage return, are blanks that may be all that keeps two tokens apart. Where a word would
run on into the next token without them, as after `let`, the clean text has other tokens. Anywhere
else it has the same (`scansAs_clean`): what is left of a blank is a blank or nothing, and where
nothing is left the kinds of the neighbours do not clash, since the text is a program. Hence a
program in which no word runs on is the same program when it is clean (`parse_clean`).
-/

namespace Tern

open Text

/-! ## What is left of a text -/

/-- The visible characters. -/
def cleanChars (cs : List Char) : List Char := cs.filter (!isInvisible ·)

theorem toList_clean (text : String) : (clean text).toList = cleanChars text.toList :=
  String.toList_ofList

theorem cleanChars_append (cs ds : List Char) :
    cleanChars (cs ++ ds) = cleanChars cs ++ cleanChars ds := List.filter_append ..

theorem cleanChars_cons {c : Char} (h : isInvisible c = false) (cs : List Char) :
    cleanChars (c :: cs) = c :: cleanChars cs := List.filter_cons_of_pos (by simp [h])

theorem cleanChars_eq_self {cs : List Char} (h : ∀ c ∈ cs, isInvisible c = false) :
    cleanChars cs = cs := List.filter_eq_self.mpr fun c hc => by rw [h c hc]; rfl

/-- A newline is left. -/
theorem eq_newline_of_mem_head? {cs : List Char} (h : ∀ c ∈ cs.head?, c = '\n') :
    ∀ c ∈ (cleanChars cs).head?, c = '\n' := by
  cases cs with
  | nil => exact nofun
  | cons d cs =>
      obtain rfl := h d rfl
      rintro c ⟨⟩
      rfl

/-- Texts without gaps inside lose nothing. -/
theorem isInvisible_of_covers {f : Family} (hsolid : f.solid) {w : List Char} (h : f.Covers w)
    {c : Char} (hc : c ∈ w) : isInvisible c = false := by
  have hfixed : ∀ q ∈ fixedTexts, ∀ text ∈ q.2, text.toList.all (!isInvisible ·) := by
    decide +kernel
  rw [← Bool.not_eq_true]
  intro hinvisible
  obtain ⟨hdigit, hpart⟩ : isDigit c = false ∧ isNamePart c = false := by
    simp only [isInvisible, List.mem_cons, List.not_mem_nil, or_false, decide_eq_true_eq]
      at hinvisible
    rcases hinvisible with rfl | rfl | rfl | rfl | rfl | rfl <;> exact ⟨rfl, rfl⟩
  cases f with
  | digit =>
      rcases IsPlainNumeral.mem h hc with h | rfl
      · rw [hdigit] at h
        cases h
      · cases hinvisible
  | letter =>
      obtain ⟨d, ds, rfl, hd, hds⟩ := h
      have hparts : ∀ e ∈ d :: ds, isNamePart e :=
        List.forall_mem_cons.mpr ⟨by simp [isNamePart, hd], hds⟩
      rw [hparts c hc] at hpart
      cases hpart
  | sign =>
      obtain ⟨q, hq, text, ht, rfl⟩ := h
      have := List.all_eq_true.mp (hfixed q hq text ht) c hc
      rw [hinvisible] at this
      cases this
  | quote | hash | blank => cases hsolid

theorem isInvisible_of_isNamePart {c : Char} (h : isNamePart c) : isInvisible c = false := by
  have hword : Family.letter.Covers ['_', c] := ⟨_, _, rfl, rfl, List.forall_mem_singleton.mpr h⟩
  exact isInvisible_of_covers rfl hword (List.mem_cons_of_mem _ (List.mem_cons_self ..))

theorem cleanChars_of_isText {k : TokenKind} {w : List Char} (hk : k ∈ terminals.map (·.1))
    (h : IsText k w) (hblank : k ≠ .blank)
    (hwhole : k = .string ∨ k = .comment → ∀ c ∈ w, isInvisible c = false) : cleanChars w = w := by
  refine cleanChars_eq_self ?_
  by_cases hignored : k.isIgnored
  · exact hwhole (.inr ((eq_of_isIgnored hignored).resolve_right hblank))
  · rcases solid_of_isIgnored k hk (by simpa using hignored) with hsolid | hquote
    · exact fun c hc => isInvisible_of_covers hsolid (covers_of_isText h) hc
    · have hstring := eq_of_family k hk .string (by decide) hquote (by rw [hquote]; decide)
      exact hwhole (.inl hstring)

/-! ## Lexemes of which something is left -/

/-- Strings and comments that lose nothing. -/
def KeptWhole (ls : List Lexeme) : Prop :=
  ∀ l ∈ ls, l.kind = .string ∨ l.kind = .comment → ∀ c ∈ l.text.toList, isInvisible c = false

instance (ls : List Lexeme) : Decidable (KeptWhole ls) :=
  inferInstanceAs (Decidable (∀ l ∈ ls, l.kind = .string ∨ l.kind = .comment →
    ∀ c ∈ l.text.toList, isInvisible c = false))

/-- The lexeme is made of invisible characters. -/
def Lexeme.vanishes (l : Lexeme) : Bool := (cleanChars l.text.toList).isEmpty

/-- No word runs on into the lexeme that is next to it when invisible blanks are gone. -/
def Parted (ls : List Lexeme) : Prop :=
  (ls.filter (!·.vanishes)).IsChain fun l m => runsOn l.text.toList m.text.toList = false

instance (ls : List Lexeme) : Decidable (Parted ls) :=
  inferInstanceAs (Decidable (List.IsChain _ _))

section Tail

variable {l : Lexeme} {ls : List Lexeme}

theorem KeptWhole.tail (h : KeptWhole (l :: ls)) : KeptWhole ls :=
  fun m hm => h m (List.mem_cons_of_mem _ hm)

theorem Parted.tail (h : Parted (l :: ls)) : Parted ls := by
  unfold Parted at h
  rw [List.filter_cons] at h
  split at h
  · exact (List.isChain_cons.mp h).2
  · exact h

theorem NoClash.tail (h : NoClash (kinds ((l :: ls).filter (!·.kind.isIgnored)))) :
    NoClash (kinds (ls.filter (!·.kind.isIgnored))) := by
  rw [List.filter_cons] at h
  split at h
  · exact (List.isChain_cons.mp h).2
  · exact h

end Tail

section Head

variable {l : Lexeme} {ls : List Lexeme} {k : TokenKind} {more : List Char}
  (hmatch : longestMatch? (l.text.toList ++ more) = some (k, l.text.toList.length))
  (hkind : l.kind = reserve k l.text) (hwhole : KeptWhole (l :: ls))

include hmatch hkind hwhole

theorem cleanChars_head (hblank : k ≠ .blank) : cleanChars l.text.toList = l.text.toList := by
  obtain ⟨hterminal, htext, -⟩ := longestMatch?_eq_some_iff.mp hmatch
  refine cleanChars_of_isText hterminal htext hblank fun hk => ?_
  have hsame : l.kind = k := hkind.trans (reserve_of_ne (by rcases hk with rfl | rfl <;> decide) _)
  exact hwhole l (List.mem_cons_self ..) (hsame.symm ▸ hk)

theorem vanishes_head (hblank : k ≠ .blank) : l.vanishes = false := by
  obtain ⟨c, w, hl⟩ := exists_cons_of_longestMatch? hmatch
  rw [Lexeme.vanishes, cleanChars_head hmatch hkind hwhole hblank, hl]
  rfl

end Head

/-- A clean text starts with a gap, or with the first lexeme of which something is left. This one
is no blank or comment. -/
theorem clear_or_next {ls : List Lexeme} (hcut : Cut ls) : KeptWhole ls →
    Clear (cleanChars (texts ls)) ∨ ∃ m later us more, ls.filter (!·.vanishes) = m :: later ∧
      ls.filter (!·.kind.isIgnored) = m :: us ∧ IsText m.kind m.text.toList ∧
      cleanChars (texts ls) = m.text.toList ++ more := by
  induction hcut with
  | done => exact fun _ => .inl nofun
  | @lexeme l ls k hmatch hkind _ ih =>
      intro hwhole
      obtain ⟨-, htext, -⟩ := longestMatch?_eq_some_iff.mp hmatch
      rw [texts_cons, cleanChars_append]
      by_cases hblank : k = .blank
      · cases hleft : cleanChars l.text.toList with
        | nil =>
            have hvanishes : l.vanishes = true := by rw [Lexeme.vanishes, hleft]; rfl
            have hignored : l.kind.isIgnored = true := by
              rw [hkind, isIgnored_reserve, hblank]
              rfl
            rw [List.filter_cons_of_neg (by simp [hvanishes]),
              List.filter_cons_of_neg (by simp [hignored])]
            exact ih hwhole.tail
        | cons c cs =>
            have hc : c ∈ l.text.toList := List.mem_of_mem_filter (hleft ▸ List.mem_cons_self ..)
            subst hblank
            have hgap := (covers_of_isText htext).2 c hc
            exact .inl (clear_cons (by simp [isGap, hgap]) _)
      · rw [cleanChars_head hmatch hkind hwhole hblank]
        by_cases hcomment : k = .comment
        · subst hcomment
          obtain ⟨w, hw, -⟩ := covers_of_isText htext
          rw [hw]
          exact .inl (clear_cons rfl _)
        · have hvanishes := vanishes_head hmatch hkind hwhole hblank
          have hignored : l.kind.isIgnored = false := by
            rw [hkind, isIgnored_reserve, ← Bool.not_eq_true]
            exact fun h => (eq_of_isIgnored h).elim hcomment hblank
          refine .inr ⟨l, _, _, _, List.filter_cons_of_pos (by simp [hvanishes]),
            List.filter_cons_of_pos (by simp [hignored]), ?_, rfl⟩
          rw [hkind]
          exact isText_reserve htext

/-! ## The same tokens -/

theorem not_mem_clashing_of_reserve {k k' : TokenKind} {text : String}
    (h : k' ∉ (reserve k text).clashing) : k' ∉ k.clashing := by
  by_cases hname : k = .ident
  · rw [hname]
    exact List.not_mem_nil
  · rwa [reserve_of_ne hname] at h

/-- A lexeme that is no blank or comment is cut off from a clean text as well. -/
theorem longestMatch?_clean {l : Lexeme} {ls : List Lexeme} {k : TokenKind}
    (hmatch : longestMatch? (l.text.toList ++ texts ls) = some (k, l.text.toList.length))
    (hkind : l.kind = reserve k l.text) (hk : k.isIgnored = false) (hcut : Cut ls)
    (hwhole : KeptWhole (l :: ls)) (hparted : Parted (l :: ls))
    (hcalm : NoClash (kinds ((l :: ls).filter (!·.kind.isIgnored)))) :
    longestMatch? (l.text.toList ++ cleanChars (texts ls)) =
      some (k, l.text.toList.length) := by
  obtain ⟨hterminal, htext, -⟩ := longestMatch?_eq_some_iff.mp hmatch
  rcases clear_or_next hcut hwhole.tail with
    hclear | ⟨m, later, us, more, hleft, hnext, hm, hmore⟩
  · exact longestMatch?_ahead hk hmatch (.inl hclear)
  · have hblank : k ≠ .blank := by
      rintro rfl
      cases hk
    rw [Parted, List.filter_cons_of_pos (by simp [vanishes_head hmatch hkind hwhole hblank]),
      hleft] at hparted
    rw [List.filter_cons_of_pos (by simp [hkind, isIgnored_reserve, hk]), hnext] at hcalm
    have hword := (List.isChain_cons_cons.mp hparted).1
    have hclash : m.kind ∉ l.kind.clashing := (List.isChain_cons_cons.mp hcalm).1
    obtain ⟨x, v, hv⟩ := List.exists_cons_of_ne_nil hm.ne_nil
    rw [hmore]
    rw [hv] at hm hword ⊢
    exact longestMatch?_beside hm hterminal hk htext
      (not_mem_clashing_of_reserve (hkind ▸ hclash)) hword

/-- A clean text has the tokens of the text, if no word runs on and no kinds clash. -/
theorem scansAs_clean {ls : List Lexeme} (hcut : Cut ls) : KeptWhole ls → Parted ls →
    NoClash (kinds (ls.filter (!·.kind.isIgnored))) → ScansAs ls (cleanChars (texts ls)) := by
  induction hcut with
  | done => exact fun _ _ _ _ _ => ⟨[], .done, rfl⟩
  | @lexeme l ls k hmatch hkind hcut ih =>
      intro hwhole hparted hcalm
      obtain ⟨-, htext, -⟩ := longestMatch?_eq_some_iff.mp hmatch
      have hlater := ih hwhole.tail hparted.tail hcalm.tail
      rw [texts_cons, cleanChars_append]
      by_cases hk : k.isIgnored
      · refine .ignored hkind hk ?_
        rcases eq_of_isIgnored hk with rfl | rfl
        · rw [cleanChars_head hmatch hkind hwhole (by decide)]
          exact hlater.comment htext (eq_newline_of_mem_head? (eq_newline_of_comment hmatch))
        · exact hlater.blanks fun c hc =>
            (covers_of_isText htext).2 c (List.mem_of_mem_filter hc)
      · have hk : k.isIgnored = false := by simpa using hk
        have hblank : k ≠ .blank := by
          rintro rfl
          cases hk
        rw [cleanChars_head hmatch hkind hwhole hblank]
        exact .token (longestMatch?_clean hmatch hkind hk hcut hwhole hparted hcalm) hkind hk hlater

/-! ## Words that run on -/

section Scanned

variable {p : Pos} {offset : Nat} {w cs : List Char} {ts : List Lexeme}

/-- What is scanned after blanks. -/
theorem Scans.of_blanks : ∀ {w : List Char} {p : Pos} {offset : Nat}, (∀ c ∈ w, isBlank c) →
    Scans p offset (w ++ cs) ts → ∃ p offset, Scans p offset cs ts
  | [], p, offset, _, h => ⟨p, offset, h⟩
  | c :: w, p, offset, hw, h => by
      obtain ⟨hc, hw⟩ := List.forall_mem_cons.mp hw
      generalize hall : c :: w ++ cs = all at h
      cases h with
      | done => cases hall
      | blank _ h =>
          cases hall
          exact of_blanks hw h
      | comment hcomment =>
          obtain ⟨v, rfl, -⟩ := covers_of_isText hcomment
          obtain ⟨rfl, -⟩ := List.cons.inj hall
          cases hc
      | token hmatch hk =>
          obtain ⟨d, v, rfl⟩ := exists_cons_of_longestMatch? hmatch
          obtain ⟨rfl, -⟩ := List.cons.inj hall
          rw [isBlank_of_longestMatch? hmatch hk] at hc
          cases hc

/-- What is scanned after a comment. -/
theorem Scans.of_comment (hw : IsText .comment w) (hend : ∀ c ∈ cs.head?, c = '\n')
    (h : Scans p offset (w ++ cs) ts) : ∃ p offset, Scans p offset cs ts := by
  have hmatch := longestMatch?_comment hw hend
  generalize hall : w ++ cs = all at h hmatch
  cases h with
  | done =>
      rw [(List.append_eq_nil_iff.mp hall).2]
      exact ⟨p, offset, .done⟩
  | blank hc =>
      obtain ⟨v, rfl, -⟩ := covers_of_isText hw
      cases hall
      cases hc
  | comment hother hotherEnd h =>
      have hsame := hmatch.symm.trans (longestMatch?_comment hother hotherEnd)
      obtain ⟨-, rfl⟩ := List.append_inj hall (Prod.mk.inj (Option.some.inj hsame)).2
      exact ⟨_, _, h⟩
  | token hother hk =>
      obtain ⟨rfl, -⟩ := Prod.mk.inj (Option.some.inj (hmatch.symm.trans hother))
      cases hk

/-- A text that is no blank or comment is scanned as a token. -/
theorem Scans.of_token {k : TokenKind} (hterminal : k ∈ terminals.map (·.1)) (hw : IsText k w)
    (hk : k.isIgnored = false) (h : Scans p offset (w ++ cs) ts) :
    ∃ t us ds k', ts = t :: us ∧ w ++ cs = t.text.toList ++ ds ∧
      longestMatch? (t.text.toList ++ ds) = some (k', t.text.toList.length) ∧
      ∃ p offset, Scans p offset ds us := by
  obtain ⟨c, w, rfl⟩ := List.exists_cons_of_ne_nil hw.ne_nil
  have hsolid := solid_of_isIgnored k hterminal hk
  rw [← family_of_isText hw] at hsolid
  generalize hall : c :: w ++ cs = all at h
  cases h with
  | done => cases hall
  | blank hc =>
      cases hall
      rw [family_of_isBlank hc] at hsolid
      rcases hsolid with h | h <;> cases h
  | comment hcomment =>
      obtain ⟨v, rfl, -⟩ := covers_of_isText hcomment
      obtain ⟨rfl, -⟩ := List.cons.inj hall
      rcases hsolid with h | h <;> cases h
  | @token _ _ v ds us k' hmatch _ h =>
      refine ⟨_, us, ds, k', rfl, ?_, ?_, _, _, h⟩
      · rw [String.toList_ofList]
      · rwa [String.toList_ofList]

end Scanned

theorem Parted.cons {l : Lexeme} {ls : List Lexeme} (h : Parted ls)
    (hnext : ∀ m ∈ (ls.filter (!·.vanishes)).head?, runsOn l.text.toList m.text.toList = false) :
    Parted (l :: ls) := by
  unfold Parted
  rw [List.filter_cons]
  split
  · exact List.isChain_cons.mpr ⟨hnext, h⟩
  · exact h

theorem runsOn_eq_false {k : TokenKind} {w : List Char} (h : IsText k w)
    (hk : k.family ≠ .letter) (ds : List Char) : runsOn w ds = false := by
  obtain ⟨c, w, rfl⟩ := List.exists_cons_of_ne_nil h.ne_nil
  have hc : isNameStart c = false := by
    rw [← Bool.not_eq_true]
    exact fun hc => hk ((family_of_isText h).symm.trans (family_of_isNameStart hc).1)
  simp [runsOn, hc]

/-- A clean text starts with what is left of the first lexeme of which something is left. -/
theorem exists_cleanChars_texts {m : Lexeme} {later : List Lexeme} : ∀ {ls : List Lexeme},
    ls.filter (!·.vanishes) = m :: later →
    ∃ more, cleanChars (texts ls) = cleanChars m.text.toList ++ more
  | [], h => by cases h
  | l :: ls, h => by
      rw [texts_cons, cleanChars_append]
      rw [List.filter_cons] at h
      split at h
      · cases h
        exact ⟨_, rfl⟩
      · next hvanishes =>
        rw [Lexeme.vanishes, Bool.not_eq_true', Bool.not_eq_false, List.isEmpty_iff] at hvanishes
        rw [hvanishes]
        exact exists_cleanChars_texts h

/-- A word that is cut off from a clean text does not run on. -/
theorem runsOn_of_longestMatch? {l m : Lexeme} {ls : List Lexeme} {k k' : TokenKind}
    (htext : IsText k l.text.toList)
    (hmatch : longestMatch? (l.text.toList ++ cleanChars (texts ls)) =
      some (k', l.text.toList.length))
    (hm : m ∈ (ls.filter (!·.vanishes)).head?) :
    runsOn l.text.toList m.text.toList = false := by
  by_cases hletter : k.family = .letter
  · have hcovers := covers_of_isText htext
    rw [hletter] at hcovers
    obtain ⟨c, w, hl, hc, hw⟩ := hcovers
    obtain ⟨later, hfilter⟩ := List.head?_eq_some_iff.mp hm
    obtain ⟨more, hmore⟩ := exists_cleanChars_texts hfilter
    cases hmText : m.text.toList with
    | nil => simp [runsOn]
    | cons x v =>
        have hpart : isNamePart x = false := by
          rw [← Bool.not_eq_true]
          intro hx
          -- the word and this character would make a longer one
          rw [hmText, cleanChars_cons (isInvisible_of_isNamePart hx)] at hmore
          have hlong : IsText .ident (c :: (w ++ [x])) := .ident hc fun d hd => by
            rcases List.mem_append.mp hd with hd | hd
            · exact hw d hd
            · exact List.mem_singleton.mp hd ▸ hx
          have hle := (longestMatch?_eq_some_iff.mp hmatch).2.2 _ _ hlong (by
            rw [hl, hmore]
            exact prefix_append_cons (c :: w) x _)
          rw [hl, List.length_cons, List.length_cons, List.length_append,
            List.length_singleton] at hle
          omega
        simp [runsOn, hpart]
  · exact runsOn_eq_false htext hletter _

/-- A clean text has the tokens of the text only if no word runs on. -/
theorem parted_of_scans {ls : List Lexeme} (hcut : Cut ls) : KeptWhole ls →
    ∀ {p : Pos} {offset : Nat} {ts : List Lexeme}, Scans p offset (cleanChars (texts ls)) ts →
    ts.map Lexeme.word = (ls.filter (!·.kind.isIgnored)).map Lexeme.word → Parted ls := by
  induction hcut with
  | done => exact fun _ _ _ _ _ _ => .nil
  | @lexeme l ls k hmatch hkind hcut ih =>
      intro hwhole p offset ts hscans hts
      obtain ⟨hterminal, htext, -⟩ := longestMatch?_eq_some_iff.mp hmatch
      rw [texts_cons, cleanChars_append] at hscans
      by_cases hk : k.isIgnored
      · rw [List.filter_cons_of_neg (by simp [hkind, isIgnored_reserve, hk])] at hts
        rcases eq_of_isIgnored hk with rfl | rfl
        · rw [cleanChars_head hmatch hkind hwhole (by decide)] at hscans
          obtain ⟨_, _, hscans⟩ :=
            hscans.of_comment htext (eq_newline_of_mem_head? (eq_newline_of_comment hmatch))
          exact (ih hwhole.tail hscans hts).cons fun _ _ => runsOn_eq_false htext (by decide) _
        · obtain ⟨_, _, hscans⟩ := hscans.of_blanks fun c hc =>
            (covers_of_isText htext).2 c (List.mem_of_mem_filter hc)
          exact (ih hwhole.tail hscans hts).cons fun _ _ => runsOn_eq_false htext (by decide) _
      · have hk : k.isIgnored = false := by simpa using hk
        have hblank : k ≠ .blank := by
          rintro rfl
          cases hk
        rw [cleanChars_head hmatch hkind hwhole hblank] at hscans
        rw [List.filter_cons_of_pos (by simp [hkind, isIgnored_reserve, hk])] at hts
        obtain ⟨t, us, ds, k', rfl, hall, hfirst, _, _, hlater⟩ :=
          hscans.of_token hterminal htext hk
        obtain ⟨hword, hus⟩ := List.cons.inj hts
        obtain ⟨-, hsame⟩ := Prod.mk.inj hword
        rw [hsame] at hall hfirst
        obtain rfl := List.append_cancel_left hall
        exact (ih hwhole.tail hlater hus).cons fun m hm => runsOn_of_longestMatch? htext hfirst hm

/-! ## Clean programs -/

/-- A program has the same tokens when it is clean just if no word runs on. Then it is the same
program: its tree is the same apart from positions. -/
theorem parse_clean {source : String} {tree : Node} (h : parse source = .ok tree)
    (hwhole : KeptWhole (lex source).lexemes) :
    ((lex (clean source)).failure? = none ∧
        (tokens (clean source)).map Lexeme.word = (tokens source).map Lexeme.word ↔
      Parted (lex source).lexemes) ∧
    (Parted (lex source).lexemes →
      ∃ tree', parse (clean source) = .ok tree' ∧ tree'.bare = tree.bare) := by
  have hlex := (isProgram_of_parse h).1
  have hcut := cut_lex hlex
  have hclean : (clean source).toList = cleanChars (texts (lex source).lexemes) := by
    have htexts : texts (lex source).lexemes = source.toList := texts_lexFrom (Nat.le_refl _) hlex
    rw [htexts, toList_clean]
  have hsame : Parted (lex source).lexemes → (lex (clean source)).failure? = none ∧
      (tokens (clean source)).map Lexeme.word = (tokens source).map Lexeme.word := by
    intro hparted
    obtain ⟨ts, hscans, hts⟩ := scansAs_clean hcut hwhole hparted (noClash_of_parse h) .start 0
    rw [← hclean] at hscans
    obtain ⟨htokens, hnone⟩ := tokens_of_scans hscans
    exact ⟨hnone, htokens ▸ hts⟩
  refine ⟨⟨fun hwords => ?_, hsame⟩, fun hparted => ?_⟩
  · have hscans := scans_tokens hwords.1
    rw [hclean] at hscans
    exact parted_of_scans hcut hwhole hscans hwords.2
  · obtain ⟨hnone, hwords⟩ := hsame hparted
    exact exists_parse_of_word h hnone hwords

set_option maxRecDepth 2000 in
/-- Without the blanks around it the operator is still cut off from both operands. -/
theorem parse_clean_range : ∃ tree, parse "1\u00a0..\u00a02;\r" = .ok tree ∧
    ∃ tree', parse (clean "1\u00a0..\u00a02;\r") = .ok tree' ∧ tree'.bare = tree.bare := by
  have h : parse "1\u00a0..\u00a02;\r" = .ok (.tree .block [.tree .range
    [.token .number "1" (some ⟨1, 1⟩), .token .number "2" (some ⟨1, 6⟩)] (some ⟨1, 1⟩)]
    (some ⟨1, 1⟩)) := by rfl
  exact ⟨_, h, (parse_clean h (by decide +kernel)).2 (by decide +kernel)⟩

set_option maxRecDepth 2000 in
/-- The blank after `let` is all that keeps the name apart. -/
theorem not_parse_clean_let : ∃ tree, parse "let\u00a0x = 1" = .ok tree ∧
    KeptWhole (lex "let\u00a0x = 1").lexemes ∧
    ¬∃ tree', parse (clean "let\u00a0x = 1") = .ok tree' ∧ tree'.bare = tree.bare := by
  have h : parse "let\u00a0x = 1" = .ok (.tree .block [.tree .assign
    [.token .ident "x" (some ⟨1, 5⟩), .token .number "1" (some ⟨1, 9⟩)] (some ⟨1, 1⟩)]
    (some ⟨1, 1⟩)) := by rfl
  have hclean : parse (clean "let\u00a0x = 1") = .ok (.tree .block [.tree .setVar
    [.token .ident "letx" (some ⟨1, 1⟩), .token .number "1" (some ⟨1, 8⟩)] (some ⟨1, 1⟩)]
    (some ⟨1, 1⟩)) := by rfl
  refine ⟨_, h, by decide +kernel, ?_⟩
  rintro ⟨tree', hparse, hbare⟩
  rw [hclean] at hparse
  cases hparse
  cases hbare

end Tern
