import Tern.Proofs.Matches

/-!
# Scanning

A text is scanned into the lexemes that are no blanks or comments. What a lexeme takes depends on
what follows it only through the next two characters (`longestMatch?_ahead`), and a blank or the
mark of a comment after it changes nothing; hence the scanned lexemes can be described one
after the other (`Scans`), with blanks and comments as steps of their own, and the description is
what the cutting finds (`scans_lexFrom`, `lexFrom_of_scans`). So a text is scanned in the same
way wherever it stands (`Scans.down`), and two texts with a newline between them are scanned one
after the other (`Scans.append`).
-/

namespace Tern

open Text

/-! ## What a match sees of what follows -/

/-- The characters that start what separates lexemes. -/
def isGap (c : Char) : Bool := isBlank c || c == '#'

/-- A text that does not touch what is before it: it is empty or starts with a gap. -/
def Clear (cs : List Char) : Prop := ∀ c ∈ cs.head?, isGap c

/-- Two texts that a match before them cannot tell apart: the second keeps away from it, or both
start with the same character and the second keeps away from that, or goes on with the same. -/
def Near (cs ds : List Char) : Prop :=
  Clear ds ∨ ∃ c cs' ds', cs = c :: cs' ∧ ds = c :: ds' ∧ (Clear ds' ∨ cs'.head? = ds'.head?)

/-- Families whose texts have no gaps inside. -/
def Family.solid : Family → Bool
  | .digit | .letter | .sign => true
  | .quote | .hash | .blank => false

theorem isGap_of_isDigit {c : Char} (h : isDigit c) : isGap c = false := by
  have hhash : c ≠ '#' := by rintro rfl; cases h
  simp [isGap, isBlank_of_isDigit h, hhash]

theorem isGap_of_isNamePart {c : Char} (h : isNamePart c) : isGap c = false := by
  have hhash : c ≠ '#' := by rintro rfl; cases h
  have hblank : isBlank c = false := by
    rcases Bool.or_eq_true_iff.mp h with h | h
    · exact (family_of_isNameStart h).2
    · have hmem := mem_of_isLatinDigit h
      simp only [List.mem_cons, List.not_mem_nil, or_false] at hmem
      rcases hmem with rfl | rfl | rfl | rfl | rfl | rfl | rfl | rfl | rfl | rfl <;> rfl
  simp [isGap, hblank, hhash]

theorem isGap_fixedTexts :
    ∀ q ∈ fixedTexts, ∀ text ∈ q.2, ∀ c ∈ text.toList, isGap c = false := by
  have hall : ∀ q ∈ fixedTexts, ∀ text ∈ q.2, text.toList.all (!isGap ·) := by decide +kernel
  intro q hq text ht c hc
  simpa using List.all_eq_true.mp (hall q hq text ht) c hc

theorem isGap_of_covers {f : Family} (hsolid : f.solid) {w : List Char} (h : f.Covers w) {c : Char}
    (hc : c ∈ w) : isGap c = false := by
  cases f with
  | digit =>
      rcases IsPlainNumeral.mem h hc with h | rfl
      · exact isGap_of_isDigit h
      · rfl
  | letter =>
      obtain ⟨d, ds, rfl, hd, hds⟩ := h
      rcases List.mem_cons.mp hc with rfl | hc
      · exact isGap_of_isNamePart (by simp [isNamePart, hd])
      · exact isGap_of_isNamePart (hds c hc)
  | sign =>
      obtain ⟨q, hq, text, ht, rfl⟩ := h
      exact isGap_fixedTexts q hq text ht c hc
  | quote | hash | blank => cases hsolid

theorem prefix_append_cons (w : List Char) (x : Char) (t : List Char) : w ++ [x] <+: w ++ x :: t :=
  ⟨t, by simp⟩

/-- A numeral that goes on for two characters or more already goes on for one or two. -/
theorem isPlainNumeral_cut {w : List Char} (hw : w ≠ []) {x y : Char} {t : List Char}
    (h : IsPlainNumeral isDigit (w ++ x :: y :: t)) :
    IsPlainNumeral isDigit (w ++ [x]) ∨ IsPlainNumeral isDigit (w ++ [x, y]) := by
  have hne : w ++ [x] ≠ [] := by simp
  have hinit := prefix_append_cons w x (y :: t)
  generalize hv : w ++ x :: y :: t = v at h hinit
  cases h with
  | whole _ hd => exact .inl (.whole hne fun c hc => hd c (hinit.subset hc))
  | @pointed ds fs hds hd _ hf =>
      -- Either the point comes after `w`, or it is in it.
      rcases List.append_eq_append_iff.mp hv with ⟨more, rfl, hmore⟩ | ⟨more, rfl, hmore⟩
      · cases more with
        | nil =>
            obtain ⟨rfl, rfl⟩ := List.cons.inj hmore
            rw [List.append_nil] at hd
            exact .inr (.pointed hw hd (by simp) (by simpa using hf y (List.mem_cons_self ..)))
        | cons z more =>
            obtain ⟨rfl, -⟩ := List.cons.inj hmore
            exact .inl (.whole hne fun c hc => hd c ((prefix_append_cons w x more).subset hc))
      · cases more with
        | nil =>
            obtain ⟨rfl, rfl⟩ := List.cons.inj hmore
            rw [List.append_nil]
            exact .inr (.pointed hds hd (by simp) (by simpa using hf y (List.mem_cons_self ..)))
        | cons z more =>
            obtain ⟨rfl, rfl⟩ := List.cons.inj hmore
            rw [List.append_assoc, List.cons_append]
            exact .inl (.pointed hds hd (by simp)
              fun c hc => hf c ((prefix_append_cons more x (y :: t)).subset hc))

theorem length_fixedTexts : ∀ q ∈ fixedTexts, ∀ text ∈ q.2, text.toList.length ≤ 2 := by
  decide +kernel

/-- A text that goes on for two characters or more has a text in it that goes on for one or two. -/
theorem exists_isText_cut {f : Family} (hsolid : f.solid) {w : List Char} (hw : w ≠ []) {x y : Char}
    {t : List Char} (h : f.Covers (w ++ x :: y :: t)) :
    ∃ k, IsText k (w ++ [x]) ∨ IsText k (w ++ [x, y]) := by
  cases f with
  | digit => exact ⟨.number, (isPlainNumeral_cut hw h).imp .number .number⟩
  | letter =>
      obtain ⟨c, w, rfl⟩ := List.exists_cons_of_ne_nil hw
      obtain ⟨_, _, heq, hc, hds⟩ := h
      cases heq
      exact ⟨.ident, .inl (.ident hc
        fun d hd => hds d ((prefix_append_cons w x (y :: t)).subset hd))⟩
  | sign =>
      obtain ⟨q, hq, text, ht, heq⟩ := h
      have hlen := length_fixedTexts q hq text ht
      have hpos := List.length_pos_iff.mpr hw
      rw [← heq, List.length_append, List.length_cons, List.length_cons] at hlen
      omega
  | quote | hash | blank => cases hsolid

/-- A whole string is not the beginning of another. -/
theorem eq_nil_of_covers_quote {w more : List Char} (h : Family.quote.Covers w)
    (hmore : Family.quote.Covers (w ++ more)) : more = [] := by
  obtain ⟨cs, rfl, hcs⟩ := h
  obtain ⟨ds, heq, hds⟩ := hmore
  obtain rfl : cs ++ more = ds := List.tail_eq_of_cons_eq heq
  have hshort := reachClosing_append hcs more
  have hlong := reachClosing_append hds []
  rw [List.append_nil, hshort, List.length_append] at hlong
  exact List.length_eq_zero_iff.mp (by simpa using hlong)

theorem solid_of_isIgnored :
    ∀ k ∈ terminals.map (·.1), k.isIgnored = false → k.family.solid ∨ k.family = .quote := by
  decide +kernel

/-- No lexeme that a rule mentions starts with a blank. -/
theorem isBlank_of_longestMatch? {k : TokenKind} {c : Char} {cs : List Char} {n : Nat}
    (h : longestMatch? (c :: cs) = some (k, n + 1)) (hk : k.isIgnored = false) :
    isBlank c = false := by
  by_contra hc
  have hfamily : k.family = .blank :=
    (family_of_isText (isText_of_longestMatch? h)).symm.trans
      (family_of_isBlank (by simpa using hc))
  have hblank : k = .blank :=
    eq_of_family k (kind_of_longestMatch? h) .blank (by decide) hfamily (by rw [hfamily]; decide)
  rw [hblank] at hk
  cases hk

/-- What goes on into a text that is near to another goes on into that. -/
theorem prefix_of_near {x : Char} {u cs ds : List Char} (hu : x :: u <+: ds)
    (hgap : ∀ d ∈ x :: u, isGap d = false) (hnear : Near cs ds) :
    [x] <+: cs ∧ (u = [] ∨ ∃ y t, u = y :: t ∧ [x, y] <+: cs) := by
  obtain ⟨rest, rfl⟩ := hu
  rcases hnear with hclear | ⟨c, cs', ds', rfl, hds, hnext⟩
  · have := hclear x rfl
    rw [hgap x (List.mem_cons_self ..)] at this
    cases this
  · obtain ⟨rfl, rfl⟩ := List.cons.inj hds
    refine ⟨⟨cs', rfl⟩, ?_⟩
    cases u with
    | nil => exact .inl rfl
    | cons y t =>
        refine .inr ⟨y, t, rfl, ?_⟩
        rcases hnext with hclear | hsame
        · have := hclear y rfl
          rw [hgap y (by simp)] at this
          cases this
        · obtain ⟨more, rfl⟩ := List.head?_eq_some_iff.mp hsame
          exact ⟨more, rfl⟩

/-- What a match takes stays the longest when another text comes after it that is near. -/
theorem longestMatch?_ahead {w cs ds : List Char} {k : TokenKind} (hk : k.isIgnored = false)
    (h : longestMatch? (w ++ cs) = some (k, w.length)) (hnear : Near cs ds) :
    longestMatch? (w ++ ds) = some (k, w.length) := by
  obtain ⟨hkind, htext, hmax⟩ := longestMatch?_eq_some_iff.mp h
  refine longestMatch?_eq_some_iff.mpr ⟨hkind, htext, fun k' v hv hinit => ?_⟩
  by_contra hlt
  obtain ⟨x, u, rfl, hu⟩ := exists_cons_of_longer hinit (Nat.lt_of_not_le hlt)
  have hcovers := covers_of_isText hv
  rw [family_of_initial htext hv hinit] at hcovers
  rcases solid_of_isIgnored k hkind hk with hsolid | hquote
  · have hgap : ∀ d ∈ x :: u, isGap d = false := fun d hd =>
      isGap_of_covers hsolid hcovers (List.mem_append_right _ hd)
    -- A longer match takes no gap, so its next one or two characters were there before as well,
    -- and some terminal would have taken them.
    obtain ⟨hone, htwo⟩ := prefix_of_near hu hgap hnear
    have hnone : ∀ k v, v <+: cs → v ≠ [] → ¬IsText k (w ++ v) := by
      intro k v hv hne hlong
      have hle := hmax k _ hlong ((List.prefix_append_right_inj _).mpr hv)
      rw [List.length_append] at hle
      exact hne (List.length_eq_zero_iff.mp (by omega))
    rcases htwo with rfl | ⟨y, t, rfl, htwo⟩
    · exact hnone k' [x] hone (by simp) hv
    · obtain ⟨k, hlong | hlong⟩ := exists_isText_cut hsolid htext.ne_nil hcovers
      · exact hnone k _ hone (by simp) hlong
      · exact hnone k _ htwo (by simp) hlong
  · rw [hquote] at hcovers
    have := eq_nil_of_covers_quote (hquote ▸ covers_of_isText htext) hcovers
    cases this

/-! ## One lexeme after the other -/

/-- How a text at some place is scanned. Blanks are passed one by one and comments up to the end
of their line. -/
inductive Scans : Pos → Nat → List Char → List Lexeme → Prop
  | done {p : Pos} {offset : Nat} : Scans p offset [] []
  | blank {p : Pos} {offset : Nat} {c : Char} {cs : List Char} {ts : List Lexeme}
      (hc : isBlank c) (h : Scans (p.next c) (offset + 1) cs ts) : Scans p offset (c :: cs) ts
  | comment {p : Pos} {offset : Nat} {w cs : List Char} {ts : List Lexeme}
      (hw : IsText .comment w) (hend : ∀ c ∈ cs.head?, c = '\n')
      (h : Scans (p.after w) (offset + w.length) cs ts) : Scans p offset (w ++ cs) ts
  | token {p : Pos} {offset : Nat} {w cs : List Char} {ts : List Lexeme} {k : TokenKind}
      (hmatch : longestMatch? (w ++ cs) = some (k, w.length)) (hk : k.isIgnored = false)
      (h : Scans (p.after w) (offset + w.length) cs ts) :
      Scans p offset (w ++ cs) (⟨reserve k (String.ofList w), String.ofList w, p, offset⟩ :: ts)

theorem Scans.blanks : ∀ {w : List Char} {p : Pos} {offset : Nat} {cs : List Char}
    {ts : List Lexeme}, (∀ c ∈ w, isBlank c) → Scans (p.after w) (offset + w.length) cs ts →
    Scans p offset (w ++ cs) ts
  | [], _, _, _, _, _, h => h
  | c :: w, p, offset, cs, ts, hw, h => by
      obtain ⟨hc, hw⟩ := List.forall_mem_cons.mp hw
      refine .blank hc (blanks hw ?_)
      rwa [Nat.add_assoc, Nat.add_comm 1]

/-- What the lexemes of a text are that no rule of the grammar ignores. -/
def Lexed.visible (lexed : Lexed) : List Lexeme := lexed.lexemes.filter (!·.kind.isIgnored)

/-- Blanks and comments are passed over. -/
theorem lexFrom_ignored {w cs : List Char} {kind : TokenKind} {rounds : Nat}
    (hrounds : (w ++ cs).length ≤ rounds) (h : longestMatch? (w ++ cs) = some (kind, w.length))
    (hkind : kind.isIgnored = true) (p : Pos) (offset : Nat) :
    let later := lexFrom rounds (p.after w) (offset + w.length) cs
    (lexFrom rounds p offset (w ++ cs)).visible = later.visible ∧
      (lexFrom rounds p offset (w ++ cs)).failure? = later.failure? := by
  rw [lexFrom_of_longestMatch? hrounds h]
  refine ⟨List.filter_cons_of_neg ?_, rfl⟩
  simp [isIgnored_reserve, hkind]

/-- One blank in front changes nothing but the place. -/
theorem lexFrom_blank {c : Char} {cs : List Char} {rounds : Nat} (hc : isBlank c)
    (hrounds : (c :: cs).length ≤ rounds) (p : Pos) (offset : Nat) :
    let later := lexFrom rounds (p.next c) (offset + 1) cs
    (lexFrom rounds p offset (c :: cs)).visible = later.visible ∧
      (lexFrom rounds p offset (c :: cs)).failure? = later.failure? := by
  have hcs : cs.takeWhile isBlank ++ cs.dropWhile isBlank = cs := List.takeWhile_append_dropWhile
  have hrest : ∀ d ∈ (cs.dropWhile isBlank).head?, isBlank d = false :=
    fun d hd => by simpa [Option.mem_def.mp hd] using List.head?_dropWhile_not isBlank cs
  have hblank : ∀ d ∈ cs.takeWhile isBlank, isBlank d := fun _ => List.mem_takeWhile_imp
  generalize cs.takeWhile isBlank = w at hcs hblank
  generalize cs.dropWhile isBlank = rest at hcs hrest
  subst hcs
  have hlong : IsText .blank (c :: w) :=
    .blank (List.cons_ne_nil _ _) (List.forall_mem_cons.mpr ⟨hc, hblank⟩)
  have hfirst := lexFrom_ignored hrounds (longestMatch?_blanks hlong hrest) rfl p offset
  rw [List.length_cons, Nat.add_comm w.length, ← Nat.add_assoc] at hfirst
  cases w with
  | nil => exact hfirst
  | cons d w =>
      have hsecond := lexFrom_ignored (Nat.le_of_succ_le hrounds)
        (longestMatch?_blanks (.blank (List.cons_ne_nil _ _) hblank) hrest) rfl (p.next c)
        (offset + 1)
      exact ⟨hfirst.1.trans hsecond.1.symm, hfirst.2.trans hsecond.2.symm⟩

/-- The cutting finds what is scanned. -/
theorem lexFrom_of_scans {p : Pos} {offset : Nat} {cs : List Char} {ts : List Lexeme}
    (h : Scans p offset cs ts) : ∀ {rounds : Nat}, cs.length ≤ rounds →
    (lexFrom rounds p offset cs).visible = ts ∧ (lexFrom rounds p offset cs).failure? = none := by
  induction h with
  | done => intro rounds _; cases rounds <;> exact ⟨rfl, rfl⟩
  | blank hc _ ih =>
      intro rounds hrounds
      obtain ⟨hvisible, hfailure⟩ := lexFrom_blank hc hrounds _ _
      obtain ⟨hts, hnone⟩ := ih (Nat.le_of_succ_le hrounds)
      exact ⟨hvisible.trans hts, hfailure.trans hnone⟩
  | @comment p offset w cs ts hw hend _ ih =>
      intro rounds hrounds
      obtain ⟨hvisible, hfailure⟩ :=
        lexFrom_ignored hrounds (longestMatch?_comment hw hend) rfl p offset
      obtain ⟨hts, hnone⟩ := ih ((List.suffix_append w cs).length_le.trans hrounds)
      exact ⟨hvisible.trans hts, hfailure.trans hnone⟩
  | @token p offset w cs ts k hmatch hk _ ih =>
      intro rounds hrounds
      obtain ⟨hts, hnone⟩ := ih ((List.suffix_append w cs).length_le.trans hrounds)
      rw [lexFrom_of_longestMatch? hrounds hmatch]
      refine ⟨?_, hnone⟩
      rw [Lexed.visible, List.filter_cons_of_pos (by simp [isIgnored_reserve, hk])]
      exact congrArg _ hts

/-- A match that no rule mentions is a comment or blanks. -/
theorem eq_of_isIgnored {kind : TokenKind} (h : kind.isIgnored = true) :
    kind = .comment ∨ kind = .blank := by
  cases kind with
  | comment => exact .inl rfl
  | blank => exact .inr rfl
  | _ => cases h

/-- The longest match of a comment ends where its line ends. -/
theorem eq_newline_of_comment {w rest : List Char}
    (h : longestMatch? (w ++ rest) = some (.comment, w.length)) : ∀ c ∈ rest.head?, c = '\n' := by
  obtain ⟨-, htext, hmax⟩ := longestMatch?_eq_some_iff.mp h
  obtain ⟨cs, rfl, hline⟩ := covers_of_isText htext
  intro c hc
  obtain ⟨rest, rfl⟩ := List.head?_eq_some_iff.mp hc
  by_contra hne
  have hlong : IsText .comment ('#' :: (cs ++ [c])) := .comment (by
    intro d hd
    rcases List.mem_append.mp hd with hd | hd
    · exact hline d hd
    · exact List.mem_singleton.mp hd ▸ hne)
  have hle := hmax .comment _ hlong ⟨rest, by simp⟩
  simp only [List.length_cons, List.length_append, List.length_nil] at hle
  omega

/-- What the cutting finds is scanned. -/
theorem scans_lexFrom {rounds : Nat} {p : Pos} {offset : Nat} {cs : List Char}
    (hrounds : cs.length ≤ rounds) (h : (lexFrom rounds p offset cs).failure? = none) :
    Scans p offset cs (lexFrom rounds p offset cs).visible := by
  induction hn : cs.length using Nat.strongRecOn generalizing p offset cs with
  | _ n ih =>
    subst hn
    cases hmatch : longestMatch? cs with
    | none =>
        cases cs with
        | nil => cases rounds <;> exact .done
        | cons c cs =>
            obtain ⟨rounds, rfl⟩ := Nat.exists_eq_succ_of_ne_zero (Nat.ne_of_gt
              (Nat.lt_of_lt_of_le (Nat.succ_pos _) hrounds))
            rw [lexFrom, hmatch] at h
            cases h
    | some found =>
        obtain ⟨kind, n⟩ := found
        have hsplit := List.take_append_drop n cs
        have hlen := length_take_of_longestMatch? hmatch
        generalize cs.take n = w at hsplit hlen
        generalize cs.drop n = rest at hsplit
        subst hsplit hlen
        obtain ⟨-, htext, hmax⟩ := longestMatch?_eq_some_iff.mp hmatch
        have hpos := List.length_pos_iff.mpr htext.ne_nil
        have hrest : rest.length ≤ rounds := (List.suffix_append w rest).length_le.trans hrounds
        have hlater : (lexFrom rounds (p.after w) (offset + w.length) rest).failure? = none := by
          rwa [lexFrom_of_longestMatch? hrounds hmatch] at h
        have hscans := ih rest.length (by rw [List.length_append]; omega) hrest hlater rfl
        by_cases hk : kind.isIgnored
        · rw [(lexFrom_ignored hrounds hmatch hk p offset).1]
          rcases eq_of_isIgnored hk with rfl | rfl
          · exact .comment htext (eq_newline_of_comment hmatch) hscans
          · exact .blanks (covers_of_isText htext).2 hscans
        · have hk : kind.isIgnored = false := by simpa using hk
          rw [lexFrom_of_longestMatch? hrounds hmatch, Lexed.visible,
            List.filter_cons_of_pos (by simp [isIgnored_reserve, hk])]
          exact .token hmatch hk hscans

/-! ## Moving a text -/

/-- The position some lines further down. -/
def Pos.down (lines : Nat) (p : Pos) : Pos := ⟨p.line + lines, p.column⟩

theorem Pos.next_down (lines : Nat) (p : Pos) (c : Char) :
    (p.down lines).next c = (p.next c).down lines := by
  unfold Pos.next Pos.down
  split
  · rw [Nat.add_right_comm]
  · rfl

theorem Pos.after_down (lines : Nat) : ∀ (cs : List Char) (p : Pos),
    (p.down lines).after cs = (p.after cs).down lines
  | [], _ => rfl
  | c :: cs, p => by
      show ((p.down lines).next c).after cs = ((p.next c).after cs).down lines
      rw [Pos.next_down, after_down lines cs]

/-- A lexeme some lines and characters further down. -/
def Lexeme.down (lines chars : Nat) (l : Lexeme) : Lexeme :=
  { l with pos := l.pos.down lines, start := l.start + chars }

/-- Further down a text is scanned in the same way. -/
theorem Scans.down {p : Pos} {offset : Nat} {cs : List Char} {ts : List Lexeme}
    (h : Scans p offset cs ts) (lines chars : Nat) :
    Scans (p.down lines) (offset + chars) cs (ts.map (·.down lines chars)) := by
  induction h with
  | done => exact .done
  | blank hc _ ih =>
      refine .blank hc ?_
      rwa [Pos.next_down, Nat.add_right_comm]
  | comment hw hend _ ih =>
      refine .comment hw hend ?_
      rwa [Pos.after_down, Nat.add_right_comm]
  | token hmatch hk _ ih =>
      refine .token hmatch hk ?_
      rwa [Pos.after_down, Nat.add_right_comm]

/-! ## One text after the other -/

theorem clear_cons {c : Char} (hc : isGap c) (cs : List Char) : Clear (c :: cs) := by
  rintro d ⟨⟩
  exact hc

theorem near_append (cs ds : List Char) : Near cs (cs ++ '\n' :: ds) := by
  cases cs with
  | nil => exact .inl (clear_cons rfl _)
  | cons c cs =>
      refine .inr ⟨c, cs, cs ++ '\n' :: ds, rfl, rfl, ?_⟩
      cases cs with
      | nil => exact .inl (clear_cons rfl _)
      | cons d cs => exact .inr rfl

/-- After a newline another text is scanned as if it stood alone. -/
theorem Scans.append {p : Pos} {offset : Nat} {cs : List Char} {ts : List Lexeme}
    (h : Scans p offset cs ts) {ds : List Char} {us : List Lexeme}
    (hds : Scans ((p.after cs).next '\n') (offset + cs.length + 1) ds us) :
    Scans p offset (cs ++ '\n' :: ds) (ts ++ us) := by
  induction h with
  | done => exact .blank rfl hds
  | @blank p offset c cs ts hc _ ih =>
      refine .blank hc (ih ?_)
      rwa [Nat.add_assoc offset, Nat.add_comm 1]
  | @comment p offset w cs ts hw hend _ ih =>
      rw [List.append_assoc]
      refine .comment hw ?_ (ih ?_)
      · cases cs with
        | nil => simp
        | cons c cs => exact hend
      · rwa [← Pos.after_append, Nat.add_assoc offset, ← List.length_append]
  | @token p offset w cs ts k hmatch hk _ ih =>
      rw [List.append_assoc]
      refine .token (longestMatch?_ahead hk hmatch (near_append cs ds)) hk (ih ?_)
      rwa [← Pos.after_append, Nat.add_assoc offset, ← List.length_append]

end Tern
