import Tern.Proofs.Brackets
import Tern.Proofs.Lookahead
import Tern.Proofs.Prefixes
import Tern.Session.Command

/-!
# Submitting programs

Whether a draft is still open and whether it is a command are decided by counting brackets and by
looking at one character, not by the grammar. Of a program both decisions are right
(`submit_of_parse`): what the rules read closes the brackets that it opens, and lexemes that no
rule mentions are no brackets; and a slash in front, after any blanks, is cut into an operator
(`Scans.slash`), which begins no program.
-/

namespace Tern

open Text

/-! ## Brackets -/

theorem nesting_of_isIgnored {k : TokenKind} (h : k.isIgnored = true) : k.nesting = 0 := by
  rcases eq_of_isIgnored h with rfl | rfl <;> rfl

/-- Blanks and comments do not count. -/
theorem nesting_filter_isIgnored (ls : List Lexeme) :
    nesting (ls.filter (!·.kind.isIgnored)) = nesting ls := by
  induction ls with
  | nil => rfl
  | cons l ls ih =>
      cases hl : l.kind.isIgnored with
      | true =>
          rw [List.filter_cons_of_neg (by simp [hl]), ih, nesting, nesting_of_isIgnored hl,
            Int.zero_add]
      | false => rw [List.filter_cons_of_pos (by simp [hl]), nesting, nesting, ih]

theorem nesting_of_depth? {ts : List Lexeme} : ∀ {d d' : Nat},
    depth? false d ts = some d' → d + nesting ts = d' := by
  induction ts with
  | nil =>
      intro d d' h
      obtain rfl := Option.some.inj h
      exact Int.add_zero _
  | cons t ts ih =>
      intro d d' h
      obtain ⟨e, hfirst, hrest⟩ := Option.bind_eq_some_iff.mp h
      have hstep : (d : Int) + t.kind.nesting = e := by
        simpa [TokenKind.depth?, Int.mem_toNat?] using hfirst
      rw [nesting, ← Int.add_assoc, hstep]
      exact ih hrest

theorem nesting_of_isTreeOf {n : Node} {ts : List Lexeme} (h : IsTreeOf n ts) : nesting ts = 0 := by
  obtain ⟨_, hread⟩ := h
  simpa using nesting_of_depth? (closes_of_reads hread).closed

theorem IsProgram.openDepth {source : String} (h : IsProgram source) : openDepth source = 0 := by
  obtain ⟨hlex, n, hn⟩ := h
  have hnesting : nesting (lex source).lexemes = 0 :=
    (nesting_filter_isIgnored _).symm.trans (nesting_of_isTreeOf hn)
  simp only [Tern.openDepth, hlex, hnesting]
  rfl

/-! ## Slashes -/

/-- The operators that are spelled with a slash in front. -/
def slashKinds : List TokenKind := [.mulOp, .inPlaceOp]

theorem mem_slashKinds_of_isText {k : TokenKind} {w : List Char} (h : IsText k w)
    (hw : w.head? = some '/') : k ∈ slashKinds := by
  have hfixed : ∀ q ∈ fixedTexts, ∀ text ∈ q.2, text.toList.head? = some '/' →
      q.1 ∈ slashKinds := by decide +kernel
  have hreserved : ∀ q ∈ keywords, q.1.toList.head? ≠ some '/' := by decide +kernel
  cases h with
  | number h =>
      obtain ⟨d, rest, rfl, hd⟩ := h.first
      cases hw
      cases hd
  | string | comment => cases hw
  | ident hc =>
      cases hw
      cases hc
  | blank hne hall =>
      have := hall '/' (List.mem_of_mem_head? hw)
      cases this
  | fixed hk ht => exact hfixed _ hk _ ht hw
  | reserved hk => exact absurd hw (hreserved _ hk)

/-- A slash in front is scanned as an operator. -/
theorem Scans.slash {p : Pos} {offset : Nat} {cs : List Char} {ts : List Lexeme}
    (h : Scans p offset cs ts) (hcs : (trimStart cs).head? = some '/') :
    ∃ t rest, ts = t :: rest ∧ t.kind ∈ slashKinds := by
  induction h with
  | done => cases hcs
  | blank hc _ ih => exact ih (by rwa [trimStart, List.dropWhile_cons_of_pos hc] at hcs)
  | comment hw =>
      obtain ⟨w, rfl, -⟩ := covers_of_isText hw
      cases hcs
  | @token _ _ w cs ts k hmatch hk =>
      have htext : IsText k w := by simpa using isText_of_longestMatch? hmatch
      obtain ⟨c, w, rfl⟩ := List.exists_cons_of_ne_nil htext.ne_nil
      have hc := isBlank_of_longestMatch? hmatch hk
      rw [trimStart, List.cons_append, List.dropWhile_cons_of_neg (by simp [hc])] at hcs
      have hmem := mem_slashKinds_of_isText htext hcs
      have hreserve : reserve k (String.ofList (c :: w)) = k := by
        rw [reserve, if_neg]
        rintro rfl
        exact absurd hmem (by decide)
      exact ⟨_, _, rfl, hreserve.symm ▸ hmem⟩

theorem take?_eq_none {r : Reading} {t : Lexeme} (h : ∀ q ∈ firstToken? r.goals, q.1 ≠ t.kind) :
    r.take? t = none := by
  unfold firstToken? at h
  unfold Reading.take?
  split
  · next hgoals => exact if_neg (h _ (by rw [hgoals]; rfl))
  · next hgoals => exact if_neg (h _ (by rw [hgoals]; rfl))
  · rfl

/-- No program begins with an operator. -/
theorem takeToken_firstReadings {t : Lexeme} (ht : t.kind ∈ slashKinds) :
    takeToken firstReadings t = [] := by
  have hfirst : ∀ r ∈ firstReadings, ∀ q ∈ firstToken? r.goals, q.1 ∉ slashKinds := by
    decide +kernel
  have hnone : firstReadings.filterMap (·.take? t) = [] :=
    List.filterMap_eq_nil_iff.mpr fun r hr =>
      take?_eq_none fun q hq hkind => hfirst r hr q hq (hkind ▸ ht)
  rw [takeToken, hnone]
  rfl

theorem head?_trimStart_of_parse {source : String} {tree : Node} (h : parse source = .ok tree) :
    (trimStart source.toList).head? ≠ some '/' := by
  intro hslash
  obtain ⟨hlex, later, hread, -⟩ := parse_eq_ok_iff.mp h
  obtain ⟨t, rest, htokens, ht⟩ := (scans_tokens hlex).slash hslash
  rw [htokens, readTokens, takeToken_firstReadings ht] at hread
  cases hread

/-- What is left after trimming both ends is the beginning of what is left after trimming one. -/
theorem trimChars_prefix (cs : List Char) : trimChars cs <+: trimStart cs := by
  rw [← List.reverse_suffix, trimChars, List.reverse_reverse]
  exact List.dropWhile_suffix _

theorem read?_eq_none {source : String} (h : (trimStart source.toList).head? ≠ some '/') :
    Command.read? source = none := by
  unfold Command.read?
  split
  · next rest hrest =>
    obtain ⟨more, hmore⟩ := trimChars_prefix source.toList
    rw [hrest] at hmore
    exact absurd (congrArg List.head? hmore.symm) h
  · rfl

/-! ## Programs -/

/-- A text that is a program has nothing open and is no command, so that Enter submits it. -/
theorem submit_of_parse {source : String} {tree : Node} (h : parse source = .ok tree) :
    openDepth source = 0 ∧ Key.enter.edits source = [.submit] ∧
      startsCommand source = false ∧ Command.read? source = none := by
  have hdepth := (isProgram_of_parse h).openDepth
  have hslash := head?_trimStart_of_parse h
  refine ⟨hdepth, ?_, decide_eq_false hslash, read?_eq_none hslash⟩
  exact if_pos (Or.inr hdepth)

set_option maxRecDepth 2000 in
/-- Brackets in strings and in comments do not count, nor does a slash in a comment. -/
theorem submit_of_parse_brackets :
    parse " # /reset (\n[\")\"];" = .ok (.tree .block [.tree .list
        [.token .string "\")\"" (some ⟨2, 2⟩)] (some ⟨2, 1⟩)] (some ⟨2, 1⟩)) ∧
      openDepth " # /reset (\n[\")\"];" = 0 ∧ Command.read? " # /reset (\n[\")\"];" = none := by
  have hparse : parse " # /reset (\n[\")\"];" = .ok (.tree .block [.tree .list
      [.token .string "\")\"" (some ⟨2, 2⟩)] (some ⟨2, 1⟩)] (some ⟨2, 1⟩)) := by rfl
  have h := submit_of_parse hparse
  exact ⟨hparse, h.1, h.2.2.2⟩

end Tern
