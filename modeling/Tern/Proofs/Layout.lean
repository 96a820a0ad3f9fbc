import Tern.Proofs.Bare
import Tern.Proofs.Spellings

/-!
# Layout

To put blanks or comments between the lexemes of a text changes nothing of what it does
(`run_spaced`). The new text has the same tokens (`tokens_spaced`): each lexeme is still the
longest match at its start, because what comes after it now is near to what came before, and a
comment that takes in what is put after it still ends with its line. Hence it has the same tree
apart from positions, and these influence nothing but the positions of errors.
-/

namespace Tern

open Text

/-! ## Texts with other layout -/

/-- A blank, or a comment with the newline that ends it. -/
inductive Filler : List Char → Prop
  | blank {c : Char} (hc : isBlank c) : Filler [c]
  | comment {w : List Char} (hw : IsText .comment w) : Filler (w ++ ['\n'])

/-- Texts of lexemes, with any number of fillers between them, before the first and after the
last. -/
inductive Spaced : List Lexeme → List Char → Prop
  | done : Spaced [] []
  | filler {w cs : List Char} {ls : List Lexeme} (hw : Filler w) (h : Spaced ls cs) :
      Spaced ls (w ++ cs)
  | lexeme {l : Lexeme} {ls : List Lexeme} {cs : List Char} (h : Spaced ls cs) :
      Spaced (l :: ls) (l.text.toList ++ cs)

/-- Lexemes that are cut off one after the other from the text that they make up. -/
inductive Cut : List Lexeme → Prop
  | done : Cut []
  | lexeme {l : Lexeme} {ls : List Lexeme} {k : TokenKind}
      (hmatch : longestMatch? (l.text.toList ++ texts ls) = some (k, l.text.toList.length))
      (hkind : l.kind = reserve k l.text) (h : Cut ls) : Cut (l :: ls)

theorem cut_lexFrom {rounds : Nat} {p : Pos} {offset : Nat} {cs : List Char}
    (hrounds : cs.length ≤ rounds) (h : (lexFrom rounds p offset cs).failure? = none) :
    Cut (lexFrom rounds p offset cs).lexemes := by
  fun_induction lexFrom rounds p offset cs with
  | case1 => exact .done
  | case2 => exact .done
  | case3 => cases h
  | case4 rounds p offset c rest kind n hmatch taken text later =>
      rename_i ih
      have htext : text.toList = (c :: rest).take n := String.toList_ofList
      have hn : ((c :: rest).take n).length = n := length_take_of_longestMatch? hmatch
      have hlen : ((c :: rest).drop n).length ≤ rounds :=
        (length_drop_of_longestMatch? hmatch).trans (Nat.le_of_succ_le_succ hrounds)
      refine .lexeme ?_ rfl (ih hlen h)
      rw [htext, hn, texts_lexFrom hlen h, List.take_append_drop]
      exact hmatch

theorem cut_lex {source : String} (h : (lex source).failure? = none) : Cut (lex source).lexemes :=
  cut_lexFrom (Nat.le_refl _) h

/-! ## What comes after a lexeme -/

theorem Filler.clear {w : List Char} (h : Filler w) (cs : List Char) : Clear (w ++ cs) := by
  cases h with
  | blank hc => exact clear_cons (by simp [isGap, hc]) cs
  | comment hw =>
      obtain ⟨w, rfl, -⟩ := covers_of_isText hw
      exact clear_cons rfl _

/-- With other layout a text keeps its first character, or does not touch what is before it. -/
theorem Spaced.clear_or_head {ls : List Lexeme} {cs : List Char} (h : Spaced ls cs)
    (hcut : Cut ls) : Clear cs ∨ (texts ls).head? = cs.head? := by
  cases h with
  | done => exact .inr rfl
  | filler hw _ => exact .inl (hw.clear _)
  | @lexeme l ls cs h =>
      cases hcut with
      | lexeme hmatch _ _ =>
          obtain ⟨c, w, hl⟩ := exists_cons_of_longestMatch? hmatch
          refine .inr ?_
          rw [texts_cons, hl]
          rfl

theorem Spaced.near {ls : List Lexeme} {cs : List Char} (h : Spaced ls cs) (hcut : Cut ls) :
    Near (texts ls) cs := by
  cases h with
  | done => exact .inl (by rintro c ⟨⟩)
  | filler hw _ => exact .inl (hw.clear _)
  | @lexeme l ls cs h =>
      cases hcut with
      | lexeme hmatch _ hcut =>
          obtain ⟨c, w, hl⟩ := exists_cons_of_longestMatch? hmatch
          refine .inr ⟨c, w ++ texts ls, w ++ cs, by simp [hl], by simp [hl], ?_⟩
          cases w with
          | nil => exact h.clear_or_head hcut
          | cons d w => exact .inr rfl

/-! ## The same tokens -/

/-- What a lexeme is, wherever it stands. -/
def Lexeme.word (l : Lexeme) : TokenKind × String := (l.kind, l.text)

/-- The tokens of a text that has been scanned are those among given lexemes. -/
def ScansAs (ls : List Lexeme) (cs : List Char) : Prop :=
  ∀ (p : Pos) (offset : Nat), ∃ ts, Scans p offset cs ts ∧
    ts.map Lexeme.word = (ls.filter (!·.kind.isIgnored)).map Lexeme.word

theorem isText_comment_append {w v : List Char} (hw : IsText .comment w)
    (hv : ∀ c ∈ v, c ≠ '\n') : IsText .comment (w ++ v) := by
  obtain ⟨w, rfl, hline⟩ := covers_of_isText hw
  refine .comment fun c hc => ?_
  rcases List.mem_append.mp hc with hc | hc
  · exact hline c hc
  · exact hv c hc

theorem ScansAs.blank {ls : List Lexeme} {c : Char} {cs : List Char} (hc : isBlank c)
    (h : ScansAs ls cs) : ScansAs ls (c :: cs) := by
  intro p offset
  obtain ⟨ts, hscans, hts⟩ := h (p.next c) (offset + 1)
  exact ⟨ts, .blank hc hscans, hts⟩

theorem ScansAs.blanks {ls : List Lexeme} {w cs : List Char} (hw : ∀ c ∈ w, isBlank c)
    (h : ScansAs ls cs) : ScansAs ls (w ++ cs) := by
  intro p offset
  obtain ⟨ts, hscans, hts⟩ := h (p.after w) (offset + w.length)
  exact ⟨ts, .blanks hw hscans, hts⟩

theorem ScansAs.comment {ls : List Lexeme} {w cs : List Char} (hw : IsText .comment w)
    (hend : ∀ c ∈ cs.head?, c = '\n') (h : ScansAs ls cs) : ScansAs ls (w ++ cs) := by
  intro p offset
  obtain ⟨ts, hscans, hts⟩ := h (p.after w) (offset + w.length)
  exact ⟨ts, .comment hw hend hscans, hts⟩

theorem ScansAs.line {ls : List Lexeme} {w cs : List Char} (hw : IsText .comment w)
    (h : ScansAs ls cs) : ScansAs ls (w ++ '\n' :: cs) :=
  (h.blank rfl).comment hw (by rintro c ⟨⟩; rfl)

theorem ScansAs.token {l : Lexeme} {ls : List Lexeme} {cs : List Char} {k : TokenKind}
    (hmatch : longestMatch? (l.text.toList ++ cs) = some (k, l.text.toList.length))
    (hkind : l.kind = reserve k l.text) (hk : k.isIgnored = false) (h : ScansAs ls cs) :
    ScansAs (l :: ls) (l.text.toList ++ cs) := by
  intro p offset
  obtain ⟨ts, hscans, hts⟩ := h (p.after l.text.toList) (offset + l.text.toList.length)
  refine ⟨_, .token hmatch hk hscans, ?_⟩
  rw [List.filter_cons_of_pos (by simp [hkind, isIgnored_reserve, hk]), List.map_cons,
    List.map_cons, hts, Lexeme.word, Lexeme.word, hkind, String.ofList_toList]

theorem ScansAs.ignored {l : Lexeme} {ls : List Lexeme} {cs : List Char} {k : TokenKind}
    (hkind : l.kind = reserve k l.text) (hk : k.isIgnored = true) (h : ScansAs ls cs) :
    ScansAs (l :: ls) cs := by
  intro p offset
  obtain ⟨ts, hscans, hts⟩ := h p offset
  refine ⟨ts, hscans, ?_⟩
  rw [List.filter_cons_of_neg (by simp [hkind, isIgnored_reserve, hk]), hts]

/-- A lexeme before a text with other layout. An open comment goes on into that text. -/
theorem ScansAs.lexeme {l : Lexeme} {ls : List Lexeme} {cs : List Char} {k : TokenKind}
    (hmatch : longestMatch? (l.text.toList ++ texts ls) = some (k, l.text.toList.length))
    (hkind : l.kind = reserve k l.text) (hnear : Near (texts ls) cs) (h : ScansAs ls cs)
    (hopen : (∀ c ∈ (texts ls).head?, c = '\n') → ∀ w, IsText .comment w →
      ScansAs ls (w ++ cs)) :
    ScansAs (l :: ls) (l.text.toList ++ cs) := by
  obtain ⟨-, htext, -⟩ := longestMatch?_eq_some_iff.mp hmatch
  by_cases hk : k.isIgnored
  · refine .ignored hkind hk ?_
    rcases eq_of_isIgnored hk with rfl | rfl
    · exact hopen (eq_newline_of_comment hmatch) _ htext
    · exact h.blanks (covers_of_isText htext).2
  · have hk : k.isIgnored = false := by simpa using hk
    exact .token (longestMatch?_ahead hk hmatch hnear) hkind hk h

/-- With other layout a text has the same tokens. Where it ended or started with a newline, it
has them after an open comment as well, since that ends before the first lexeme. -/
theorem Spaced.scansAs {ls : List Lexeme} {cs : List Char} (h : Spaced ls cs) (hcut : Cut ls) :
    ScansAs ls cs ∧ ((∀ c ∈ (texts ls).head?, c = '\n') → ∀ w, IsText .comment w →
      ScansAs ls (w ++ cs)) := by
  induction h with
  | done =>
      have hdone : ScansAs [] [] := fun _ _ => ⟨[], .done, rfl⟩
      exact ⟨hdone, fun _ w hw => hdone.comment hw (by rintro c ⟨⟩)⟩
  | @filler u cs ls hfiller _ ih =>
      obtain ⟨hafter, hopen⟩ := ih hcut
      cases hfiller with
      | @blank c hc =>
          refine ⟨hafter.blank hc, fun hhead w hw => ?_⟩
          -- A newline ends the open comment, and any other blank goes on with it.
          by_cases hnewline : c = '\n'
          · subst hnewline
            exact hafter.line hw
          · rw [← List.append_assoc]
            exact hopen hhead _ (isText_comment_append hw (by simpa using hnewline))
      | @comment v hv =>
          obtain ⟨v', rfl, hv'⟩ := covers_of_isText hv
          rw [List.append_assoc, List.singleton_append]
          refine ⟨hafter.line hv, fun _ w hw => ?_⟩
          rw [← List.append_assoc]
          refine hafter.line (isText_comment_append hw fun c hc => ?_)
          rcases List.mem_cons.mp hc with rfl | hc
          · decide
          · exact hv' c hc
  | @lexeme l ls cs h ih =>
      cases hcut with
      | lexeme hmatch hkind hcut =>
          obtain ⟨hafter, hopen⟩ := ih hcut
          have hwhole := ScansAs.lexeme hmatch hkind (h.near hcut) hafter hopen
          obtain ⟨c, w, hl⟩ := exists_cons_of_longestMatch? hmatch
          rw [hl] at hwhole ⊢
          refine ⟨hwhole, fun hhead u hu => hwhole.comment hu ?_⟩
          simpa [hl] using hhead

theorem tokens_spaced {source new : String} (hlex : (lex source).failure? = none)
    (h : Spaced (lex source).lexemes new.toList) :
    (lex new).failure? = none ∧
      (tokens new).map Lexeme.word = (tokens source).map Lexeme.word := by
  obtain ⟨ts, hscans, hts⟩ := (h.scansAs (cut_lex hlex)).1 .start 0
  obtain ⟨htokens, hnew⟩ := tokens_of_scans hscans
  exact ⟨hnew, htokens ▸ hts⟩

/-! ## The same program -/

/-- A lexeme at the start of a text. -/
def Lexeme.first (l : Lexeme) : Lexeme := { l with pos := .start }

theorem moved_of_word {ls ls' : List Lexeme} (h : ls'.map Lexeme.word = ls.map Lexeme.word) :
    List.Forall₂ (Lexeme.Moved fun _ => .start) ls' (ls.map Lexeme.first) := by
  rw [← List.forall₂_eq_eq_eq, List.forall₂_map_left_iff, List.forall₂_map_right_iff] at h
  rw [List.forall₂_map_right_iff]
  refine h.imp fun l l' hword => ?_
  obtain ⟨hkind, htext⟩ := Prod.mk.inj hword
  exact ⟨hkind.symm, htext.symm, rfl⟩

/-- Texts with the same tokens have the same tree apart from positions. -/
theorem exists_parse_of_word {source new : String} {tree : Node} (h : parse source = .ok tree)
    (hlex : (lex new).failure? = none)
    (hword : (tokens new).map Lexeme.word = (tokens source).map Lexeme.word) :
    ∃ tree', parse new = .ok tree' ∧ tree'.bare = tree.bare := by
  obtain ⟨tree', hparse, hsame⟩ :=
    exists_parse_of_moved h hlex (moved_of_word rfl) (moved_of_word hword)
  refine ⟨tree', hparse, ?_⟩
  rw [← Node.bare_relocate (fun _ => .start) tree', hsame, Node.bare_relocate]

/-- With other layout an accepted text is the same program: its tree is the same apart from
positions, and so is all that a run of it comes to. -/
theorem run_spaced {source new : String} {tree : Node} (h : parse source = .ok tree)
    (hnew : Spaced (lex source).lexemes new.toList) :
    ∃ tree', parse new = .ok tree' ∧ tree'.bare = tree.bare ∧
      ∀ e s, (run new e s).bare = (run source e s).bare := by
  obtain ⟨hlex, hword⟩ := tokens_spaced (isProgram_of_parse h).1 hnew
  obtain ⟨tree', hparse, hsame⟩ := exists_parse_of_word h hlex hword
  refine ⟨tree', hparse, hsame, fun e s => ?_⟩
  rw [bare_run hparse, bare_run h]
  exact congrArg _ (bare_evalNode turnLimit depthLimit hsame e rfl)

set_option maxRecDepth 2000 in
theorem run_spaced_sum :
    ∃ tree, parse "1 #\n+\tx" = .ok tree ∧
      tree.bare = (.tree .block [.tree .binop [.token .number "1" none, .token .addOp "+" none,
        .token .ident "x" none] none] none) ∧
      ∀ e s, (run "1 #\n+\tx" e s).bare = (run "1+x" e s).bare := by
  have h : parse "1+x" = .ok (.tree .block [.tree .binop [.token .number "1" (some ⟨1, 1⟩),
    .token .addOp "+" (some ⟨1, 2⟩), .token .ident "x" (some ⟨1, 3⟩)] (some ⟨1, 1⟩)]
    (some ⟨1, 1⟩)) := by rfl
  have hnew : Spaced (lex "1+x").lexemes "1 #\n+\tx".toList := by
    show Spaced [⟨.number, "1", ⟨1, 1⟩, 0⟩, ⟨.addOp, "+", ⟨1, 2⟩, 1⟩, ⟨.ident, "x", ⟨1, 3⟩, 2⟩]
      ("1".toList ++ ([' '] ++ ((['#'] ++ ['\n']) ++ ("+".toList ++ (['\t'] ++
        ("x".toList ++ []))))))
    have hcomment : Filler (['#'] ++ ['\n']) := .comment (.comment (List.forall_mem_nil _))
    exact .lexeme (.filler (.blank rfl) (.filler hcomment
      (.lexeme (.filler (.blank rfl) (.lexeme .done)))))
  exact run_spaced h hnew

end Tern
