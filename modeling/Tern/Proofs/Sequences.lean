import Tern.Proofs.Layout
import Tern.Proofs.Neighbours
import Tern.Proofs.Prefixes
import Tern.Proofs.Splitting
import Tern.Proofs.Stretches

/-!
# Rows of numbers and names

A program that is a row of numbers and names with operators between them. Of such tokens nothing
else can be read than that row: every other production waits for a token that is not there
(`mem_kinds_of_derives`), so that a derivation goes through the states of the row
(`allows_of_program`), and a row that goes through them has one (`admits_program`). Words with
blanks between them are the tokens of the text (`scans_of_written`). Hence a row that is written
so is refused exactly if it has a stretch that clashes, and else its tree is the one that splitting
it at the loosest operator makes (`parse_row`).
-/

namespace Tern

open Text TokenKind

/-! ## Rows -/

/-- Operators and the operands after them, in their order. -/
def inOrder {α : Type} : List (α × α) → List α
  | [] => []
  | (op, operand) :: row => op :: operand :: inOrder row

def operandKinds : List TokenKind := [number, ident]

/-- Operators, each with a number or a name after it. -/
def IsRow (row : List (Lexeme × Lexeme)) : Prop :=
  ∀ q ∈ row, q.1.kind ∈ operatorLevels ∧ q.2.kind ∈ operandKinds

/-- The kinds of token in a row. -/
def rowKinds : List TokenKind := operandKinds ++ operatorLevels

variable {first : Lexeme} {row : List (Lexeme × Lexeme)} {fs fs' : List Frame}
  {ts : List Lexeme}

theorem mem_rowKinds : ∀ {row : List (Lexeme × Lexeme)}, IsRow row →
    ∀ k ∈ kinds (inOrder row), k ∈ rowKinds
  | [], _, k, hk => by cases hk
  | q :: row, h, k, hk => by
      obtain ⟨⟨hop, hoperand⟩, hrow⟩ := List.forall_mem_cons.mp h
      rcases List.mem_cons.mp hk with rfl | hk
      · exact List.mem_append_right _ hop
      rcases List.mem_cons.mp hk with rfl | hk
      · exact List.mem_append_left _ hoperand
      · exact mem_rowKinds hrow k hk

/-! ## Only the row can be read -/

/-- What goals wait for is among the tokens. -/
theorem mem_kinds_of_derives {gs : List Goal} (h : Derives gs fs ts fs') :
    ∀ k ∈ gs.filterMap Goal.kind?, k ∈ kinds ts := by
  induction h with
  | done => exact fun k hk => by cases hk
  | keep t _ ih | drop t _ ih =>
    intro k hk
    rcases List.mem_cons.mp hk with rfl | hk
    · exact List.mem_cons_self ..
    · exact List.mem_cons_of_mem _ (ih k hk)
  | enter _ ih => exact ih
  | leave _ _ ih => exact ih
  | @expand g gs _ _ _ p hp _ ih =>
    intro k hk
    refine ih k ?_
    rw [List.filterMap_append]
    refine List.mem_append_right _ ?_
    cases g with
    | keep | drop => cases hp
    | _ => exact hk

/-- A production waits for a token of a kind that no row has. -/
def Foreign (p : List Goal) : Prop := ∃ k ∈ p.filterMap Goal.kind?, k ∉ rowKinds

instance : DecidablePred Foreign := fun _ => inferInstanceAs (Decidable (∃ k ∈ _, _))

theorem not_foreign {p gs : List Goal} (h : Derives (p ++ gs) fs ts fs')
    (hts : ∀ k ∈ kinds ts, k ∈ rowKinds) : ¬Foreign p := by
  rintro ⟨k, hk, hforeign⟩
  refine hforeign (hts k (mem_kinds_of_derives h k ?_))
  rw [List.filterMap_append]
  exact List.mem_append_left _ hk

theorem statements_productions : ∀ p ∈ Goal.statements.productions, ¬Foreign p →
    p = [] ∨ ∃ k ∈ operandKinds,
      p = [.enter, .keep k, .chain false false, .leave .expression, .afterSimple] := by
  decide

theorem operand_productions : ∀ p ∈ Goal.operand.productions, ¬Foreign p →
    ∃ k ∈ operandKinds, p = [.keep k] := by
  decide

theorem afterSimple_productions : ∀ p ∈ Goal.afterSimple.productions, ¬Foreign p → p = [] := by
  decide

/-- What is left to be read after a row that is a program. -/
def afterRow : List Goal := [.leave .expression, .afterSimple, .leave (.node .block)]

theorem eq_nil_of_afterRow (h : Derives afterRow fs ts fs')
    (hts : ∀ k ∈ kinds ts, k ∈ rowKinds) : ts = [] := by
  cases h with
  | expand hp => cases hp
  | leave _ h =>
    cases h with
    | expand hp h =>
      obtain rfl := afterSimple_productions _ hp (not_foreign h hts)
      cases h with
      | expand hp => cases hp
      | leave _ h =>
        cases h
        rfl

theorem allows_of_derives : ∀ {row : List (Lexeme × Lexeme)} {s : RowState} {fs fs' : List Frame},
    IsRow row → Derives (.chain s.1 s.2 :: afterRow) fs (inOrder row) fs' →
    Allows s (row.map (·.1.kind))
  | [], s, _, _, _, _ => .nil s
  | (op, a) :: row, s, fs, fs', hrow, h => by
      have hkinds := mem_rowKinds hrow
      cases h with
      | expand hp h =>
        rcases List.mem_cons.mp hp with rfl | hp
        · cases eq_nil_of_afterRow h hkinds
        · obtain ⟨⟨k, next⟩, hop, rfl⟩ := List.mem_map.mp hp
          obtain ⟨-, compared, ranged, rfl⟩ := mem_operators hop
          cases h with
          | expand hp => cases hp
          | keep _ h =>
            have hopens : Opens s op.kind (compared, ranged) := hop
            cases h with
            | expand hp h =>
              obtain ⟨k', -, rfl⟩ := operand_productions _ hp (not_foreign h fun k hk =>
                hkinds k (List.mem_cons_of_mem _ hk))
              exact .cons hopens (allows_of_derives (List.forall_mem_cons.mp hrow).2 h.of_keep)

theorem allows_of_program (hfirst : first.kind ∈ operandKinds) (hrow : IsRow row)
    (h : Derives Goal.program fs (first :: inOrder row) fs') :
    Allows (false, false) (row.map (·.1.kind)) := by
  have hkinds : ∀ k ∈ kinds (first :: inOrder row), k ∈ rowKinds :=
    List.forall_mem_cons.mpr ⟨List.mem_append_left _ hfirst, mem_rowKinds hrow⟩
  cases h with
  | expand hp => cases hp
  | enter h =>
    cases h with
    | expand hp h =>
      obtain rfl | ⟨k, -, rfl⟩ := statements_productions _ hp (not_foreign h hkinds)
      · cases h with
        | expand hp => cases hp
        | leave _ h => cases h
      · cases h with
        | expand hp => cases hp
        | enter h => exact allows_of_derives hrow h.of_keep

/-! ## The row can be read -/

theorem start_of_mem {t : Lexeme} (h : t.kind ∈ operandKinds) : Start [t] t.part := by
  have hall : ∀ k ∈ operandKinds, [Goal.keep k] ∈ Goal.operands := by decide
  exact ⟨[.keep t.kind], hall _ h, admits_keep rfl⟩

theorem chain_of_allows : ∀ {row : List (Lexeme × Lexeme)} {s : RowState}, IsRow row →
    Allows s (row.map (·.1.kind)) → Chain operatorLevels Start s (inOrder row) (rowParts row)
  | [], s, _, _ => .nil s
  | (op, a) :: row, s, hrow, h => by
      obtain ⟨⟨hop, ha⟩, hrest⟩ := List.forall_mem_cons.mp hrow
      cases h with
      | cons hopens h => exact .cons op hop hopens (start_of_mem ha) (chain_of_allows hrest h)

theorem admits_program (hfirst : first.kind ∈ operandKinds) (hrow : IsRow row)
    (h : Allows (false, false) (row.map (·.1.kind))) :
    Admits Goal.program (first :: inOrder row)
      (.one ⟨.tree .block [splitTree first row] (some first.pos), some first.pos⟩) := by
  have hjoin : joinExpression first.part (rowParts row) = ⟨splitTree first row, some first.pos⟩ :=
    joinExpression_eq fun q hq => (hrow q hq).1
  have hclimbs : Climbs operatorLevels Start (first :: inOrder row)
      ⟨splitTree first row, some first.pos⟩ :=
    climbs_iff.mpr ⟨[first], inOrder row, first.part, rowParts row, rfl, start_of_mem hfirst,
      chain_of_allows hrow h, hjoin⟩
  have hexpression : Derivable .expression (first :: inOrder row)
      (.one ⟨splitTree first row, some first.pos⟩) := ⟨_, rfl, rfl, hclimbs⟩
  have hend : Admits [.afterSimple] [] .nothing := admits_nil.expand (List.mem_cons_self ..)
  have hstatements := derivable_simple_of_expression hexpression [] .nothing hend
  rw [List.append_nil, Yield.append_nothing] at hstatements
  exact hstatements.closed (.node .block)

/-! ## Programs -/

/-- What the parser's goals yield for the tokens of a text is its tree, unless a name stands before
an empty pair of braces. -/
theorem parse_of_admits {source : String} (hlex : (lex source).failure? = none)
    (hpairs : NoEmptyPairs (kinds (tokens source))) {n : Node} {outer : Option Pos}
    (h : Admits Goal.program (tokens source) (.one ⟨n, outer⟩)) : parse source = .ok n := by
  obtain ⟨tree, htree⟩ := exists_parse_of_isProgram (isProgram_of_derives hlex (h [.empty]))
  obtain ⟨m, hm, rfl⟩ := isTreeOf_of_parse hlex htree
  obtain ⟨outer', hd⟩ := derives_of_isTreeOf hm [.empty]
  rw [node_eq_of_derives hpairs (h [.empty]) hd]
  exact htree

theorem noEmptyPairs_of_row {ks : List TokenKind} (h : ∀ k ∈ ks, k ∈ rowKinds) :
    NoEmptyPairs ks := by
  rintro before after rfl
  have hbrace : braceOpen ∉ rowKinds := by decide
  exact absurd (h braceOpen (by simp [emptyPairs])) hbrace

section Program

variable {source : String} (hlex : (lex source).failure? = none)
  (htokens : tokens source = first :: inOrder row) (hfirst : first.kind ∈ operandKinds)
  (hrow : IsRow row)

include hlex htokens hfirst hrow

theorem parse_of_allows (h : Allows (false, false) (row.map (·.1.kind))) :
    parse source = .ok (.tree .block [splitTree first row] (some first.pos)) := by
  refine parse_of_admits hlex ?_ (htokens ▸ admits_program hfirst hrow h)
  rw [htokens]
  exact noEmptyPairs_of_row
    (List.forall_mem_cons.mpr ⟨List.mem_append_left _ hfirst, mem_rowKinds hrow⟩)

theorem allows_of_parse {tree : Node} (h : parse source = .ok tree) :
    Allows (false, false) (row.map (·.1.kind)) := by
  obtain ⟨m, hm, -⟩ := isTreeOf_of_parse hlex h
  obtain ⟨outer, hd⟩ := derives_of_isTreeOf hm [.empty]
  exact allows_of_program hfirst hrow (htokens ▸ hd)

end Program

/-! ## Texts -/

/-- A kind of token and its text. -/
abbrev Word := TokenKind × String

/-- A number, or a name that is not reserved. -/
def IsOperandWord (w : Word) : Prop :=
  w.1 = number ∧ IsText number w.2.toList ∨
    w.1 = ident ∧ IsText ident w.2.toList ∧ keywords.lookup w.2 = none

/-- An operator between two operands. -/
def IsOperatorWord (w : Word) : Prop :=
  w.1 ∈ operatorLevels ∧ IsText w.1 w.2.toList

/-- Words in their order, with blanks between them. -/
inductive Written : List Word → List Char → Prop
  | one (w : Word) : Written [w] w.2.toList
  | cons (w : Word) {ws : List Word} {blanks cs : List Char}
      (hne : blanks ≠ []) (hblanks : ∀ c ∈ blanks, isBlank c) (h : Written ws cs) :
      Written (w :: ws) (w.2.toList ++ (blanks ++ cs))

/-- A text that some terminal covers, and that is a token of the kind. -/
def IsWord (w : Word) : Prop :=
  ∃ k ∈ terminals.map (·.1), k.isIgnored = false ∧ IsText k w.2.toList ∧ reserve k w.2 = w.1

theorem IsOperandWord.isWord {w : Word} (h : IsOperandWord w) : IsWord w := by
  obtain ⟨hk, htext⟩ | ⟨hk, htext, hname⟩ := h
  · exact ⟨number, by decide, rfl, htext, (reserve_of_ne (by decide) _).trans hk.symm⟩
  · refine ⟨ident, by decide, rfl, htext, ?_⟩
    rw [reserve, if_pos rfl, hname, hk]
    rfl

theorem IsOperandWord.mem_operandKinds {w : Word} (h : IsOperandWord w) : w.1 ∈ operandKinds := by
  obtain ⟨hk, -⟩ | ⟨hk, -⟩ := h <;> rw [hk] <;> decide

theorem IsOperatorWord.isWord {w : Word} (h : IsOperatorWord w) : IsWord w := by
  have hall : ∀ k ∈ operatorLevels,
      k ∈ terminals.map (·.1) ∧ k.isIgnored = false ∧ k ≠ ident := by decide
  obtain ⟨hterminal, hignored, hne⟩ := hall _ h.1
  exact ⟨w.1, hterminal, hignored, h.2, reserve_of_ne hne _⟩

/-- Before blanks, as at the end, a word is cut off whole. -/
theorem longestMatch?_of_isText {k : TokenKind} {w cs : List Char} (hk : k ∈ terminals.map (·.1))
    (hignored : k.isIgnored = false) (hw : IsText k w) (hcs : Clear cs) :
    longestMatch? (w ++ cs) = some (k, w.length) := by
  have hend : longestMatch? (w ++ []) = some (k, w.length) := by
    refine longestMatch?_eq_some_iff.mpr ⟨hk, hw, fun _ v _ hv => ?_⟩
    rw [List.append_nil] at hv
    exact hv.length_le
  exact longestMatch?_ahead hignored hend (.inl hcs)

theorem scans_of_written {ws : List Word} {cs : List Char} (h : Written ws cs) :
    (∀ w ∈ ws, IsWord w) → ∀ (p : Pos) (offset : Nat),
      ∃ ts, Scans p offset cs ts ∧ ts.map Lexeme.word = ws := by
  induction h with
  | one w =>
    intro hws p offset
    obtain ⟨k, hk, hignored, htext, hreserve⟩ := hws w (List.mem_singleton_self w)
    have hmatch : longestMatch? (w.2.toList ++ []) = some (k, w.2.toList.length) :=
      longestMatch?_of_isText hk hignored htext (by rintro c ⟨⟩)
    have hscans : Scans p offset (w.2.toList ++ []) _ := .token hmatch hignored .done
    rw [List.append_nil] at hscans
    refine ⟨_, hscans, ?_⟩
    rw [List.map_singleton, Lexeme.word, String.ofList_toList, hreserve]
  | @cons w ws blanks cs hne hblanks _ ih =>
    intro hws p offset
    obtain ⟨⟨k, hk, hignored, htext, hreserve⟩, hws⟩ := List.forall_mem_cons.mp hws
    have hclear : Clear (blanks ++ cs) := by
      obtain ⟨c, blanks, rfl⟩ := List.exists_cons_of_ne_nil hne
      exact clear_cons (by simp [isGap, hblanks c (List.mem_cons_self ..)]) _
    obtain ⟨ts, hscans, hwords⟩ := ih hws _ _
    refine ⟨_, .token (longestMatch?_of_isText hk hignored htext hclear) hignored
      (.blanks hblanks hscans), ?_⟩
    rw [List.map_cons, Lexeme.word, String.ofList_toList, hreserve, hwords]

/-- Tokens that are the words of a row are a row. -/
theorem exists_row_of_words : ∀ {row : List (Word × Word)} {ts : List Lexeme},
    ts.map Lexeme.word = inOrder row →
    ∃ seq, ts = inOrder seq ∧ seq.map (fun q => (q.1.word, q.2.word)) = row
  | [], ts, h => ⟨[], List.map_eq_nil_iff.mp h, rfl⟩
  | (op, a) :: row, ts, h => by
      obtain ⟨t, us, rfl, rfl, hus⟩ := List.map_eq_cons_iff.mp h
      obtain ⟨u, vs, rfl, rfl, hvs⟩ := List.map_eq_cons_iff.mp hus
      obtain ⟨seq, rfl, hseq⟩ := exists_row_of_words hvs
      exact ⟨(t, u) :: seq, rfl, congrArg (_ :: ·) hseq⟩

theorem isWord_of_mem_inOrder {row : List (Word × Word)}
    (h : ∀ q ∈ row, IsOperatorWord q.1 ∧ IsOperandWord q.2) : ∀ w ∈ inOrder row, IsWord w := by
  induction row with
  | nil => exact fun w hw => by cases hw
  | cons q row ih =>
    obtain ⟨⟨hop, hoperand⟩, hrow⟩ := List.forall_mem_cons.mp h
    exact List.forall_mem_cons.mpr ⟨hop.isWord, List.forall_mem_cons.mpr ⟨hoperand.isWord, ih hrow⟩⟩

/-- A row of numbers and names, written with blanks between its words, is refused exactly if some
stretch of it without `||` and `&&` has two comparisons or one that has no comparisons either has
two ranges. Else its tree is that of the last of its loosest operators, between the trees of what
is before and after it. -/
theorem parse_row {a : Word} {row : List (Word × Word)} (ha : IsOperandWord a)
    (hrow : ∀ q ∈ row, IsOperatorWord q.1 ∧ IsOperandWord q.2) {source : String}
    (hsource : Written (a :: inOrder row) source.toList) :
    ∃ first seq, tokens source = first :: inOrder seq ∧ first.word = a ∧
      seq.map (fun q => (q.1.word, q.2.word)) = row ∧
      ((∃ e, parse source = .error e) ↔ Clashes (row.map (·.1.1))) ∧
      (¬Clashes (row.map (·.1.1)) →
        parse source = .ok (.tree .block [splitTree first seq] (some first.pos))) := by
  have hwords : ∀ w ∈ a :: inOrder row, IsWord w :=
    List.forall_mem_cons.mpr ⟨ha.isWord, isWord_of_mem_inOrder hrow⟩
  obtain ⟨ts, hscans, hts⟩ := scans_of_written hsource hwords .start 0
  obtain ⟨htokens, hlex⟩ := tokens_of_scans hscans
  obtain ⟨first, ts, rfl, rfl, hrest⟩ := List.map_eq_cons_iff.mp hts
  obtain ⟨seq, rfl, rfl⟩ := exists_row_of_words hrest
  have hfirst : first.kind ∈ operandKinds := ha.mem_operandKinds
  have hseq : IsRow seq := fun q hq =>
    (hrow _ (List.mem_map_of_mem hq)).imp And.left IsOperandWord.mem_operandKinds
  have hops : (seq.map fun q => (q.1.word, q.2.word)).map (·.1.1) = seq.map (·.1.kind) :=
    List.map_map
  have hallows : Allows (false, false) (seq.map (·.1.kind)) ↔ ¬Clashes (seq.map (·.1.kind)) := by
    refine allows_iff fun op hop => ?_
    obtain ⟨q, hq, rfl⟩ := List.mem_map.mp hop
    exact (hseq q hq).1
  refine ⟨first, seq, htokens, rfl, rfl, ?_, ?_⟩
  · rw [hops]
    constructor
    · rintro ⟨e, he⟩
      by_contra hclash
      rw [parse_of_allows hlex htokens hfirst hseq (hallows.mpr hclash)] at he
      cases he
    · intro hclash
      cases hparse : parse source with
      | error e => exact ⟨e, rfl⟩
      | ok tree =>
        exact absurd hclash (hallows.mp (allows_of_parse hlex htokens hfirst hseq hparse))
  · rw [hops]
    exact fun hclash => parse_of_allows hlex htokens hfirst hseq (hallows.mpr hclash)

/-- A comparison of a range is a row that is read, and a range of a range is one that is refused. -/
theorem parse_row_range :
    (∃ first seq, tokens "1 .. n < n" = first :: inOrder seq ∧
      parse "1 .. n < n" = .ok (.tree .block [splitTree first seq] (some first.pos))) ∧
    ∃ e, parse "1 .. n .. n" = .error e := by
  have hone : IsOperandWord (number, "1") :=
    .inl ⟨rfl, .number (.whole (by decide) (List.forall_mem_singleton.mpr (by decide)))⟩
  have hname : IsOperandWord (ident, "n") :=
    .inr ⟨rfl, @IsText.ident 'n' [] (by decide) (by simp), by decide⟩
  have hdots : IsOperatorWord (dots, "..") :=
    ⟨by decide, @IsText.fixed dots [".."] ".." (by decide) (by decide)⟩
  have hless : IsOperatorWord (compareOp, "<") :=
    ⟨by decide, @IsText.fixed compareOp ["==", "!=", "<=", ">=", "<", ">"] "<" (by decide)
      (by decide)⟩
  have hspace (w : Word) {ws : List Word} {cs : List Char} (h : Written ws cs) :
      Written (w :: ws) (w.2.toList ++ ([' '] ++ cs)) :=
    .cons w (by simp) (List.forall_mem_singleton.mpr (by decide)) h
  have hcompared : Written
      ((number, "1") :: inOrder [((dots, ".."), (ident, "n")), ((compareOp, "<"), (ident, "n"))])
      "1 .. n < n".toList := hspace _ (hspace _ (hspace _ (hspace _ (.one _))))
  have hranged : Written
      ((number, "1") :: inOrder [((dots, ".."), (ident, "n")), ((dots, ".."), (ident, "n"))])
      "1 .. n .. n".toList := hspace _ (hspace _ (hspace _ (hspace _ (.one _))))
  constructor
  · obtain ⟨first, seq, htokens, -, -, -, hparse⟩ :=
      parse_row hone (by simp [hname, hdots, hless]) hcompared
    exact ⟨first, seq, htokens, hparse (by unfold Clashes stretches; decide)⟩
  · obtain ⟨-, -, -, -, -, hparse, -⟩ := parse_row hone (by simp [hname, hdots]) hranged
    exact hparse.mpr (by unfold Clashes stretches; decide)

end Tern
