import Tern.Proofs.Precedence

/-!
# Splitting at the loosest operator

The tree of a row of operands and operators can be said from the outside in: the last of the
loosest operators stands at its root, and what is before and after it are rows of their own
(`splitTree`). The parser joins from the inside out, one level after the other. Until the level of
the root is reached the joining goes on before and after its operator as if this were not there
(`joinLevels_append`), and then all that is left is joined from the left, the last operator last
(`joinLevel_concat`); so the two make the same tree (`joinExpression_eq`).
-/

namespace Tern

/-! ## The reference -/

section CutLast

variable {α : Type} (p : α → Bool)

/-- Cuts a list at the last element of a kind. -/
def cutLast? : List α → Option (List α × α × List α)
  | [] => none
  | a :: rest =>
    match cutLast? rest with
    | some (before, b, after) => some (a :: before, b, after)
    | none => if p a then some ([], a, rest) else none

variable {p}

theorem cutLast?_eq_none : ∀ {as : List α}, cutLast? p as = none → ∀ a ∈ as, p a = false
  | [], _ => by simp
  | a :: rest, h => by
      unfold cutLast? at h
      split at h
      · cases h
      · next hrest =>
        split at h
        · cases h
        · next ha =>
          exact List.forall_mem_cons.mpr ⟨Bool.eq_false_iff.mpr ha, cutLast?_eq_none hrest⟩

theorem cutLast?_eq_some {before after : List α} {b : α} : ∀ {as : List α},
    cutLast? p as = some (before, b, after) →
    as = before ++ b :: after ∧ p b = true ∧ ∀ a ∈ after, p a = false
  | a :: rest, h => by
      unfold cutLast? at h
      split at h
      · next hrest =>
        cases h
        obtain ⟨rfl, hb, hafter⟩ := cutLast?_eq_some hrest
        exact ⟨rfl, hb, hafter⟩
      · next hrest =>
        split at h
        · next ha =>
          cases h
          exact ⟨rfl, ha, cutLast?_eq_none hrest⟩
        · cases h

end CutLast

/-- The levels of operators, the loosest first. -/
def loosestFirst : List TokenKind := [.orOp, .andOp, .compareOp, .dots, .addOp, .mulOp]

/-- Cuts a row, operators with the operands after them, at the last of its loosest operators. -/
def cutLoosest? (row : List (Lexeme × Lexeme)) :
    Option (List (Lexeme × Lexeme) × (Lexeme × Lexeme) × List (Lexeme × Lexeme)) :=
  loosestFirst.findSome? fun level => cutLast? (·.1.kind == level) row

/-- What an operator between two trees makes, at the position of the first. -/
def operatorNode (op : Lexeme) (left right : Node) (pos : Pos) : Node :=
  if op.kind = .dots then .tree .range [left, right] (some pos)
  else .tree .binop [left, op.part.node, right] (some pos)

theorem cutLoosest?_eq_none {row : List (Lexeme × Lexeme)} (h : cutLoosest? row = none)
    {q : Lexeme × Lexeme} (hq : q ∈ row) : q.1.kind ∉ operatorLevels := by
  intro hlevel
  have hmem : q.1.kind ∈ loosestFirst := List.mem_reverse.mp hlevel
  exact ne_of_beq_false (cutLast?_eq_none (List.findSome?_eq_none_iff.mp h _ hmem) q hq) rfl

section CutLoosest

variable {row before after : List (Lexeme × Lexeme)} {op right : Lexeme}
  (h : cutLoosest? row = some (before, (op, right), after))

include h

theorem append_of_cutLoosest? : row = before ++ (op, right) :: after := by
  obtain ⟨level, -, hcut⟩ := List.exists_of_findSome?_eq_some h
  exact (cutLast?_eq_some hcut).1

/-- Before the operator that a row is cut at there is nothing looser, and after it all is
tighter. -/
theorem exists_levels_of_cutLoosest? (hrow : ∀ q ∈ row, q.1.kind ∈ operatorLevels) :
    ∃ tight loose, operatorLevels = tight ++ op.kind :: loose ∧
      (∀ q ∈ before, q.1.kind ∈ tight ++ [op.kind]) ∧ ∀ q ∈ after, q.1.kind ∈ tight := by
  obtain ⟨loose, level, tight, hlevels, hcut, hnone⟩ := List.findSome?_eq_some_iff.mp h
  obtain ⟨rfl, hop, hafter⟩ := cutLast?_eq_some hcut
  obtain rfl : op.kind = level := eq_of_beq hop
  have hreverse : operatorLevels = tight.reverse ++ op.kind :: loose.reverse := by
    have hlevels' : operatorLevels = loosestFirst.reverse := rfl
    rw [hlevels', hlevels]
    simp
  have htight : ∀ q ∈ before ++ (op, right) :: after, q.1.kind ∈ tight.reverse ++ [op.kind] := by
    intro q hq
    have hmem := hrow q hq
    rw [hreverse, List.append_cons] at hmem
    refine (List.mem_append.mp hmem).resolve_right fun hlooser => ?_
    exact ne_of_beq_false (cutLast?_eq_none (hnone _ (List.mem_reverse.mp hlooser)) q hq) rfl
  obtain ⟨hbefore, hrest⟩ := List.forall_mem_append.mp htight
  refine ⟨tight.reverse, loose.reverse, hreverse, hbefore, fun q hq => ?_⟩
  refine (List.mem_append.mp (hrest q (List.mem_cons_of_mem _ hq))).resolve_right fun hsame => ?_
  exact ne_of_beq_false (hafter q hq) (List.mem_singleton.mp hsame)

end CutLoosest

/-- The tree of a row: its loosest operator, the last one of several, with the trees of what is
before and after it. -/
def splitTree (first : Lexeme) (row : List (Lexeme × Lexeme)) : Node :=
  match _h : cutLoosest? row with
  | none => first.part.node
  | some (before, (op, right), after) =>
    operatorNode op (splitTree first before) (splitTree right after) first.pos
termination_by row.length
decreasing_by
  all_goals
    rw [append_of_cutLoosest? _h, List.length_append, List.length_cons]
    omega

/-! ## Joining before and after an operator -/

section Join

variable {level : TokenKind} {levels : List TokenKind} {p right op : Part}
  {before after row : List (Part × Part)}

theorem joinLevel_cons (h : op.isOperator level = true) :
    joinLevel level p ((op, right) :: row) = joinLevel level (p.join op right) row := by
  rw [joinLevel, if_pos h]

theorem joinLevel_cons_of_not (h : op.isOperator level = false) :
    joinLevel level p ((op, right) :: row) =
      (p, (op, (joinLevel level right row).1) :: (joinLevel level right row).2) := by
  rw [joinLevel, if_neg (Bool.eq_false_iff.mp h)]

/-- An operator of another level keeps what is before it from what is after it. -/
theorem joinLevel_append (hop : op.isOperator level = false) :
    joinLevel level p (before ++ (op, right) :: after) =
      ((joinLevel level p before).1, (joinLevel level p before).2 ++
        (op, (joinLevel level right after).1) :: (joinLevel level right after).2) := by
  induction before generalizing p with
  | nil => exact joinLevel_cons_of_not hop
  | cons q before ih =>
    obtain ⟨op', right'⟩ := q
    rw [List.cons_append]
    cases hop' : op'.isOperator level with
    | true => rw [joinLevel_cons hop', joinLevel_cons hop', ih]
    | false =>
      rw [joinLevel_cons_of_not hop', joinLevel_cons_of_not hop', ih]
      rfl

theorem joinLevels_append (hop : ∀ level ∈ levels, op.isOperator level = false) :
    joinLevels levels (p, before ++ (op, right) :: after) =
      ((joinLevels levels (p, before)).1, (joinLevels levels (p, before)).2 ++
        (op, (joinLevels levels (right, after)).1) :: (joinLevels levels (right, after)).2) := by
  induction levels generalizing p before right after with
  | nil => rfl
  | cons level levels ih =>
    obtain ⟨hlevel, hlevels⟩ := List.forall_mem_cons.mp hop
    have hstep (row : Part × List (Part × Part)) :
      joinLevels (level :: levels) row = joinLevels levels (joinLevel level row.1 row.2) := rfl
    rw [hstep, hstep, hstep, joinLevel_append hlevel]
    exact ih hlevels

/-- Joining a level leaves operators of other levels. -/
theorem joinLevel_left : ∀ {row : List (Part × Part)} {p : Part} {q : Part × Part},
    q ∈ (joinLevel level p row).2 → (∃ q' ∈ row, q'.1 = q.1) ∧ q.1.isOperator level = false
  | [], _, _, h => by cases h
  | (op, right) :: row, p, q, h => by
      cases hop : op.isOperator level with
      | true =>
        rw [joinLevel_cons hop] at h
        exact (joinLevel_left h).imp_left fun ⟨q', hq', hsame⟩ =>
          ⟨q', List.mem_cons_of_mem _ hq', hsame⟩
      | false =>
        rw [joinLevel_cons_of_not hop] at h
        rcases List.mem_cons.mp h with rfl | h
        · exact ⟨⟨_, List.mem_cons_self .., rfl⟩, hop⟩
        · exact (joinLevel_left h).imp_left fun ⟨q', hq', hsame⟩ =>
            ⟨q', List.mem_cons_of_mem _ hq', hsame⟩

theorem joinLevels_left : ∀ {levels : List TokenKind} {row : List (Part × Part)} {p : Part}
    {q : Part × Part}, q ∈ (joinLevels levels (p, row)).2 →
    (∃ q' ∈ row, q'.1 = q.1) ∧ ∀ level ∈ levels, q.1.isOperator level = false
  | [], _, _, q, h => ⟨⟨q, h, rfl⟩, by simp⟩
  | level :: levels, row, p, q, h => by
      have hrest : q ∈ (joinLevels levels (joinLevel level p row)).2 := h
      obtain ⟨⟨q', hq', hsame⟩, hlevels⟩ := joinLevels_left hrest
      obtain ⟨hmem, hlevel⟩ := joinLevel_left hq'
      rw [hsame] at hmem hlevel
      exact ⟨hmem, List.forall_mem_cons.mpr ⟨hlevel, hlevels⟩⟩

/-- A row whose operators are all of some levels is a single part once these are joined. -/
theorem joinLevels_eq_nil (h : ∀ q ∈ row, ∃ level ∈ levels, q.1.isOperator level = true) :
    (joinLevels levels (p, row)).2 = [] := by
  refine List.eq_nil_iff_forall_not_mem.mpr fun q hq => ?_
  obtain ⟨⟨q', hq', hsame⟩, hnone⟩ := joinLevels_left hq
  obtain ⟨level, hlevel, hop⟩ := h q' hq'
  rw [hsame, hnone level hlevel] at hop
  cases hop

theorem joinLevels_nil : joinLevels levels (p, []) = (p, []) := by
  induction levels with
  | nil => rfl
  | cons level levels ih => exact ih

/-- The looser levels make no difference to such a row. -/
theorem joinExpression_of_levels {loose : List TokenKind}
    (hlevels : operatorLevels = levels ++ loose)
    (h : ∀ q ∈ row, ∃ level ∈ levels, q.1.isOperator level = true) :
    joinExpression p row = (joinLevels levels (p, row)).1 := by
  have hsingle : joinLevels levels (p, row) = ((joinLevels levels (p, row)).1, []) :=
    Prod.ext rfl (joinLevels_eq_nil h)
  show (joinLevels operatorLevels (p, row)).1 = _
  rw [hlevels, joinLevels, List.foldl_append]
  show (joinLevels loose (joinLevels levels (p, row))).1 = _
  rw [hsingle, joinLevels_nil]

/-- A row of one level is joined from the left, the last operator last. -/
theorem joinLevel_concat (h : ∀ q ∈ row, q.1.isOperator level = true)
    (hop : op.isOperator level = true) :
    joinLevel level p (row ++ [(op, right)]) = ((joinLevel level p row).1.join op right, []) := by
  induction row generalizing p with
  | nil => exact joinLevel_cons hop
  | cons q row ih =>
    obtain ⟨hq, hrow⟩ := List.forall_mem_cons.mp h
    rw [List.cons_append, joinLevel_cons hq, joinLevel_cons hq]
    exact ih hrow

/-- The last operator of a level, with tighter ones after it, is joined last. -/
theorem joinLevels_concat {tight : List TokenKind}
    (hbefore : ∀ q ∈ before, ∃ l ∈ tight ++ [level], q.1.isOperator l = true)
    (hop : op.isOperator level = true) (htight : ∀ l ∈ tight, op.isOperator l = false)
    (hafter : ∀ q ∈ after, ∃ l ∈ tight, q.1.isOperator l = true) :
    (joinLevels (tight ++ [level]) (p, before ++ (op, right) :: after)).1 =
      (joinLevels (tight ++ [level]) (p, before)).1.join op
        (joinLevels tight (right, after)).1 := by
  have hlast (row : Part × List (Part × Part)) : joinLevels (tight ++ [level]) row =
      joinLevel level (joinLevels tight row).1 (joinLevels tight row).2 := by
    rw [joinLevels, List.foldl_append]
    rfl
  have hleft : ∀ q ∈ (joinLevels tight (p, before)).2, q.1.isOperator level = true := by
    intro q hq
    obtain ⟨⟨q', hq', hsame⟩, hnone⟩ := joinLevels_left hq
    obtain ⟨l, hl, hopl⟩ := hbefore q' hq'
    rw [hsame] at hopl
    rcases List.mem_append.mp hl with hl | hl
    · rw [hnone l hl] at hopl
      cases hopl
    · exact List.mem_singleton.mp hl ▸ hopl
  rw [hlast, hlast, joinLevels_append htight, joinLevels_eq_nil hafter, joinLevel_concat hleft hop]

end Join

/-! ## The two trees -/

/-- The operators and operands of a row as the parser has them. -/
def rowParts (row : List (Lexeme × Lexeme)) : List (Part × Part) :=
  row.map fun q => (q.1.part, q.2.part)

theorem join_part (op : Lexeme) (left right : Node) (pos : Pos) (outer : Option Pos) :
    Part.join ⟨left, some pos⟩ op.part ⟨right, outer⟩ =
      ⟨operatorNode op left right pos, some pos⟩ := by
  unfold Part.join operatorNode
  by_cases h : op.kind = .dots
  · simp [h]
  · simp [h]

theorem exists_isOperator {row : List (Lexeme × Lexeme)} {levels : List TokenKind}
    (h : ∀ q ∈ row, q.1.kind ∈ levels) :
    ∀ q ∈ rowParts row, ∃ level ∈ levels, q.1.isOperator level = true := by
  intro q hq
  obtain ⟨q', hq', rfl⟩ := List.mem_map.mp hq
  exact ⟨q'.1.kind, h q' hq', beq_self_eq_true _⟩

/-- The parser's tree of a row is the one that splitting makes. -/
theorem joinExpression_eq {first : Lexeme} {row : List (Lexeme × Lexeme)}
    (h : ∀ q ∈ row, q.1.kind ∈ operatorLevels) :
    joinExpression first.part (rowParts row) = ⟨splitTree first row, some first.pos⟩ := by
  fun_induction splitTree first row with
  | case1 first row hnone =>
    have hrow : row = [] :=
      List.eq_nil_iff_forall_not_mem.mpr fun q hq => cutLoosest?_eq_none hnone hq (h q hq)
    rw [hrow]
    rfl
  | case2 first row before op right after hcut ihbefore ihafter =>
    obtain ⟨tight, loose, hlevels, hbefore, hafter⟩ := exists_levels_of_cutLoosest? hcut h
    obtain rfl := append_of_cutLoosest? hcut
    have hlevels' : operatorLevels = (tight ++ [op.kind]) ++ loose :=
      hlevels.trans (List.append_cons ..)
    have hall : ∀ q ∈ before ++ (op, right) :: after, q.1.kind ∈ tight ++ [op.kind] :=
      List.forall_mem_append.mpr ⟨hbefore, List.forall_mem_cons.mpr
        ⟨List.mem_concat_self, fun q hq => List.mem_append_left _ (hafter q hq)⟩⟩
    have htight : ∀ l ∈ tight, op.part.isOperator l = false := by
      have hnodup : operatorLevels.Nodup := by decide
      rw [hlevels] at hnodup
      intro l hl
      exact beq_eq_false_iff_ne.mpr
        ((List.nodup_append.mp hnodup).2.2 l hl _ (List.mem_cons_self ..)).symm
    have hsplit : rowParts (before ++ (op, right) :: after) =
        rowParts before ++ (op.part, right.part) :: rowParts after := List.map_append ..
    obtain ⟨hkinds, hkinds'⟩ := List.forall_mem_append.mp h
    rw [joinExpression_of_levels hlevels' (exists_isOperator hall), hsplit,
      joinLevels_concat (exists_isOperator hbefore) (beq_self_eq_true _) htight
        (exists_isOperator hafter),
      ← joinExpression_of_levels hlevels' (exists_isOperator hbefore),
      ← joinExpression_of_levels hlevels (exists_isOperator hafter), ihbefore hkinds,
      ihafter (List.forall_mem_cons.mp hkinds').2, join_part]

end Tern
