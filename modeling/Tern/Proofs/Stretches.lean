import Tern.Proofs.Precedence

/-!
# Operators that may stand in one row

The grammar reads a row of operators from state to state, and refuses a comparison and a range where
there has been one. Said of the row as a whole: it is cut into stretches at `||` and `&&`, and none
of them may hold two comparisons, and into shorter ones at the comparisons as well, none of which
may hold two ranges (`allows_iff`). A state is what the stretches under way have had so far, so
that the induction is over the row with the first stretch begun (`allows_iff_spare`).
-/

namespace Tern

/-- The operators may come one after the other, from a state on. -/
inductive Allows : RowState → List TokenKind → Prop
  | nil (s : RowState) : Allows s []
  | cons {s s' : RowState} {op : TokenKind} {ops : List TokenKind} (hop : Opens s op s')
      (h : Allows s' ops) : Allows s (op :: ops)

/-- The longest stretches of a row without the looser operators. -/
def stretches (looser ops : List TokenKind) : List (List TokenKind) :=
  ops.splitOnP (looser.contains ·)

/-- Two comparisons in a stretch without `||` and `&&`, or two ranges in one that has no comparisons
either. -/
def Clashes (ops : List TokenKind) : Prop :=
  (∃ stretch ∈ stretches [.orOp, .andOp] ops, 2 ≤ stretch.count .compareOp) ∨
    ∃ stretch ∈ stretches [.orOp, .andOp, .compareOp] ops, 2 ≤ stretch.count .dots

/-! ## Stretches -/

/-- No stretch holds two of a kind, where the first may have had one already. -/
def Spare (used : Bool) (op : TokenKind) : List (List TokenKind) → Prop
  | [] => True
  | stretch :: rest => stretch.count op + used.toNat < 2 ∧ ∀ stretch ∈ rest, stretch.count op < 2

theorem spare_false {op : TokenKind} {all : List (List TokenKind)} :
    Spare false op all ↔ ¬∃ stretch ∈ all, 2 ≤ stretch.count op := by
  cases all with
  | nil => simp [Spare]
  | cons stretch rest => simp [Spare]

section Spare

variable {used : Bool} {o op : TokenKind} {looser ops : List TokenKind}

/-- A looser operator begins a new stretch. -/
theorem spare_cons_looser (h : o ∈ looser) :
    Spare used op (stretches looser (o :: ops)) ↔ Spare false op (stretches looser ops) := by
  rw [stretches, List.splitOnP_cons_eq_if_modifyHead, if_pos (List.contains_iff_mem.mpr h),
    spare_false, stretches]
  cases used <;> simp [Spare]

/-- The stretch under way goes on. -/
theorem spare_cons (h : o ∉ looser) : Spare used op (stretches looser (o :: ops)) ↔
    if o = op then used = false ∧ Spare true op (stretches looser ops)
    else Spare used op (stretches looser ops) := by
  obtain ⟨stretch, rest, hcut⟩ :=
    List.exists_cons_of_ne_nil (List.splitOnP_ne_nil (looser.contains ·) ops)
  rw [stretches, List.splitOnP_cons_eq_if_modifyHead, if_neg (mt List.contains_iff_mem.mp h),
    stretches, hcut, List.modifyHead_cons, Spare, List.count_cons]
  by_cases ho : o = op
  · cases used <;> simp [ho, Spare]
  · simp [ho, Spare]

end Spare

/-! ## States -/

/-- Where an operator leads in each state. -/
def RowState.next? (s : RowState) : TokenKind → Option RowState
  | .mulOp | .addOp => some s
  | .dots => if s.2 then none else some (s.1, true)
  | .compareOp => if s.1 then none else some (true, false)
  | .andOp | .orOp => some (false, false)
  | _ => none

theorem opens_iff {op : TokenKind} (h : op ∈ operatorLevels) : ∀ {s s' : RowState},
    Opens s op s' ↔ s.next? op = some s' := by
  revert op
  decide

theorem allows_cons_iff {s : RowState} {op : TokenKind} {ops : List TokenKind} :
    Allows s (op :: ops) ↔ ∃ s', Opens s op s' ∧ Allows s' ops :=
  ⟨fun | .cons hop h => ⟨_, hop, h⟩, fun ⟨_, hop, h⟩ => .cons hop h⟩

theorem allows_iff_spare : ∀ {ops : List TokenKind} (compared ranged : Bool),
    (∀ op ∈ ops, op ∈ operatorLevels) →
    (Allows (compared, ranged) ops ↔ Spare compared .compareOp (stretches [.orOp, .andOp] ops) ∧
      Spare ranged .dots (stretches [.orOp, .andOp, .compareOp] ops))
  | [], compared, ranged, _ => by
      cases compared <;> cases ranged <;> simp [Spare, stretches, Allows.nil]
  | op :: ops, compared, ranged, h => by
      obtain ⟨hop, hops⟩ := List.forall_mem_cons.mp h
      have ih (compared ranged : Bool) := allows_iff_spare compared ranged hops
      rw [allows_cons_iff]
      simp only [opens_iff hop]
      simp only [operatorLevels, List.mem_cons, List.not_mem_nil, or_false] at hop
      rcases hop with rfl | rfl | rfl | rfl | rfl | rfl
      · simp [RowState.next?, spare_cons, ih]
      · simp [RowState.next?, spare_cons, ih]
      · cases ranged <;> simp [RowState.next?, spare_cons, ih]
      · cases compared <;> simp [RowState.next?, spare_cons, spare_cons_looser, ih]
      · simp [RowState.next?, spare_cons_looser, ih]
      · simp [RowState.next?, spare_cons_looser, ih]

/-- The grammar reads the rows in which no stretch clashes. -/
theorem allows_iff {ops : List TokenKind} (h : ∀ op ∈ ops, op ∈ operatorLevels) :
    Allows (false, false) ops ↔ ¬Clashes ops := by
  rw [allows_iff_spare _ _ h, Clashes, not_or, spare_false, spare_false]

end Tern
