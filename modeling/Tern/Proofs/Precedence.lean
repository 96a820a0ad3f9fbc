import Mathlib.Data.Fintype.Prod
import Mathlib.Logic.Relation
import Tern.Proofs.Rules

/-!
# Precedence

An expression is read as a flat row of operands and operators and joined afterwards, one level
of operators at a time. The same trees come from rules that know one level each, where the
operands of a level are the expressions of the next tighter one. A row says by its state which
operators may still come, so that a comparison or a range is not followed by another of its kind.
Joining one level of a row leaves a row of the looser levels (`chain_joinLevel`), and every such
row comes from one with that level in it (`exists_chain`); the levels follow by induction
(`climbs_iff`). Nothing is assumed of the operands.
-/

namespace Tern

/-- What some phrase reads as a single part. -/
abbrev Operand := List Lexeme → Part → Prop

/-- Whether there has been a comparison, and a range since. -/
abbrev RowState := Bool × Bool

/-- The operator may come in a state of the row, and leads to another. -/
def Opens (s : RowState) (op : TokenKind) (s' : RowState) : Prop :=
  (op, Goal.chain s'.1 s'.2) ∈ Goal.operators s.1 s.2

instance (s : RowState) (op : TokenKind) (s' : RowState) : Decidable (Opens s op s') :=
  inferInstanceAs (Decidable (_ ∈ _))

def IsOpen (level : TokenKind) (s : RowState) : Bool := decide (∃ s', Opens s level s')

/-- Operators of some levels, each with an operand, from a state on. -/
inductive Chain (levels : List TokenKind) (A : Operand) :
    RowState → List Lexeme → List (Part × Part) → Prop
  | nil (s : RowState) : Chain levels A s [] []
  | cons {s s' : RowState} {ts us : List Lexeme} {operand : Part} {row : List (Part × Part)}
      (op : Lexeme) (hlevel : op.kind ∈ levels) (hop : Opens s op.kind s') (ho : A ts operand)
      (h : Chain levels A s' us row) :
      Chain levels A s (op :: (ts ++ us)) ((op.part, operand) :: row)

/-- Operands that one level joins from the left, with whether it may join one more. -/
inductive Joined (again : Bool) (level : TokenKind) (A : Operand) : Bool → Operand
  | operand {ts : List Lexeme} {p : Part} (h : A ts p) : Joined again level A true ts p
  | join {ts us : List Lexeme} {left right : Part} (op : Lexeme) (hop : op.kind = level)
      (hl : Joined again level A true ts left) (hr : A us right) :
      Joined again level A again (ts ++ op :: us) (left.join op.part right)

/-- Ranges and comparisons do not associate. -/
def associates (level : TokenKind) : Bool := level ≠ .dots ∧ level ≠ .compareOp

/-- The expressions of a level, from those of the next tighter one. -/
def AtLevel (A : Operand) (level : TokenKind) : Operand := fun ts p =>
  ∃ further, Joined (associates level) level A further ts p

/-- The expressions of some levels, the tightest first. -/
def Climbs (levels : List TokenKind) (A : Operand) : Operand := levels.foldl AtLevel A

def joinLevels (levels : List TokenKind) (row : Part × List (Part × Part)) :
    Part × List (Part × Part) := levels.foldl (fun row level => joinLevel level row.1 row.2) row

/-! ## Levels and states -/

/-- How a level and the looser ones change the state of a row. -/
structure LooserLevels (level : TokenKind) (looser : List TokenKind) : Prop where
  ne : ∀ op ∈ looser, op ≠ level
  isOpen_start : IsOpen level (false, false)
  isOpen_again : ∀ s s', Opens s level s' → IsOpen level s' = associates level
  isOpen_looser : ∀ op ∈ looser, ∀ s s', Opens s op s' → IsOpen level s'
  /-- For the looser levels an operator of this one makes no difference. -/
  unseen : ∀ op ∈ looser, ∀ s s₁ s', Opens s level s₁ → (Opens s op s' ↔ Opens s₁ op s')

def Ordered : List TokenKind → Prop
  | [] => True
  | level :: looser => LooserLevels level looser ∧ Ordered looser

theorem ordered_operatorLevels : Ordered operatorLevels := by
  refine ⟨?_, ?_, ?_, ?_, ?_, ?_, trivial⟩ <;> constructor <;> decide +kernel

section Level

variable {level : TokenKind} {looser : List TokenKind} {A : Operand} {s : RowState}

theorem isOpen_of_opens {s' : RowState} (h : Opens s level s') : IsOpen level s = true :=
  decide_eq_true ⟨s', h⟩

abbrev Reaches (level : TokenKind) : RowState → RowState → Prop :=
  Relation.ReflTransGen fun s s' => Opens s level s'

theorem opens_of_reaches (hl : LooserLevels level looser) {op : TokenKind} (hop : op ∈ looser)
    {s₁ s' : RowState} (hr : Reaches level s s₁) (h : Opens s op s') : Opens s₁ op s' := by
  induction hr with
  | refl => exact h
  | tail _ hstep ih => exact (hl.unseen op hop _ _ s' hstep).mp ih

theorem chain_of_unseen (hl : LooserLevels level looser) {s₁ : RowState} {ts : List Lexeme}
    {row : List (Part × Part)} (hs : Opens s level s₁) (h : Chain looser A s₁ ts row) :
    Chain looser A s ts row := by
  cases h with
  | nil => exact .nil s
  | cons op hlevel hop ho h => exact .cons op hlevel ((hl.unseen _ hlevel _ _ _ hs).mpr hop) ho h

@[simp] theorem isOperator_part (op : Lexeme) :
    op.part.isOperator level = (op.kind == level) := rfl

/-- Joining a level leaves a row of the looser levels, with expressions of the level for
operands. -/
theorem chain_joinLevel (hl : LooserLevels level looser) {us : List Lexeme}
    {row : List (Part × Part)} (h : Chain (level :: looser) A s us row) : ∀ {ts : List Lexeme}
    {p : Part}, Joined (associates level) level A (IsOpen level s) ts p →
    ∃ ts₁ ts₂, ts ++ us = ts₁ ++ ts₂ ∧ AtLevel A level ts₁ (joinLevel level p row).1 ∧
      Chain looser (AtLevel A level) s ts₂ (joinLevel level p row).2 := by
  induction h with
  | nil s => exact fun hp => ⟨_, [], rfl, ⟨_, hp⟩, .nil s⟩
  | @cons s s' ts₀ us operand row op hlevel hop ho _ ih =>
      intro ts p hp
      by_cases hk : op.kind = level
      · rw [hk] at hop
        rw [isOpen_of_opens hop] at hp
        have hjoin : Joined (associates level) level A (IsOpen level s') (ts ++ op :: ts₀)
            (p.join op.part operand) := by
          rw [hl.isOpen_again _ _ hop]
          exact .join op hk hp ho
        obtain ⟨ts₁, ts₂, hts, hfirst, hrest⟩ := ih hjoin
        simp only [joinLevel, isOperator_part, hk, beq_self_eq_true, if_true]
        refine ⟨ts₁, ts₂, ?_, hfirst, chain_of_unseen hl hop hrest⟩
        rw [← hts]
        simp
      · have hlooser := (List.mem_cons.mp hlevel).resolve_left hk
        have hright : Joined (associates level) level A (IsOpen level s') ts₀ operand := by
          rw [hl.isOpen_looser _ hlooser _ _ hop]
          exact .operand ho
        obtain ⟨ts₁, ts₂, hts, hfirst, hrest⟩ := ih hright
        simp only [joinLevel, isOperator_part, beq_eq_false_iff_ne.mpr hk, Bool.false_eq_true,
          if_false]
        rw [hts]
        exact ⟨ts, _, rfl, ⟨_, hp⟩, .cons op hlooser hop hfirst hrest⟩

/-- The operands that a level has joined are apart in some row. -/
theorem exists_chain_of_joined (hl : LooserLevels level looser) (hs : IsOpen level s = true)
    {further : Bool} {ts : List Lexeme} {p : Part}
    (h : Joined (associates level) level A further ts p) : ∀ {us : List Lexeme}
    {row : List (Part × Part)},
    (∀ s₁, Reaches level s s₁ → IsOpen level s₁ = further →
      Chain (level :: looser) A s₁ us row) →
    ∃ ts₁ ts₂ x row₁, ts ++ us = ts₁ ++ ts₂ ∧ A ts₁ x ∧
      Chain (level :: looser) A s ts₂ row₁ ∧ joinLevel level x row₁ = joinLevel level p row := by
  induction h with
  | operand h => exact fun hrow => ⟨_, _, _, _, rfl, h, hrow s .refl hs, rfl⟩
  | @join ts vs left right op hop _ hr ih =>
      intro us row hrow
      -- the operator may come in every state that is reached before it and still open
      have hstep : ∀ s₁, Reaches level s s₁ → IsOpen level s₁ = true →
          Chain (level :: looser) A s₁ (op :: (vs ++ us)) ((op.part, right) :: row) := by
        intro s₁ hreach hopen
        obtain ⟨s₂, h₂⟩ := of_decide_eq_true hopen
        have hlater := hrow s₂ (hreach.tail h₂) (hl.isOpen_again _ _ h₂)
        exact .cons op (hop ▸ List.mem_cons_self ..) (hop ▸ h₂) hr hlater
      obtain ⟨ts₁, ts₂, x, row₁, hts, hx, hchain, hjoin⟩ := ih hstep
      refine ⟨ts₁, ts₂, x, row₁, ?_, hx, hchain, ?_⟩
      · rw [← hts]
        simp
      · rw [hjoin, joinLevel]
        simp [hop]

/-- Every row of the looser levels is what joining the level leaves of some row. -/
theorem exists_chain (hl : LooserLevels level looser) {us : List Lexeme}
    {row : List (Part × Part)} (h : Chain looser (AtLevel A level) s us row) :
    ∀ {ts : List Lexeme} {p : Part}, IsOpen level s = true → AtLevel A level ts p →
    ∃ ts₁ ts₂ x row₁, ts ++ us = ts₁ ++ ts₂ ∧ A ts₁ x ∧
      Chain (level :: looser) A s ts₂ row₁ ∧ joinLevel level x row₁ = (p, row) := by
  induction h with
  | nil s =>
      rintro ts p hs ⟨further, hp⟩
      exact exists_chain_of_joined hl hs hp fun s₁ _ _ => .nil s₁
  | @cons s s' ts₀ us operand row op hlevel hop ho _ ih =>
      rintro ts p hs ⟨further, hp⟩
      obtain ⟨vs₁, vs₂, x, row', hvs, hx, hchain, hjoin⟩ :=
        ih (hl.isOpen_looser _ hlevel _ _ hop) ho
      have hstep : ∀ s₁, Reaches level s s₁ → IsOpen level s₁ = further →
          Chain (level :: looser) A s₁ (op :: (vs₁ ++ vs₂)) ((op.part, x) :: row') :=
        fun s₁ hreach _ => .cons op (List.mem_cons_of_mem _ hlevel)
          (opens_of_reaches hl hlevel hreach hop) hx hchain
      obtain ⟨ts₁, ts₂, x₁, row₁, hts, hx₁, hchain₁, hjoin₁⟩ :=
        exists_chain_of_joined hl hs hp hstep
      refine ⟨ts₁, ts₂, x₁, row₁, ?_, hx₁, hchain₁, ?_⟩
      · rw [hvs, hts]
      · rw [hjoin₁, joinLevel]
        simp [hl.ne _ hlevel, hjoin]

end Level

/-! ## All levels -/

theorem climbs_of_chain : ∀ {levels : List TokenKind} {A : Operand} {ts us : List Lexeme}
    {p : Part} {row : List (Part × Part)}, Ordered levels → A ts p →
    Chain levels A (false, false) us row →
    Climbs levels A (ts ++ us) (joinLevels levels (p, row)).1
  | [], A, ts, us, p, row, _, hp, h => by
      cases h with
      | nil =>
        rw [List.append_nil]
        exact hp
      | cons op hlevel => cases hlevel
  | level :: looser, A, ts, us, p, row, ⟨hl, hlooser⟩, hp, h => by
      have hjoined : Joined (associates level) level A (IsOpen level (false, false)) ts p := by
        rw [hl.isOpen_start]
        exact .operand hp
      obtain ⟨ts₁, ts₂, hts, hfirst, hrest⟩ := chain_joinLevel hl h hjoined
      have hclimbs := climbs_of_chain hlooser hfirst hrest
      rw [hts]
      exact hclimbs

theorem chain_of_climbs : ∀ {levels : List TokenKind} {A : Operand} {ts : List Lexeme} {p : Part},
    Ordered levels → Climbs levels A ts p →
    ∃ ts₁ ts₂ x row, ts = ts₁ ++ ts₂ ∧ A ts₁ x ∧ Chain levels A (false, false) ts₂ row ∧
      joinLevels levels (x, row) = (p, [])
  | [], A, ts, p, _, h => ⟨ts, [], p, [], (List.append_nil ts).symm, h, .nil _, rfl⟩
  | level :: looser, A, ts, p, ⟨hl, hlooser⟩, h => by
      obtain ⟨us₁, us₂, x, row, rfl, hx, hchain, hjoin⟩ := chain_of_climbs hlooser h
      obtain ⟨ts₁, ts₂, x₁, row₁, hts, hx₁, hchain₁, hjoin₁⟩ :=
        exists_chain hl hchain hl.isOpen_start hx
      refine ⟨ts₁, ts₂, x₁, row₁, hts, hx₁, hchain₁, ?_⟩
      rw [joinLevels, List.foldl_cons, hjoin₁]
      exact hjoin

/-- The rules of precedence read the rows that are legal, and make of them what joining the
levels makes. -/
theorem climbs_iff {A : Operand} {ts : List Lexeme} {p : Part} :
    Climbs operatorLevels A ts p ↔ ∃ ts₁ ts₂ x row, ts = ts₁ ++ ts₂ ∧ A ts₁ x ∧
      Chain operatorLevels A (false, false) ts₂ row ∧ joinExpression x row = p := by
  constructor
  · intro h
    obtain ⟨ts₁, ts₂, x, row, hts, hx, hchain, hjoin⟩ := chain_of_climbs ordered_operatorLevels h
    exact ⟨ts₁, ts₂, x, row, hts, hx, hchain, congrArg Prod.fst hjoin⟩
  · rintro ⟨ts₁, ts₂, x, row, rfl, hx, hchain, rfl⟩
    exact climbs_of_chain ordered_operatorLevels hx hchain

/-! ## The rules of the levels -/

open Nonterminal Phrase in
/-- For each level the rule of its operands, its operators, and its rule. -/
def ladder : List (Nonterminal × TokenKind × Nonterminal) :=
  [ (atom, .mulOp, product), (product, .addOp, sum), (sum, .dots, range),
    (range, .compareOp, comparison), (comparison, .andOp, conjunction),
    (conjunction, .orOp, disjunction) ]

/-- The dots of a range are no part of its node. -/
def operatorPhrase (level : TokenKind) : Phrase :=
  if level = .dots then .drop level else .keep level

def joinLabel (level : TokenKind) : Label := if level = .dots then .range else .binop

theorem alternatives_of_ladder {m n : Nonterminal} {level : TokenKind}
    (h : (m, level, n) ∈ ladder) :
    n.alternatives = [([.rule m], none), ([.rule (if associates level then n else m),
      operatorPhrase level, .rule m], some (joinLabel level))] := by
  have hall : ∀ q ∈ ladder, q.2.2.alternatives = [([.rule q.1], none),
      ([.rule (if associates q.2.1 then q.2.2 else q.1), operatorPhrase q.2.1, .rule q.1],
        some (joinLabel q.2.1))] := by decide
  exact hall _ h

theorem convention_of_ladder {m n : Nonterminal} {level : TokenKind}
    (h : (m, level, n) ∈ ladder) (alias? : Option Label) (y : Yield) :
    Convention.lowered n alias? y = match alias? with
      | none => y.thin n.label
      | some label => y.node label := by
  simp only [ladder, List.mem_cons, Prod.mk.injEq, List.not_mem_nil, or_false] at h
  obtain ⟨-, -, rfl⟩ | ⟨-, -, rfl⟩ | ⟨-, -, rfl⟩ | ⟨-, -, rfl⟩ | ⟨-, -, rfl⟩ | ⟨-, -, rfl⟩ := h <;>
    cases alias? <;> rfl

theorem Part.within_self : ∀ p : Part, p.within p.outer = p
  | ⟨.tree .., _⟩ => rfl
  | ⟨.token .., _⟩ => rfl
  | ⟨.stray _, _⟩ => rfl

@[simp] theorem Yield.thin_one (label : Label) (p : Part) : (one p).thin label = one p :=
  congrArg one p.within_self

theorem Part.outer_join (left right : Part) (op : Lexeme) :
    (left.join op.part right).outer = left.outer := by
  unfold Part.join
  split <;> rfl

def operatorYield (level : TokenKind) (op : Lexeme) : Yield :=
  if level = .dots then .skipped op.pos else .one op.part

theorem takes_operatorPhrase {A : Nonterminal → List Lexeme → Yield → Prop} {level : TokenKind}
    {ts : List Lexeme} {y : Yield} : (operatorPhrase level).Takes A ts y ↔
      ∃ op : Lexeme, op.kind = level ∧ ts = [op] ∧ y = operatorYield level op := by
  unfold operatorPhrase operatorYield
  split <;> exact .rfl

theorem node_joinLabel {level : TokenKind} {op : Lexeme} (hop : op.kind = level) {left : Part}
    (hl : left.outer.isSome) (right : Part) :
    (Yield.one left ++ (operatorYield level op ++ (.one right ++ .nothing))).node
      (joinLabel level) = .one (left.join op.part right) := by
  obtain ⟨pos, hpos⟩ := Option.isSome_iff_exists.mp hl
  by_cases hk : level = .dots
  · subst hk
    simp [operatorYield, joinLabel, Yield.node, Part.join, hop, hpos]
  · subst hop
    simp [operatorYield, joinLabel, Yield.node, Part.join, hk, hpos]

/-- Parts with a position that something reads. -/
def Operand.Placed (A : Operand) (ts : List Lexeme) (y : Yield) : Prop :=
  ∃ p, y = .one p ∧ p.outer.isSome ∧ A ts p

section Ladder

variable {m n : Nonterminal} {level : TokenKind} {A : Operand} {ts : List Lexeme}

theorem further_of_associates (h : associates level = true) {further : Bool} {p : Part}
    (hp : Joined (associates level) level A further ts p) : further = true := by
  cases hp with
  | operand => rfl
  | join => exact h

/-- The rule of a level reads expressions of the level. -/
theorem atLevel_of_takes {C : Nonterminal → List Lexeme → Yield → Prop}
    (hq : (m, level, n) ∈ ladder) (hm : ∀ ts y, C m ts y → A.Placed ts y)
    (hn : ∀ ts y, C n ts y → (AtLevel A level).Placed ts y) {ps : List Phrase}
    {alias? : Option Label} (ha : (ps, alias?) ∈ n.alternatives) {y : Yield}
    (h : (Phrase.row ps).Takes C ts y) :
    (AtLevel A level).Placed ts (Convention.lowered n alias? y) := by
  rw [alternatives_of_ladder hq] at ha
  rw [convention_of_ladder hq]
  simp only [List.mem_cons, Prod.mk.injEq, List.not_mem_nil, or_false] at ha
  obtain ⟨rfl, rfl⟩ | ⟨rfl, rfl⟩ := ha
  · obtain ⟨_, _, _, _, hfirst, ⟨rfl, rfl⟩, rfl, rfl⟩ := h
    obtain ⟨p, rfl, hpos, hp⟩ := hm _ _ hfirst
    refine ⟨p, ?_, hpos, true, .operand ?_⟩
    · rw [Yield.append_nothing, Yield.thin_one]
    · rw [List.append_nil]
      exact hp
  · obtain ⟨ts₁, _, y₁, _, hleft, ⟨_, _, _, _, hop, ⟨_, _, _, _, hright, ⟨rfl, rfl⟩, rfl, rfl⟩,
      rfl, rfl⟩, rfl, rfl⟩ := h
    obtain ⟨op, hkind, rfl, rfl⟩ := takes_operatorPhrase.mp hop
    obtain ⟨right, rfl, -, hr⟩ := hm _ _ hright
    have hfirst : (Operand.Placed (Joined (associates level) level A true)) ts₁ y₁ := by
      change C _ _ _ at hleft
      split at hleft
      · next hassoc =>
        obtain ⟨left, rfl, hpos, further, hl⟩ := hn _ _ hleft
        rw [further_of_associates hassoc hl] at hl
        exact ⟨left, rfl, hpos, hl⟩
      · obtain ⟨left, rfl, hpos, hl⟩ := hm _ _ hleft
        exact ⟨left, rfl, hpos, .operand hl⟩
    obtain ⟨left, rfl, hpos, hl⟩ := hfirst
    refine ⟨_, node_joinLabel hkind hpos right, ?_, associates level, ?_⟩
    · rw [Part.outer_join]
      exact hpos
    · rw [List.append_nil]
      exact .join op hkind hl hr

/-- The rule of a level reads all expressions of the level. -/
theorem reads_of_atLevel (hq : (m, level, n) ∈ ladder)
    (hA : ∀ ts p, A ts p → p.outer.isSome ∧ m.Reads ts (.one p)) {p : Part}
    (h : AtLevel A level ts p) :
    p.outer.isSome ∧ n.Reads ts (.one p) := by
  have halts := alternatives_of_ladder hq
  -- What has been joined can be joined once more only where the left operand may be of the level.
  have hjoined : ∀ {further : Bool} {ts : List Lexeme} {p : Part},
      Joined (associates level) level A further ts p → p.outer.isSome ∧
        n.Reads ts (.one p) ∧ (further = true →
          (if associates level then n else m).Reads ts (.one p)) := by
    intro further ts p h
    induction h with
    | @operand ts p h =>
        obtain ⟨hpos, hm⟩ := hA _ _ h
        have hrow : (Phrase.row [.rule m]).Reads .lowered (ts ++ []) (.one p ++ .nothing) :=
          .seq hm .nothing
        have hn := Phrase.Reads.rule (halts ▸ List.mem_cons_self ..) hrow
        rw [convention_of_ladder hq, Yield.append_nothing, Yield.thin_one, List.append_nil] at hn
        refine ⟨hpos, hn, fun _ => ?_⟩
        split
        · exact hn
        · exact hm
    | @join ts us left right op hop _ hr ih =>
        obtain ⟨hpos, -, hleft⟩ := ih
        have hoperator : (operatorPhrase level).Reads .lowered [op] (operatorYield level op) :=
          Phrase.reads_of_takes (takes_operatorPhrase.mpr ⟨op, hop, rfl, rfl⟩)
        have hrow : (Phrase.row [.rule (if associates level then n else m), operatorPhrase level,
            .rule m]).Reads .lowered (ts ++ ([op] ++ (us ++ [])))
            (.one left ++ (operatorYield level op ++ (.one right ++ .nothing))) :=
          .seq (hleft rfl) (.seq hoperator (.seq (hA _ _ hr).2 .nothing))
        have hn := Phrase.Reads.rule (halts ▸ List.mem_cons_of_mem _ (List.mem_cons_self ..)) hrow
        rw [convention_of_ladder hq] at hn
        simp only [node_joinLabel hop hpos] at hn
        rw [List.append_nil, List.singleton_append] at hn
        rw [Part.outer_join]
        refine ⟨hpos, hn, fun hassoc => ?_⟩
        rw [if_pos hassoc]
        exact hn
  obtain ⟨further, hp⟩ := h
  exact ⟨(hjoined hp).1, (hjoined hp).2.1⟩

end Ladder

end Tern
