import Tern.Proofs.Precedence

/-!
# Productions and rules

How the productions in Greibach form stand to the rules of the language. Most goals read what
some phrase reads (`Goal.phrase`), and most productions enter a rule, read the goals of one of
its alternatives and leave it again: such a `Form` spells an alternative of its rule, and the end
of it builds what the conventions make of the alternative (`Form.Spells`). What a reading does to
the frames is to give its yield to the innermost one (`absorb`).
-/

namespace Tern

/-! ## Frames -/

/-- The innermost rule reads what has been yielded. -/
def absorb (y : Yield) : List Frame → List Frame
  | [] => []
  | f :: fs => ⟨f.start.or y.outer, y.parts.reverse ++ f.parts⟩ :: fs

theorem addPart_eq (p : Part) (fs : List Frame) : addPart p fs = absorb (.one p) fs := by
  cases fs <;> rfl

theorem addPos_eq (pos : Pos) (fs : List Frame) : addPos pos fs = absorb (.skipped pos) fs := by
  cases fs <;> rfl

@[simp] theorem absorb_nothing (fs : List Frame) : absorb .nothing fs = fs := by
  cases fs <;> simp [absorb]

@[simp] theorem absorb_absorb (y z : Yield) (fs : List Frame) :
    absorb z (absorb y fs) = absorb (y ++ z) fs := by
  cases fs <;> simp [absorb, Option.or_assoc]

theorem leaveFrame_absorb (rule : Rule) (y : Yield) (fs : List Frame) :
    leaveFrame rule (absorb y (.empty :: fs)) = absorb (.one (rule.build y.outer y.parts)) fs := by
  simp [absorb, leaveFrame, addPart_eq, Frame.empty]

/-! ## Single parts -/

/-- A single part that has a position. -/
def Yield.Single (y : Yield) : Prop := ∃ p, y = .one p ∧ p.outer.isSome

/-- These read a single part. -/
def Nonterminal.isSingle (n : Nonterminal) : Bool :=
  n.isTransparent || n == .conditional || n == .matching || n == .block

theorem Yield.single_node {y : Yield} (h : y.outer.isSome) (label : Label) :
    (y.node label).Single := ⟨_, rfl, h⟩

theorem Yield.single_within {p : Part} (hp : p.outer.isSome) {outer : Option Pos}
    (h : outer.isSome) : (Yield.one (p.within outer)).Single := by
  refine ⟨_, rfl, ?_⟩
  match p with
  | ⟨.tree .., _⟩ => exact h
  | ⟨.token .., _⟩ => exact hp
  | ⟨.stray _, _⟩ => exact hp

section Single

variable {C : Nonterminal → List Lexeme → Yield → Prop} {ts : List Lexeme} {y : Yield}

/-- An alternative begins with a token. -/
def startsWithToken : List Phrase → Bool
  | .keep _ :: _ | .drop _ :: _ => true
  | _ => false

theorem isSome_outer_of_takes {ps : List Phrase} (hp : startsWithToken ps)
    (h : (Phrase.row ps).Takes C ts y) : y.outer.isSome := by
  unfold startsWithToken at hp
  split at hp
  · obtain ⟨_, _, _, _, ⟨t, rfl, rfl, rfl⟩, -, rfl, rfl⟩ := h
    simp
  · obtain ⟨_, _, _, _, ⟨t, rfl, rfl, rfl⟩, -, rfl, rfl⟩ := h
    simp
  · cases hp

/-- What an alternative of an operand reads, from what the rules in it read. -/
theorem single_atom (hC : ∀ n ts y, C n ts y → n.isSingle → y.Single) {ps : List Phrase}
    {alias? : Option Label} (ha : (ps, alias?) ∈ Nonterminal.atom.alternatives)
    (h : (Phrase.row ps).Takes C ts y) : (Convention.lowered .atom alias? y).Single := by
  have hlabels : ∀ q ∈ Nonterminal.atom.alternatives, q.2.isSome → startsWithToken q.1 := by
    decide
  have hthin : Convention.lowered .atom none = Yield.thin (.other "atom") := rfl
  have hrule : ∀ n : Nonterminal, n.isSingle → (Phrase.row [.rule n]).Takes C ts y →
      (Convention.lowered .atom none y).Single := by
    rintro n hn ⟨_, _, _, _, hread, ⟨rfl, rfl⟩, rfl, rfl⟩
    obtain ⟨p, rfl, hp⟩ := hC _ _ _ hread hn
    rw [hthin, Yield.append_nothing, Yield.thin_one]
    exact ⟨p, rfl, hp⟩
  have hkeep : ∀ k, (Phrase.row [.keep k]).Takes C ts y →
      (Convention.lowered .atom none y).Single := by
    rintro k ⟨_, _, _, _, ⟨t, rfl, rfl, rfl⟩, ⟨rfl, rfl⟩, rfl, rfl⟩
    rw [hthin, Yield.append_nothing, Yield.thin_one]
    exact ⟨_, rfl, rfl⟩
  cases alias? with
  | some label => exact Yield.single_node (isSome_outer_of_takes (hlabels _ ha rfl) h) label
  | none =>
      simp only [Nonterminal.alternatives, List.mem_cons, Prod.mk.injEq, reduceCtorEq, and_false,
        and_true, or_false, false_or, List.not_mem_nil] at ha
      rcases ha with rfl | rfl | rfl | rfl | rfl | rfl | rfl | rfl | rfl
      · exact hkeep _ h
      · exact hkeep _ h
      · exact hkeep _ h
      · exact hkeep _ h
      · exact hkeep _ h
      · obtain ⟨_, _, _, _, ⟨t, _, rfl, rfl⟩, ⟨_, _, _, _, hinner, ⟨_, _, _, _, ⟨u, _, rfl, rfl⟩,
          ⟨rfl, rfl⟩, rfl, rfl⟩, rfl, rfl⟩, rfl, rfl⟩ := h
        obtain ⟨p, rfl, hp⟩ := hC _ _ _ hinner rfl
        exact Yield.single_within hp rfl
      · exact hrule _ rfl h
      · exact hrule _ rfl h
      · exact hrule _ rfl h

theorem single_of_reads {n : Nonterminal} (hn : n.isSingle) (h : n.Reads ts y) : y.Single := by
  have hall : (Phrase.rule n).Takes (fun n _ y => n.isSingle → y.Single) ts y := by
    refine h.takes fun n ps alias? ha ts y h hn => ?_
    have hplaced : ∀ m : Nonterminal, m.isSingle → ∀ ts y, (m.isSingle → y.Single) →
        Operand.Placed (fun _ _ => True) ts y := by
      intro m hm ts y hy
      obtain ⟨p, rfl, hp⟩ := hy hm
      exact ⟨p, rfl, hp, trivial⟩
    have hladder : (∃ q ∈ ladder, q.1.isSingle ∧ q.2.2 = n) →
        (Convention.lowered n alias? y).Single := by
      rintro ⟨⟨m, level, n'⟩, hq, hm, rfl⟩
      have hn' : ∀ ts y, (n'.isSingle → y.Single) →
          Operand.Placed (AtLevel (fun _ _ => True) level) ts y := by
        intro ts y hy
        obtain ⟨p, rfl, hp⟩ := hy hn
        exact ⟨p, rfl, hp, true, .operand trivial⟩
      obtain ⟨p, hy, hp, -⟩ := atLevel_of_takes hq (hplaced m hm) hn' ha h
      exact ⟨p, hy, hp⟩
    have hnode : startsWithToken ps → ∀ label, (y.node label).Single :=
      fun hps => Yield.single_node (isSome_outer_of_takes hps h)
    cases n <;> first
      | exact absurd hn (by decide)
      | exact hladder (by decide)
      | skip
    case atom => exact single_atom (fun _ _ _ h => h) ha h
    case expression =>
      cases List.mem_singleton.mp ha
      obtain ⟨_, _, _, _, hread, ⟨rfl, rfl⟩, rfl, rfl⟩ := h
      obtain ⟨p, rfl, hp⟩ := hread rfl
      rw [Yield.append_nothing]
      exact ⟨p, Yield.thin_one (.other "expr") p, hp⟩
    case block =>
      cases List.mem_singleton.mp ha
      exact hnode rfl _
    case matching =>
      cases List.mem_singleton.mp ha
      exact hnode rfl _
    case conditional =>
      simp only [Nonterminal.alternatives, List.mem_cons, Prod.mk.injEq, List.not_mem_nil,
        or_false] at ha
      obtain ⟨rfl, rfl⟩ | ⟨rfl, rfl⟩ | ⟨rfl, rfl⟩ := ha
      · exact hnode rfl _
      · exact hnode rfl _
      · exact hnode rfl _
  exact hall hn

end Single

/-! ## Goals and phrases -/

open Phrase in
/-- The phrase that a goal reads, but for the goals that work on rules. -/
def Goal.phrase : Goal → Phrase
  | keep k => .keep k
  | drop k => .drop k
  | statements => .rule .statements
  | afterItem => row [.optional (.drop .semicolon), .rule .statements]
  | afterSimple => .optional (row [.drop .semicolon, .rule .statements])
  | block => .rule .block
  | elsePart => .optional (row [.drop .elseWord, .either (.rule .block) (.rule .conditional)])
  | alternative => .either (.rule .block) (.rule .conditional)
  | expression => .rule .expression
  | operand => .rule .atom
  | names label => .rule (if label = .params then .params else .fields)
  | nextName => separated (.keep .ident)
  | moreNames => more (.keep .ident)
  | arguments => .rule .args
  | items => .rule .expressions
  | moreItems => more (.rule .expression)
  | pairs => .rule .pairs
  | morePairs => more (.rule .pair)
  | arms => separated (.rule .case)
  | moreArms => more (.rule .case)
  | methods => .many (.rule .method)
  | enter | leave _ | afterBraced | chain _ _ => .nothing

/-! ## Forms -/

/-- How the parser reads an alternative of a rule. -/
structure Form where
  rule : Nonterminal
  alias? : Option Label
  goals : List Goal
  closing : Rule
  deriving DecidableEq

namespace Form

open TokenKind Goal

def production (f : Form) : List Goal := .enter :: f.goals ++ [.leave f.closing]

def phrases (f : Form) : List Phrase := f.goals.map Goal.phrase

/-- The form reads an alternative of its rule, and builds what the conventions make of it. -/
structure Spells (f : Form) : Prop where
  mem : (f.phrases, f.alias?) ∈ f.rule.alternatives
  build : ∀ y : Yield,
    .one (f.closing.build y.outer y.parts) = Convention.lowered f.rule f.alias? y

/-- A rule whose only alternative has no label of its own. -/
def plain (rule : Nonterminal) (goals : List Goal) : Form :=
  ⟨rule, none, goals, .node rule.label⟩

/-- An alternative with a label of its own. -/
def labelled (rule : Nonterminal) (label : Label) (goals : List Goal) : Form :=
  ⟨rule, some label, goals, .node label⟩

/-- Statements that end in a brace, but for the methods of a struct. -/
def closed : List Form :=
  [ plain .funDef [drop fnWord, keep ident, drop parenOpen, names .params, drop parenClose, block],
    plain .structDef [drop structWord, keep ident, drop braceOpen, names .fields,
      drop braceClose],
    labelled .whileLoop .whileLoop [drop whileWord, expression, block],
    labelled .forLoop .forLoop [drop forWord, keep ident, drop inWord, expression, block] ]

/-- Statements that take a semicolon and are no expressions. -/
def simple : List Form :=
  [ plain .assign [drop letWord, keep ident, drop equal, expression],
    plain .setVar [keep ident, drop equal, expression],
    plain .inPlace [keep ident, keep inPlaceOp, expression] ]

/-- Operands of several tokens that are no statements, but for parentheses. -/
def operands : List Form :=
  [ labelled .atom .call [keep ident, drop parenOpen, arguments, drop parenClose],
    labelled .atom .getFunc
      [keep ident, drop dot, keep ident, drop parenOpen, arguments, drop parenClose],
    labelled .atom .getAttr [keep ident, drop dot, keep ident],
    labelled .atom .index [keep ident, drop bracketOpen, expression, drop bracketClose],
    labelled .atom .callStruct [keep ident, drop braceOpen, pairs, drop braceClose],
    labelled .atom .list [drop bracketOpen, items, drop bracketClose] ]

def matching : Form :=
  labelled .matching .matching [drop matchWord, expression, drop braceOpen, arms, drop braceClose]

def braced : Form := plain .block [drop braceOpen, statements, drop braceClose]

def program : Form := labelled .program .block [statements]

def arguments : Form := plain .args [items]

def pair : Form := plain .pair [keep ident, drop colon, expression]

def case : Form := plain .case [expression, drop arrow, expression]

def params : Form := plain .params [nextName]

def fields : Form := plain .fields [nextName]

def all : List Form :=
  closed ++ simple ++ operands ++ [matching, braced, program, arguments, pair, case, params, fields]

theorem spells : ∀ f ∈ all, f.Spells := by
  have hmem : ∀ f ∈ all, (f.phrases, f.alias?) ∈ f.rule.alternatives := by decide
  have hbuild : ∀ f ∈ all, ∀ y : Yield,
      .one (f.closing.build y.outer y.parts) = Convention.lowered f.rule f.alias? y := by
    simp only [all, closed, simple, operands, List.cons_append, List.nil_append,
      List.forall_mem_cons]
    refine ⟨?_, ?_, ?_, ?_, ?_, ?_, ?_, ?_, ?_, ?_, ?_, ?_, ?_, ?_, ?_, ?_, ?_, ?_, ?_, ?_, ?_,
      by simp⟩ <;> exact fun _ => rfl
  exact fun f hf => ⟨hmem f hf, hbuild f hf⟩

end Form

end Tern
