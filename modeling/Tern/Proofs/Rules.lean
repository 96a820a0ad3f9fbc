import Tern.Syntax.Parse

/-!
# The rules of the language

The grammar of programs as it is written down, with left recursion, repetitions and optional
parts, and apart from any way to read it. A phrase reads tokens and yields parts. The conventions
for what a rule makes of them are these: keywords and punctuation leave only their position, the
parts of a spliced rule go to the rule around it, a transparent rule leaves a single part as it
is, and any other rule makes a node, which an alternative may give a label of its own.

`Phrase.Reads` says what a phrase reads under some conventions: those of the rules as they are
(`Convention.surface`), or those where the methods of a struct are made into nodes of their own
at once (`Convention.lowered`). To read a program and lower its tree afterwards is the same
(`reads_lower`, `reads_surface`).
-/

namespace Tern

/-! ## What is read -/

/-- The parts that have been kept, and the position of what came first, kept or not. -/
structure Yield where
  parts : List Part
  outer : Option Pos

namespace Yield

def nothing : Yield := ⟨[], none⟩

def one (p : Part) : Yield := ⟨[p], p.outer⟩

def skipped (pos : Pos) : Yield := ⟨[], some pos⟩

instance : Append Yield := ⟨fun y z => ⟨y.parts ++ z.parts, y.outer.or z.outer⟩⟩

@[simp] theorem parts_append (y z : Yield) : (y ++ z).parts = y.parts ++ z.parts := rfl

@[simp] theorem outer_append (y z : Yield) : (y ++ z).outer = y.outer.or z.outer := rfl

@[simp] theorem parts_nothing : nothing.parts = [] := rfl

@[simp] theorem outer_nothing : nothing.outer = none := rfl

@[simp] theorem parts_one (p : Part) : (one p).parts = [p] := rfl

@[simp] theorem outer_one (p : Part) : (one p).outer = p.outer := rfl

@[simp] theorem parts_skipped (pos : Pos) : (skipped pos).parts = [] := rfl

@[simp] theorem outer_skipped (pos : Pos) : (skipped pos).outer = some pos := rfl

@[ext] theorem ext {y z : Yield} (hp : y.parts = z.parts) (ho : y.outer = z.outer) : y = z := by
  cases y
  cases hp
  cases ho
  rfl

@[simp] theorem nothing_append (y : Yield) : nothing ++ y = y := by
  ext1 <;> simp

@[simp] theorem append_nothing (y : Yield) : y ++ nothing = y := by
  ext1 <;> simp

theorem append_assoc (x y z : Yield) : x ++ y ++ z = x ++ (y ++ z) := by
  ext1 <;> simp [Option.or_assoc]

end Yield

/-- The part that a token is. -/
abbrev Lexeme.part (t : Lexeme) : Part := ⟨.token t.kind t.text t.pos, t.pos⟩

/-- A tree takes another outer position; a token has its own. -/
def Part.within (outer : Option Pos) : Part → Part
  | ⟨.tree label cs pos, _⟩ => ⟨.tree label cs pos, outer⟩
  | p => p

/-! ## The grammar -/

inductive Nonterminal
  | program | statements | item | simple | block
  | assign | setVar | inPlace
  | funDef | params | structDef | fields | implBlock | method
  | conditional | whileLoop | forLoop | matching | case
  | expression | disjunction | conjunction | comparison | range | sum | product | atom
  | args | expressions | pairs | pair
  deriving Repr, DecidableEq

inductive Phrase
  /-- A token that becomes a part. -/
  | keep (kind : TokenKind)
  /-- A token that leaves only its position behind. -/
  | drop (kind : TokenKind)
  | rule (n : Nonterminal)
  | nothing
  | seq (p q : Phrase)
  | either (p q : Phrase)
  | many (p : Phrase)
  | optional (p : Phrase)
  deriving Repr, DecidableEq

/-- One phrase after the other. -/
def Phrase.row (ps : List Phrase) : Phrase := ps.foldr .seq .nothing

open TokenKind Phrase in
/-- More after a first one, with commas between and perhaps one at the end. -/
def Phrase.more (p : Phrase) : Phrase :=
  row [many (row [drop comma, p]), optional (drop comma)]

/-- Any number with commas between, and perhaps one at the end. -/
def Phrase.separated (p : Phrase) : Phrase := .optional (.row [p, p.more])

namespace Nonterminal

open TokenKind Phrase

/-- The alternatives of a rule, with the labels that some have of their own. -/
def alternatives : Nonterminal → List (List Phrase × Option Label)
  | program => [([rule statements], some .block)]
  | statements =>
    [([many (either (row [rule item, optional (drop semicolon)])
        (row [rule simple, drop semicolon])), optional (rule simple)], none)]
  | item =>
    [([rule funDef], none), ([rule structDef], none), ([rule implBlock], none),
      ([rule conditional], none), ([rule whileLoop], none), ([rule forLoop], none),
      ([rule matching], none), ([rule block], none)]
  | simple =>
    [([rule assign], none), ([rule setVar], none), ([rule inPlace], none),
      ([rule expression], none)]
  | block => [([drop braceOpen, rule statements, drop braceClose], none)]
  | assign => [([drop letWord, keep ident, drop equal, rule expression], none)]
  | setVar => [([keep ident, drop equal, rule expression], none)]
  | inPlace => [([keep ident, keep inPlaceOp, rule expression], none)]
  | funDef =>
    [([drop fnWord, keep ident, drop parenOpen, rule params, drop parenClose, rule block], none)]
  | params => [([separated (keep ident)], none)]
  | structDef =>
    [([drop structWord, keep ident, drop braceOpen, rule fields, drop braceClose], none)]
  | fields => [([separated (keep ident)], none)]
  | implBlock =>
    [([drop implWord, keep ident, drop braceOpen, many (rule method), drop braceClose], none)]
  | method =>
    [([drop fnWord, keep ident, drop parenOpen, rule params, drop parenClose, rule block], none)]
  | conditional =>
    [([drop ifWord, rule expression, rule block], some .ifThen),
      ([drop ifWord, rule expression, rule block, drop elseWord, rule block], some .ifThenElse),
      ([drop ifWord, rule expression, rule block, drop elseWord, rule conditional],
        some .ifThenElse)]
  | whileLoop => [([drop whileWord, rule expression, rule block], some .whileLoop)]
  | forLoop =>
    [([drop forWord, keep ident, drop inWord, rule expression, rule block], some .forLoop)]
  | matching =>
    [([drop matchWord, rule expression, drop braceOpen, separated (rule case), drop braceClose],
      some .matching)]
  | case => [([rule expression, drop arrow, rule expression], none)]
  | expression => [([rule disjunction], none)]
  | disjunction =>
    [([rule conjunction], none),
      ([rule disjunction, keep orOp, rule conjunction], some .binop)]
  | conjunction =>
    [([rule comparison], none),
      ([rule conjunction, keep andOp, rule comparison], some .binop)]
  | comparison =>
    [([rule range], none), ([rule range, keep compareOp, rule range], some .binop)]
  | range => [([rule sum], none), ([rule sum, drop dots, rule sum], some .range)]
  | sum => [([rule product], none), ([rule sum, keep addOp, rule product], some .binop)]
  | product => [([rule atom], none), ([rule product, keep mulOp, rule atom], some .binop)]
  | atom =>
    [([keep number], none), ([keep string], none), ([keep trueWord], none),
      ([keep falseWord], none), ([keep ident], none),
      ([keep ident, drop parenOpen, rule args, drop parenClose], some .call),
      ([keep ident, drop dot, keep ident, drop parenOpen, rule args, drop parenClose],
        some .getFunc),
      ([keep ident, drop dot, keep ident], some .getAttr),
      ([keep ident, drop bracketOpen, rule expression, drop bracketClose], some .index),
      ([keep ident, drop braceOpen, rule pairs, drop braceClose], some .callStruct),
      ([drop bracketOpen, rule expressions, drop bracketClose], some .list),
      ([drop parenOpen, rule expression, drop parenClose], none),
      ([rule conditional], none), ([rule matching], none), ([rule block], none)]
  | args => [([rule expressions], none)]
  | expressions => [([separated (rule expression)], none)]
  | pairs => [([separated (rule pair)], none)]
  | pair => [([keep ident, drop colon, rule expression], none)]

/-! ## Conventions -/

/-- The parts of these go to the rule around them. -/
def isSpliced : Nonterminal → Bool
  | statements | item | simple | expressions | pairs => true
  | _ => false

/-- These leave a single part as it is. -/
def isTransparent : Nonterminal → Bool
  | expression | disjunction | conjunction | comparison | range | sum | product | atom => true
  | _ => false

/-- The label of a node for an alternative without one of its own. -/
def label : Nonterminal → Label
  | block => .block | assign => .assign | setVar => .setVar | inPlace => .inPlace
  | funDef => .funDef | params => .params | structDef => .structDef | fields => .fields
  | case => .case | range => .range | args => .args | pair => .pair
  | implBlock => .other "impl_block" | method => .other "method"
  | program => .other "program" | statements => .other "_stmts" | item => .other "_item"
  | simple => .other "_simple" | conditional => .other "ifexpr" | whileLoop => .other "whileloop"
  | forLoop => .other "forloop" | matching => .other "matchexpr" | expression => .other "expr"
  | disjunction => .other "or_expr" | conjunction => .other "and_expr"
  | comparison => .other "cmp_expr" | sum => .other "sum" | product => .other "product"
  | atom => .other "atom" | expressions => .other "_exprs" | pairs => .other "_pairs"

end Nonterminal

/-- What a rule makes of what one of its alternatives has read. -/
abbrev Convention := Nonterminal → Option Label → Yield → Yield

def Yield.node (label : Label) (y : Yield) : Yield :=
  .one ⟨.tree label (y.parts.map (·.node)) y.outer, y.outer⟩

/-- A single part as it is, and a node of its own for any other number. -/
def Yield.thin (label : Label) (y : Yield) : Yield :=
  match y.parts with
  | [p] => .one (p.within y.outer)
  | _ => y.node label

def Convention.surface : Convention := fun n alias? y =>
  if n.isSpliced then y
  else if n.isTransparent ∧ alias? = none then y.thin n.label
  else y.node (alias?.getD n.label)

inductive Phrase.Reads (convention : Convention) : Phrase → List Lexeme → Yield → Prop
  | keep (t : Lexeme) : Reads convention (.keep t.kind) [t] (.one t.part)
  | drop (t : Lexeme) : Reads convention (.drop t.kind) [t] (.skipped t.pos)
  | rule {n : Nonterminal} {ps : List Phrase} {alias? : Option Label} {ts : List Lexeme}
      {y : Yield} (ha : (ps, alias?) ∈ n.alternatives) (h : Reads convention (.row ps) ts y) :
      Reads convention (.rule n) ts (convention n alias? y)
  | nothing : Reads convention .nothing [] .nothing
  | seq {p q : Phrase} {ts us : List Lexeme} {y z : Yield} (hp : Reads convention p ts y)
      (hq : Reads convention q us z) : Reads convention (.seq p q) (ts ++ us) (y ++ z)
  | left {p q : Phrase} {ts : List Lexeme} {y : Yield} (h : Reads convention p ts y) :
      Reads convention (.either p q) ts y
  | right {p q : Phrase} {ts : List Lexeme} {y : Yield} (h : Reads convention q ts y) :
      Reads convention (.either p q) ts y
  | stop {p : Phrase} : Reads convention (.many p) [] .nothing
  | again {p : Phrase} {ts us : List Lexeme} {y z : Yield} (h : Reads convention p ts y)
      (hrest : Reads convention (.many p) us z) :
      Reads convention (.many p) (ts ++ us) (y ++ z)
  | absent {p : Phrase} : Reads convention (.optional p) [] .nothing
  | present {p : Phrase} {ts : List Lexeme} {y : Yield} (h : Reads convention p ts y) :
      Reads convention (.optional p) ts y

/-! ## Lowering -/

/-- A method with its struct in front. -/
def Node.implOf (struct : Node) : Node → Node
  | .tree _ cs pos => .tree .impl (struct :: cs) pos
  | n => n

/-- The methods of a struct, each with the struct in front. -/
def implsOf : List Node → List Node
  | struct :: methods => methods.map struct.implOf
  | [] => []

mutual

/-- A tree where the methods of each struct are nodes of their own. -/
def Node.lower : Node → Node
  | .tree label cs pos =>
    if label = .other "impl_block" then .tree .block (implsOf (Node.lowerAll cs)) pos
    else .tree label (Node.lowerAll cs) pos
  | n => n

def Node.lowerAll : List Node → List Node
  | [] => []
  | n :: rest => n.lower :: Node.lowerAll rest

end

/-- Methods are made into nodes of their own at once. -/
def Convention.lowered : Convention
  | .implBlock, _, y => .one ⟨.tree .block (implsOf (y.parts.map (·.node))) y.outer, y.outer⟩
  | n, alias?, y => surface n alias? y

/-- What a rule reads, with its tree lowered. -/
abbrev Nonterminal.Reads (n : Nonterminal) : List Lexeme → Yield → Prop :=
  (Phrase.rule n).Reads .lowered

def Part.lower (p : Part) : Part := ⟨p.node.lower, p.outer⟩

def Yield.lower (y : Yield) : Yield := ⟨y.parts.map Part.lower, y.outer⟩

theorem Node.lowerAll_eq_map : ∀ ns : List Node, Node.lowerAll ns = ns.map Node.lower
  | [] => rfl
  | n :: rest => by rw [Node.lowerAll, Node.lowerAll_eq_map rest, List.map_cons]

namespace Yield

@[simp] theorem lower_append (y z : Yield) : (y ++ z).lower = y.lower ++ z.lower := by
  ext1 <;> simp [lower]

@[simp] theorem lower_nothing : nothing.lower = nothing := rfl

@[simp] theorem lower_one (p : Part) : (one p).lower = one p.lower := rfl

@[simp] theorem lower_skipped (pos : Pos) : (skipped pos).lower = skipped pos := rfl

theorem lower_node {label : Label} (h : label ≠ .other "impl_block") (y : Yield) :
    (y.node label).lower = y.lower.node label := by
  simp [node, lower, one, Part.lower, Node.lower, h, Node.lowerAll_eq_map, Function.comp_def]

end Yield

theorem Part.lower_within (outer : Option Pos) : ∀ p : Part,
    (p.within outer).lower = p.lower.within outer
  | ⟨.tree label cs pos, _⟩ => by
      simp only [within, lower, Node.lower]
      split <;> rfl
  | ⟨.token .., _⟩ => rfl
  | ⟨.stray _, _⟩ => rfl

theorem Yield.lower_thin {label : Label} (h : label ≠ .other "impl_block") (y : Yield) :
    (y.thin label).lower = y.lower.thin label := by
  obtain ⟨_ | ⟨p, _ | ⟨q, rest⟩⟩, outer⟩ := y
  · exact lower_node h _
  · exact congrArg one (p.lower_within outer)
  · exact lower_node h _

theorem alias_ne {n : Nonterminal} {ps : List Phrase} {alias? : Option Label}
    (h : (ps, alias?) ∈ n.alternatives) : alias? ≠ some (.other "impl_block") := by
  rintro rfl
  cases n <;> simp [Nonterminal.alternatives] at h

theorem label_ne : ∀ {n : Nonterminal}, n ≠ .implBlock → n.label ≠ .other "impl_block" := by
  intro n hn
  cases n <;> first
    | exact absurd rfl hn
    | simp [Nonterminal.label]

theorem lowered_of_ne {n : Nonterminal} (hn : n ≠ .implBlock) :
    Convention.lowered n = Convention.surface n := by
  cases n <;> first
    | rfl
    | exact absurd rfl hn

theorem lowered_of_isSpliced {n : Nonterminal} (hn : n.isSpliced) (alias? : Option Label)
    (y : Yield) : Convention.lowered n alias? y = y := by
  cases n <;> first
    | rfl
    | cases hn

theorem lowered_of_isTransparent {n : Nonterminal} (hn : n.isTransparent) (y : Yield) :
    Convention.lowered n none y = y.thin n.label := by
  cases n <;> first
    | rfl
    | cases hn

/-- Lowering what a rule has made is making it of what has been lowered. -/
theorem lower_surface {n : Nonterminal} {ps : List Phrase} {alias? : Option Label}
    (ha : (ps, alias?) ∈ n.alternatives) (y : Yield) :
    (Convention.surface n alias? y).lower = Convention.lowered n alias? y.lower := by
  by_cases hn : n = .implBlock
  · subst hn
    simp only [Nonterminal.alternatives, List.mem_singleton, Prod.mk.injEq] at ha
    obtain ⟨-, rfl⟩ := ha
    simp [Convention.surface, Convention.lowered, Nonterminal.isSpliced,
      Nonterminal.isTransparent, Nonterminal.label, Yield.node, Yield.lower, Part.lower,
      Yield.one, Node.lower, Node.lowerAll_eq_map, Function.comp_def]
  · rw [lowered_of_ne hn]
    have halias : alias?.getD n.label ≠ .other "impl_block" := by
      cases alias? with
      | none => exact label_ne hn
      | some l => exact fun h => alias_ne ha (congrArg some h)
    unfold Convention.surface
    split
    · rfl
    · split
      · exact Yield.lower_thin (label_ne hn) y
      · exact Yield.lower_node halias y

theorem reads_lower {p : Phrase} {ts : List Lexeme} {y : Yield}
    (h : p.Reads .surface ts y) : p.Reads .lowered ts y.lower := by
  induction h with
  | keep t => exact .keep t
  | drop t => exact .drop t
  | rule ha _ ih =>
      rw [lower_surface ha]
      exact .rule ha ih
  | nothing => exact .nothing
  | seq _ _ ihp ihq =>
      rw [Yield.lower_append]
      exact .seq ihp ihq
  | left _ ih => exact .left ih
  | right _ ih => exact .right ih
  | stop => exact .stop
  | again _ _ ih ihrest =>
      rw [Yield.lower_append]
      exact .again ih ihrest
  | absent => exact .absent
  | present _ ih => exact .present ih

theorem reads_surface {p : Phrase} {ts : List Lexeme} {z : Yield}
    (h : p.Reads .lowered ts z) : ∃ y, p.Reads .surface ts y ∧ y.lower = z := by
  induction h with
  | keep t => exact ⟨_, .keep t, rfl⟩
  | drop t => exact ⟨_, .drop t, rfl⟩
  | rule ha _ ih =>
      obtain ⟨y, hy, rfl⟩ := ih
      exact ⟨_, .rule ha hy, lower_surface ha y⟩
  | nothing => exact ⟨_, .nothing, rfl⟩
  | seq _ _ ihp ihq =>
      obtain ⟨y, hy, rfl⟩ := ihp
      obtain ⟨z, hz, rfl⟩ := ihq
      exact ⟨_, .seq hy hz, Yield.lower_append y z⟩
  | left _ ih =>
      obtain ⟨y, hy, rfl⟩ := ih
      exact ⟨_, .left hy, rfl⟩
  | right _ ih =>
      obtain ⟨y, hy, rfl⟩ := ih
      exact ⟨_, .right hy, rfl⟩
  | stop => exact ⟨_, .stop, rfl⟩
  | again _ _ ih ihrest =>
      obtain ⟨y, hy, rfl⟩ := ih
      obtain ⟨z, hz, rfl⟩ := ihrest
      exact ⟨_, .again hy hz, Yield.lower_append y z⟩
  | absent => exact ⟨_, .absent, rfl⟩
  | present _ ih =>
      obtain ⟨y, hy, rfl⟩ := ih
      exact ⟨_, .present hy, rfl⟩

/-! ## Induction on what is read -/

/-- One after the other, any number of times. -/
inductive Repeats (A : List Lexeme → Yield → Prop) : List Lexeme → Yield → Prop
  | stop : Repeats A [] .nothing
  | again {ts us : List Lexeme} {y z : Yield} (h : A ts y) (hrest : Repeats A us z) :
      Repeats A (ts ++ us) (y ++ z)

namespace Phrase

variable {A B : Nonterminal → List Lexeme → Yield → Prop} {ts : List Lexeme} {y : Yield}

/-- What a phrase reads when the rules in it read what is said of them. -/
def Takes (A : Nonterminal → List Lexeme → Yield → Prop) : Phrase → List Lexeme → Yield → Prop
  | keep k, ts, y => ∃ t : Lexeme, t.kind = k ∧ ts = [t] ∧ y = .one t.part
  | drop k, ts, y => ∃ t : Lexeme, t.kind = k ∧ ts = [t] ∧ y = .skipped t.pos
  | rule n, ts, y => A n ts y
  | nothing, ts, y => ts = [] ∧ y = .nothing
  | seq p q, ts, y => ∃ ts₁ ts₂ y₁ y₂, p.Takes A ts₁ y₁ ∧ q.Takes A ts₂ y₂ ∧
      ts = ts₁ ++ ts₂ ∧ y = y₁ ++ y₂
  | either p q, ts, y => p.Takes A ts y ∨ q.Takes A ts y
  | many p, ts, y => Repeats (p.Takes A) ts y
  | optional p, ts, y => ts = [] ∧ y = .nothing ∨ p.Takes A ts y

theorem takes_row_singleton {p : Phrase} : (row [p]).Takes A ts y ↔ p.Takes A ts y := by
  constructor
  · rintro ⟨ts₁, _, y₁, _, h, ⟨rfl, rfl⟩, rfl, rfl⟩
    rwa [List.append_nil, Yield.append_nothing]
  · exact fun h => ⟨ts, [], y, .nothing, h, ⟨rfl, rfl⟩, (List.append_nil ts).symm,
      y.append_nothing.symm⟩

theorem takes_row_append : ∀ {ps qs : List Phrase} {ts : List Lexeme} {y : Yield},
    (row (ps ++ qs)).Takes A ts y ↔ ∃ ts₁ ts₂ y₁ y₂, (row ps).Takes A ts₁ y₁ ∧
      (row qs).Takes A ts₂ y₂ ∧ ts = ts₁ ++ ts₂ ∧ y = y₁ ++ y₂
  | [], qs, ts, y => by
      constructor
      · exact fun h => ⟨[], ts, .nothing, y, ⟨rfl, rfl⟩, h, rfl, y.nothing_append.symm⟩
      · rintro ⟨_, _, _, y₂, ⟨rfl, rfl⟩, h, rfl, rfl⟩
        rwa [Yield.nothing_append]
  | p :: ps, qs, ts, y => by
      constructor
      · rintro ⟨ts₁, _, y₁, _, hp, hrest, rfl, rfl⟩
        obtain ⟨ts₂, ts₃, y₂, y₃, hps, hqs, rfl, rfl⟩ := takes_row_append.mp hrest
        exact ⟨ts₁ ++ ts₂, ts₃, y₁ ++ y₂, y₃, ⟨ts₁, ts₂, y₁, y₂, hp, hps, rfl, rfl⟩, hqs,
          (List.append_assoc ..).symm, (Yield.append_assoc ..).symm⟩
      · rintro ⟨_, ts₃, _, y₃, ⟨ts₁, ts₂, y₁, y₂, hp, hps, rfl, rfl⟩, hqs, rfl, rfl⟩
        exact ⟨ts₁, ts₂ ++ ts₃, y₁, y₂ ++ y₃, hp,
          takes_row_append.mpr ⟨ts₂, ts₃, y₂, y₃, hps, hqs, rfl, rfl⟩, List.append_assoc ..,
          Yield.append_assoc ..⟩

theorem Takes.mono (h : ∀ n ts y, A n ts y → B n ts y) : ∀ {p : Phrase} {ts : List Lexeme}
    {y : Yield}, p.Takes A ts y → p.Takes B ts y
  | keep _, _, _, ht => ht
  | drop _, _, _, ht => ht
  | rule _, _, _, ht => h _ _ _ ht
  | nothing, _, _, ht => ht
  | seq _ _, _, _, ⟨ts₁, ts₂, y₁, y₂, hp, hq, hts, hy⟩ =>
    ⟨ts₁, ts₂, y₁, y₂, hp.mono h, hq.mono h, hts, hy⟩
  | either _ _, _, _, ht => ht.imp (·.mono h) (·.mono h)
  | many _, _, _, ht => by
      induction ht with
      | stop => exact .stop
      | again hp _ ih => exact .again (hp.mono h) ih
  | optional _, _, _, ht => ht.imp_right (·.mono h)

variable {convention : Convention}

theorem reads_of_takes : ∀ {p : Phrase} {ts : List Lexeme} {y : Yield},
    p.Takes (fun n => (rule n).Reads convention) ts y → p.Reads convention ts y
  | keep _, _, _, ⟨t, rfl, rfl, rfl⟩ => .keep t
  | drop _, _, _, ⟨t, rfl, rfl, rfl⟩ => .drop t
  | rule _, _, _, h => h
  | nothing, _, _, ⟨rfl, rfl⟩ => .nothing
  | seq _ _, _, _, ⟨_, _, _, _, hp, hq, rfl, rfl⟩ => .seq (reads_of_takes hp) (reads_of_takes hq)
  | either _ _, _, _, .inl h => .left (reads_of_takes h)
  | either _ _, _, _, .inr h => .right (reads_of_takes h)
  | many _, _, _, h => by
      induction h with
      | stop => exact .stop
      | again hp _ ih => exact .again (reads_of_takes hp) ih
  | optional _, _, _, .inl ⟨rfl, rfl⟩ => .absent
  | optional _, _, _, .inr h => .present (reads_of_takes h)

/-- What is closed under the rules holds of all that they read. -/
theorem Reads.takes (hA : ∀ n ps alias?, (ps, alias?) ∈ n.alternatives → ∀ ts y,
      (row ps).Takes A ts y → A n ts (convention n alias? y))
    {p : Phrase} (h : p.Reads convention ts y) : p.Takes A ts y := by
  induction h with
  | keep t => exact ⟨t, rfl, rfl, rfl⟩
  | drop t => exact ⟨t, rfl, rfl, rfl⟩
  | rule ha _ ih => exact hA _ _ _ ha _ _ ih
  | nothing => exact ⟨rfl, rfl⟩
  | seq _ _ ihp ihq => exact ⟨_, _, _, _, ihp, ihq, rfl, rfl⟩
  | left _ ih => exact .inl ih
  | right _ ih => exact .inr ih
  | stop => exact .stop
  | again _ _ ih ihrest => exact .again ih ihrest
  | absent => exact .inl ⟨rfl, rfl⟩
  | present _ ih => exact .inr ih

theorem reads_iff_takes {p : Phrase} :
    p.Reads convention ts y ↔ p.Takes (fun n => (rule n).Reads convention) ts y :=
  ⟨Reads.takes fun _ _ _ ha _ _ h => .rule ha (reads_of_takes h), reads_of_takes⟩

end Phrase

end Tern
