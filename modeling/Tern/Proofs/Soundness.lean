import Tern.Proofs.Derivations
import Tern.Proofs.Forms

/-!
# Derivations read the rules

Every derivation of the parser's goals reads what the rules of the language read, and makes the
lowered tree of it. `Goal.Effect` says for each goal what the reading of it does to the frames, in
terms of the rules alone. `Run` puts effects together along a row of goals; the alternatives of
every goal do no more than its effect (`effect_of_run`), and hence neither does any derivation
(`run_of_derives`).
-/

namespace Tern

/-- What a row of operators and operands yields. -/
def rowYield (row : List (Part × Part)) : Yield :=
  row.foldr (fun q y => .one q.1 ++ .one q.2 ++ y) .nothing

@[simp] theorem rowYield_nil : rowYield [] = .nothing := rfl

@[simp] theorem rowYield_cons (op operand : Part) (row : List (Part × Part)) :
    rowYield ((op, operand) :: row) = .one op ++ .one operand ++ rowYield row := rfl

/-- A single part that an operand reads. -/
def Atom : Operand := fun ts p => Nonterminal.atom.Reads ts (.one p)

/-- A method as the struct it belongs to will take it. -/
def Part.asImpl : Part → Part
  | ⟨.tree _ cs pos, outer⟩ => ⟨.tree .impl cs pos, outer⟩
  | p => p

def Yield.asImpls (y : Yield) : Yield := ⟨y.parts.map Part.asImpl, y.outer⟩

theorem ofStruct_asImpl (struct : Node) : ∀ p : Part,
    ofStruct struct p.asImpl.node = struct.implOf p.node
  | ⟨.tree .., _⟩ => rfl
  | ⟨.token .., _⟩ => rfl
  | ⟨.stray _, _⟩ => rfl

/-- What the reading of a goal does to the frames. -/
def Goal.Effect : Goal → List Frame → List Lexeme → List Frame → Prop
  | .enter, fs, ts, fs' => ts = [] ∧ fs' = .empty :: fs
  | .leave rule, fs, ts, fs' => ts = [] ∧ fs' = leaveFrame rule fs
  | .chain compared ranged, fs, ts, fs' =>
    ∃ row, Chain operatorLevels Atom (compared, ranged) ts row ∧ fs' = absorb (rowYield row) fs
  | .names label, fs, ts, fs' =>
    ∃ y, (Phrase.separated (.keep .ident)).Reads .lowered ts y ∧ fs' = absorb (y.node label) fs
  | .methods, fs, ts, fs' =>
    ∃ y, (Phrase.many (.rule .method)).Reads .lowered ts y ∧ fs' = absorb y.asImpls fs
  | .afterBraced, fs, ts, fs' =>
    ∃ us vs row y, Chain operatorLevels Atom (false, false) us row ∧
      (row = [] ∧ Goal.afterItem.phrase.Reads .lowered vs y ∨
        Goal.afterSimple.phrase.Reads .lowered vs y) ∧
      ts = us ++ vs ∧ fs' = absorb y (leaveFrame .expression (absorb (rowYield row) fs))
  | g, fs, ts, fs' => ∃ y, g.phrase.Reads .lowered ts y ∧ fs' = absorb y fs

/-- What reading some goals does, one after the other. -/
def Run : List Goal → List Frame → List Lexeme → List Frame → Prop
  | [], fs, ts, fs' => ts = [] ∧ fs' = fs
  | g :: gs, fs, ts, fs' => ∃ us vs mid, g.Effect fs us mid ∧ Run gs mid vs fs' ∧ ts = us ++ vs

section Runs

variable {gs : List Goal} {fs fs' : List Frame} {ts : List Lexeme}

theorem run_append : ∀ {gs hs : List Goal} {fs : List Frame} {ts : List Lexeme},
    Run (gs ++ hs) fs ts fs' ↔
      ∃ us vs mid, Run gs fs us mid ∧ Run hs mid vs fs' ∧ ts = us ++ vs
  | [], hs, fs, ts => by
      constructor
      · exact fun h => ⟨[], ts, fs, ⟨rfl, rfl⟩, h, rfl⟩
      · rintro ⟨_, _, _, ⟨rfl, rfl⟩, h, rfl⟩
        exact h
  | g :: gs, hs, fs, ts => by
      constructor
      · rintro ⟨us, vs, mid, hg, h, rfl⟩
        obtain ⟨us', vs', mid', hgs, hhs, rfl⟩ := run_append.mp h
        exact ⟨us ++ us', vs', mid', ⟨us, us', mid, hg, hgs, rfl⟩, hhs, (List.append_assoc ..).symm⟩
      · rintro ⟨_, vs, mid, ⟨us, us', mid', hg, hgs, rfl⟩, hhs, rfl⟩
        exact ⟨us, us' ++ vs, mid', hg, run_append.mpr ⟨us', vs, mid, hgs, hhs, rfl⟩,
          List.append_assoc ..⟩

theorem run_enter : Run (.enter :: gs) fs ts fs' ↔ Run gs (.empty :: fs) ts fs' := by
  constructor
  · rintro ⟨_, _, _, ⟨rfl, rfl⟩, h, rfl⟩
    exact h
  · exact fun h => ⟨[], ts, _, ⟨rfl, rfl⟩, h, rfl⟩

theorem run_leave {rule : Rule} :
    Run (.leave rule :: gs) fs ts fs' ↔ Run gs (leaveFrame rule fs) ts fs' := by
  constructor
  · rintro ⟨_, _, _, ⟨rfl, rfl⟩, h, rfl⟩
    exact h
  · exact fun h => ⟨[], ts, _, ⟨rfl, rfl⟩, h, rfl⟩

theorem run_singleton {g : Goal} : Run [g] fs ts fs' ↔ g.Effect fs ts fs' := by
  constructor
  · rintro ⟨us, _, _, h, ⟨rfl, rfl⟩, rfl⟩
    rwa [List.append_nil]
  · exact fun h => ⟨ts, [], fs', h, ⟨rfl, rfl⟩, (List.append_nil ts).symm⟩

/-- Goals that do no more than give what their phrase reads to the innermost rule. -/
def Goal.isPlain : Goal → Bool
  | .enter | .leave _ | .chain .. | .methods | .afterBraced => false
  | .names label => label = .params ∨ label = .fields
  | _ => true

theorem reads_of_effect {g : Goal} (hg : g.isPlain) (h : g.Effect fs ts fs') :
    ∃ y, g.phrase.Reads .lowered ts y ∧ fs' = absorb y fs := by
  cases g <;> first
    | exact h
    | cases hg
    | skip
  case names label =>
    obtain ⟨y, hy, rfl⟩ := h
    have hrow : (Phrase.row [.separated (.keep .ident)]).Reads .lowered (ts ++ []) _ :=
      .seq hy .nothing
    rw [List.append_nil, Yield.append_nothing] at hrow
    refine ⟨_, ?_, rfl⟩
    rcases of_decide_eq_true hg with rfl | rfl
    · exact .rule (n := .params) (List.mem_cons_self ..) hrow
    · exact .rule (n := .fields) (List.mem_cons_self ..) hrow

theorem row_of_run : ∀ {gs : List Goal} {fs : List Frame} {ts : List Lexeme},
    (∀ g ∈ gs, g.isPlain) → Run gs fs ts fs' →
    ∃ y, (Phrase.row (gs.map Goal.phrase)).Reads .lowered ts y ∧ fs' = absorb y fs
  | [], fs, ts, _, h => by
      obtain ⟨rfl, rfl⟩ := h
      exact ⟨.nothing, .nothing, (absorb_nothing _).symm⟩
  | g :: gs, fs, _, hplain, ⟨us, vs, mid, hg, h, rfl⟩ => by
      obtain ⟨hfirst, hrest⟩ := List.forall_mem_cons.mp hplain
      obtain ⟨y, hy, rfl⟩ := reads_of_effect hfirst hg
      obtain ⟨z, hz, rfl⟩ := row_of_run hrest h
      exact ⟨y ++ z, .seq hy hz, absorb_absorb ..⟩

/-- What is read between the ends of a rule. -/
theorem row_of_run_enter {rule : Rule} {after : List Goal} (hplain : ∀ g ∈ gs, g.isPlain)
    (h : Run (.enter :: gs ++ .leave rule :: after) fs ts fs') :
    ∃ us vs y, (Phrase.row (gs.map Goal.phrase)).Reads .lowered us y ∧
      Run after (absorb (.one (rule.build y.outer y.parts)) fs) vs fs' ∧ ts = us ++ vs := by
  obtain ⟨us, vs, mid, hgs, h, rfl⟩ := run_append.mp (run_enter.mp h)
  obtain ⟨y, hy, rfl⟩ := row_of_run hplain hgs
  rw [run_leave, leaveFrame_absorb] at h
  exact ⟨us, vs, y, hy, h, rfl⟩

theorem Form.reads_of_run {f : Form} (hf : f.Spells) (hplain : ∀ g ∈ f.goals, g.isPlain)
    {after : List Goal} (h : Run (f.production ++ after) fs ts fs') :
    ∃ us vs y, f.rule.Reads us y ∧ Run after (absorb y fs) vs fs' ∧ ts = us ++ vs := by
  rw [Form.production, List.append_assoc] at h
  obtain ⟨us, vs, y, hy, hafter, rfl⟩ := row_of_run_enter hplain h
  rw [hf.build] at hafter
  exact ⟨us, vs, _, .rule hf.mem hy, hafter, rfl⟩

end Runs

/-! ## Phrases and rules -/

section Phrases

variable {p : Phrase} {n : Nonterminal} {ts us : List Lexeme} {y z : Yield}

theorem reads_row_singleton (h : p.Reads .lowered ts y) :
    (Phrase.row [p]).Reads .lowered ts y := by
  have hrow : (Phrase.row [p]).Reads .lowered (ts ++ []) (y ++ .nothing) := .seq h .nothing
  rwa [List.append_nil, Yield.append_nothing] at hrow

theorem reads_drop {t : Lexeme} {k : TokenKind} (ht : t.kind = k) :
    (Phrase.drop k).Reads .lowered [t] (.skipped t.pos) := ht ▸ .drop t

theorem reads_spliced (hn : n.isSpliced) (ha : ([p], none) ∈ n.alternatives)
    (h : p.Reads .lowered ts y) : n.Reads ts y := by
  have hread := Phrase.Reads.rule ha (reads_row_singleton h)
  rwa [lowered_of_isSpliced hn] at hread

/-- A spliced rule reads what its only phrase reads. -/
theorem reads_of_spliced (hn : n.isSpliced) (ha : n.alternatives = [([p], none)])
    (h : n.Reads ts y) : p.Reads .lowered ts y := by
  cases h with
  | rule hmem h =>
    rw [ha] at hmem
    cases List.mem_singleton.mp hmem
    obtain ⟨_, _, _, _, hp, ⟨rfl, rfl⟩, rfl, rfl⟩ := Phrase.reads_iff_takes.mp h
    rw [lowered_of_isSpliced hn, List.append_nil, Yield.append_nothing]
    exact Phrase.reads_of_takes hp

theorem reads_transparent (hn : n.isTransparent) (ha : ([p], none) ∈ n.alternatives) {q : Part}
    (h : p.Reads .lowered ts (.one q)) : n.Reads ts (.one q) := by
  have hread := Phrase.Reads.rule ha (reads_row_singleton h)
  rwa [lowered_of_isTransparent hn, Yield.thin_one] at hread

theorem reads_separated_cons (hp : p.Reads .lowered ts y) (hmore : p.more.Reads .lowered us z) :
    p.separated.Reads .lowered (ts ++ us) (y ++ z) :=
  .present (.seq hp (reads_row_singleton hmore))

theorem reads_more_nil : p.more.Reads .lowered [] .nothing :=
  .seq .stop (.seq .absent .nothing)

theorem reads_more_comma {t : Lexeme} (ht : t.kind = .comma) (h : p.separated.Reads .lowered ts y) :
    p.more.Reads .lowered (t :: ts) (.skipped t.pos ++ y) := by
  have hcomma := reads_drop ht
  rcases Phrase.reads_iff_takes.mp h with ⟨rfl, rfl⟩ | ⟨ts₁, _, y₁, _, hp,
    ⟨_, _, _, _, ⟨ts₂, _, y₂, _, hmany, ⟨ts₃, _, y₃, _, hcomma', ⟨rfl, rfl⟩, rfl, rfl⟩, rfl, rfl⟩,
      ⟨rfl, rfl⟩, rfl, rfl⟩, rfl, rfl⟩
  · have hread : p.more.Reads .lowered ([] ++ ([t] ++ []))
        (.nothing ++ (.skipped t.pos ++ .nothing)) := .seq .stop (.seq (.present hcomma) .nothing)
    exact hread
  · have hfirst : (Phrase.row [.drop .comma, p]).Reads .lowered ([t] ++ ts₁)
        (.skipped t.pos ++ y₁) := .seq hcomma (reads_row_singleton (Phrase.reads_of_takes hp))
    have hmany' := Phrase.Reads.again hfirst (Phrase.reads_of_takes (p := .many _) hmany)
    have hread : p.more.Reads .lowered _ _ :=
      .seq hmany' (reads_row_singleton (Phrase.reads_of_takes (p := .optional _) hcomma'))
    simpa [Yield.append_assoc] using hread

/-! ### Statements -/

open Phrase in
/-- A statement that others may follow. -/
def separable : Phrase :=
  .either (row [.rule .item, .optional (.drop .semicolon)]) (row [.rule .simple, .drop .semicolon])

theorem reads_statements {ts₁ ts₂ : List Lexeme} {y₁ y₂ : Yield}
    (hmany : (Phrase.many separable).Reads .lowered ts₁ y₁)
    (hlast : (Phrase.optional (.rule .simple)).Reads .lowered ts₂ y₂) :
    Nonterminal.statements.Reads (ts₁ ++ ts₂) (y₁ ++ y₂) := by
  have hread := Phrase.Reads.rule (n := .statements) (List.mem_cons_self ..)
    (.seq hmany (reads_row_singleton hlast))
  rwa [lowered_of_isSpliced rfl] at hread

theorem reads_statements_iff : Nonterminal.statements.Reads ts y ↔ ∃ ts₁ ts₂ y₁ y₂,
    (Phrase.many separable).Reads .lowered ts₁ y₁ ∧
    (Phrase.optional (.rule .simple)).Reads .lowered ts₂ y₂ ∧ ts = ts₁ ++ ts₂ ∧ y = y₁ ++ y₂ := by
  constructor
  · intro h
    cases h with
    | rule ha h =>
      cases List.mem_singleton.mp ha
      obtain ⟨ts₁, _, y₁, _, hmany, ⟨ts₂, _, y₂, _, hlast, ⟨rfl, rfl⟩, rfl, rfl⟩, rfl, rfl⟩ :=
        Phrase.reads_iff_takes.mp h
      rw [lowered_of_isSpliced rfl, List.append_nil, Yield.append_nothing]
      exact ⟨ts₁, ts₂, y₁, y₂, Phrase.reads_of_takes (p := .many _) hmany,
        Phrase.reads_of_takes (p := .optional _) hlast, rfl, rfl⟩
  · rintro ⟨ts₁, ts₂, y₁, y₂, hmany, hlast, rfl, rfl⟩
    exact reads_statements hmany hlast

theorem reads_program_iff : Nonterminal.program.Reads ts y ↔
    ∃ z, Nonterminal.statements.Reads ts z ∧ y = z.node .block := by
  constructor
  · intro h
    cases h with
    | rule ha h =>
      cases List.mem_singleton.mp ha
      exact ⟨_, Phrase.takes_row_singleton.mp (Phrase.reads_iff_takes.mp h), rfl⟩
  · rintro ⟨z, hz, rfl⟩
    exact Phrase.Reads.rule (n := .program) (List.mem_cons_self ..) (reads_row_singleton hz)

theorem reads_statements_nil : Nonterminal.statements.Reads [] .nothing :=
  reads_statements .stop .absent

theorem reads_statements_again (h : separable.Reads .lowered ts y)
    (hrest : Nonterminal.statements.Reads us z) :
    Nonterminal.statements.Reads (ts ++ us) (y ++ z) := by
  obtain ⟨ts₁, ts₂, y₁, y₂, hmany, hlast, rfl, rfl⟩ := reads_statements_iff.mp hrest
  have hread := reads_statements (.again h hmany) hlast
  rwa [List.append_assoc, Yield.append_assoc] at hread

theorem reads_afterItem (h : Nonterminal.statements.Reads ts y) :
    Goal.afterItem.phrase.Reads .lowered ts y := by
  have hread : Goal.afterItem.phrase.Reads .lowered ([] ++ ts) (.nothing ++ y) :=
    .seq .absent (reads_row_singleton h)
  rwa [List.nil_append, Yield.nothing_append] at hread

theorem reads_item (h : Nonterminal.item.Reads ts y)
    (hrest : Goal.afterItem.phrase.Reads .lowered us z) :
    Nonterminal.statements.Reads (ts ++ us) (y ++ z) := by
  obtain ⟨ts₁, _, y₁, _, hsemicolon, ⟨ts₂, _, y₂, _, hstatements, ⟨rfl, rfl⟩, rfl, rfl⟩, rfl,
    rfl⟩ := Phrase.reads_iff_takes.mp hrest
  have hfirst : separable.Reads .lowered (ts ++ ts₁) (y ++ y₁) :=
    .left (.seq h (reads_row_singleton (Phrase.reads_of_takes hsemicolon)))
  have hread := reads_statements_again hfirst hstatements
  simpa [Yield.append_assoc] using hread

theorem reads_simple (h : Nonterminal.simple.Reads ts y)
    (hrest : Goal.afterSimple.phrase.Reads .lowered us z) :
    Nonterminal.statements.Reads (ts ++ us) (y ++ z) := by
  obtain ⟨rfl, rfl⟩ | ⟨ts₁, _, y₁, _, hsemicolon, ⟨ts₂, _, y₂, _, hstatements, ⟨rfl, rfl⟩, rfl,
    rfl⟩, rfl, rfl⟩ := Phrase.reads_iff_takes.mp hrest
  · rw [List.append_nil, Yield.append_nothing]
    exact reads_statements .stop (.present h)
  · have hfirst : separable.Reads .lowered (ts ++ ts₁) (y ++ y₁) :=
      .right (.seq h (reads_row_singleton (Phrase.reads_of_takes hsemicolon)))
    have hread := reads_statements_again hfirst hstatements
    simpa [Yield.append_assoc] using hread

end Phrases

/-! ### Expressions -/

theorem isSome_outer_of_atom {ts : List Lexeme} {p : Part} (h : Atom ts p) : p.outer.isSome := by
  obtain ⟨q, hq, hpos⟩ := single_of_reads rfl h
  cases hq
  exact hpos

theorem reads_expression_of_climbs {ts : List Lexeme} {p : Part}
    (h : Climbs operatorLevels Atom ts p) : Nonterminal.expression.Reads ts (.one p) := by
  have hstep : ∀ {m n : Nonterminal} {level : TokenKind} {A : Operand}, (m, level, n) ∈ ladder →
      (∀ ts p, A ts p → p.outer.isSome ∧ m.Reads ts (.one p)) → ∀ ts p, AtLevel A level ts p →
      p.outer.isSome ∧ n.Reads ts (.one p) := fun hq hA ts p => reads_of_atLevel hq hA
  have hrules : ∀ q ∈ ladder, q ∈ ladder := fun _ hq => hq
  simp only [ladder, List.forall_mem_cons] at hrules
  obtain ⟨hmul, hadd, hdots, hcompare, hand, hor, -⟩ := hrules
  have hproduct := hstep hmul fun ts p h => ⟨isSome_outer_of_atom h, h⟩
  have hrange := hstep hdots (hstep hadd hproduct)
  have hdisjunction := hstep hor (hstep hand (hstep hcompare hrange))
  exact reads_transparent rfl (List.mem_cons_self ..) (hdisjunction ts p h).2

theorem reads_atom_of_takes {ps : List Phrase} (ha : (ps, none) ∈ Nonterminal.atom.alternatives)
    {ts : List Lexeme} {y : Yield} (h : (Phrase.row ps).Reads .lowered ts y) :
    Nonterminal.atom.Reads ts (y.thin (.other "atom")) := .rule ha h

/-- A token is an operand, or a rule in its place. -/
theorem reads_atom_of_single {p : Phrase} (ha : ([p], none) ∈ Nonterminal.atom.alternatives)
    {ts : List Lexeme} {y : Yield} (hy : y.Single) (h : p.Reads .lowered ts y) :
    Nonterminal.atom.Reads ts y := by
  obtain ⟨q, rfl, -⟩ := hy
  exact reads_transparent rfl ha h

section Operands

variable {fs fs' : List Frame} {ts : List Lexeme} {production after : List Goal}

theorem plainOperands_eq : Goal.plainOperands =
    [.number, .string, .trueWord, .falseWord, .ident].map (fun k => [Goal.keep k])
      ++ Form.operands.map Form.production
      ++ [[.enter, .drop .parenOpen, .expression, .drop .parenClose, .leave .group]] := rfl

theorem Form.isPlain_goals : ∀ f ∈ Form.all, ∀ g ∈ f.goals, g.isPlain := by decide

/-- Parentheses leave their only part as it is. -/
theorem thin_eq_group {y : Yield} {p : Part} (h : y.parts = [p]) (label : Label) :
    y.thin label = .one (Rule.group.build y.outer y.parts) := by
  obtain ⟨_, outer⟩ := y
  cases h
  match p with
  | ⟨.tree .., _⟩ => rfl
  | ⟨.token .., _⟩ => rfl
  | ⟨.stray _, _⟩ => rfl

theorem reads_plainOperand (hp : production ∈ Goal.plainOperands)
    (h : Run (production ++ after) fs ts fs') :
    ∃ us vs y, Nonterminal.atom.Reads us y ∧ Run after (absorb y fs) vs fs' ∧ ts = us ++ vs := by
  simp only [plainOperands_eq, List.mem_append, List.mem_map, List.mem_singleton] at hp
  obtain (⟨k, hk, rfl⟩ | ⟨f, hf, rfl⟩) | rfl := hp
  · obtain ⟨_, vs, _, ⟨y, hy, rfl⟩, hafter, rfl⟩ := h
    have ha : ([.keep k], none) ∈ Nonterminal.atom.alternatives := by
      have hall : ∀ k ∈ [TokenKind.number, .string, .trueWord, .falseWord, .ident],
          ([.keep k], none) ∈ Nonterminal.atom.alternatives := by decide
      exact hall k hk
    obtain ⟨t, rfl, rfl, rfl⟩ := Phrase.reads_iff_takes.mp hy
    exact ⟨[t], vs, _, reads_atom_of_single ha ⟨_, rfl, rfl⟩ hy, hafter, rfl⟩
  · have hall : f ∈ Form.all ∧ f.rule = .atom := by
      have hforms : ∀ f ∈ Form.operands, f.rule = .atom := by decide
      exact ⟨by simp [Form.all, hf], hforms f hf⟩
    obtain ⟨us, vs, y, hy, hafter, rfl⟩ :=
      Form.reads_of_run (Form.spells f hall.1) (Form.isPlain_goals f hall.1) h
    rw [hall.2] at hy
    exact ⟨us, vs, y, hy, hafter, rfl⟩
  · have hplain : ∀ g ∈ [Goal.drop .parenOpen, .expression, .drop .parenClose], g.isPlain := by
      decide
    obtain ⟨us, vs, y, hy, hafter, rfl⟩ := row_of_run_enter hplain h
    have hread := reads_atom_of_takes (by decide) hy
    obtain ⟨_, _, _, _, ⟨t, -, rfl, rfl⟩, ⟨_, _, _, _, hinner, ⟨_, _, _, _, ⟨u, -, rfl, rfl⟩,
      ⟨rfl, rfl⟩, rfl, rfl⟩, rfl, rfl⟩, rfl, rfl⟩ := Phrase.reads_iff_takes.mp hy
    obtain ⟨p, rfl, -⟩ := single_of_reads rfl hinner
    rw [thin_eq_group (p := p) rfl] at hread
    exact ⟨_, vs, _, hread, hafter, rfl⟩

theorem parts_of_single {y : Yield} (h : y.Single) : ∃ p, y.parts = [p] := by
  obtain ⟨p, rfl, -⟩ := h
  exact ⟨p, rfl⟩

theorem reads_node_conditional {ps : List Phrase} {label : Label} {y : Yield}
    (ha : (ps, some label) ∈ Nonterminal.conditional.alternatives)
    (h : (Phrase.row ps).Reads .lowered ts y) :
    Nonterminal.conditional.Reads ts (y.node label) := .rule ha h

/-- The number of blocks tells which alternative of a conditional has been read. -/
theorem reads_conditional {y : Yield}
    (h : (Phrase.row [.drop .ifWord, .rule .expression, .rule .block,
      Goal.elsePart.phrase]).Reads .lowered ts y) :
    Nonterminal.conditional.Reads ts (.one (Rule.conditional.build y.outer y.parts)) := by
  obtain ⟨ts₀, _, y₀, _, hif, ⟨ts₁, _, y₁, _, hcond, ⟨ts₂, _, y₂, _, hyes, ⟨_, _, _, _, helse,
    ⟨rfl, rfl⟩, rfl, rfl⟩, rfl, rfl⟩, rfl, rfl⟩, rfl, rfl⟩ := Phrase.reads_iff_takes.mp h
  obtain ⟨t, ht, rfl, rfl⟩ := hif
  have hif := reads_drop ht
  obtain ⟨cond, hcondparts⟩ := parts_of_single (single_of_reads rfl hcond)
  obtain ⟨yes, hyesparts⟩ := parts_of_single (single_of_reads rfl hyes)
  have hbuild : ∀ y : Yield, .one (Rule.conditional.build y.outer y.parts) =
      y.node (if y.parts.length = 3 then .ifThenElse else .ifThen) := fun _ => rfl
  rw [hbuild]
  obtain ⟨rfl, rfl⟩ | ⟨_, _, _, _, ⟨u, hu, rfl, rfl⟩, ⟨_, _, _, _, hno, ⟨rfl, rfl⟩, rfl, rfl⟩, rfl,
    rfl⟩ := helse
  · have hread := reads_node_conditional (List.mem_cons_self ..)
      (.seq hif (.seq hcond (reads_row_singleton hyes)))
    simpa [hcondparts, hyesparts] using hread
  · have hword := reads_drop hu
    obtain ⟨n, hn, ha, hno⟩ : ∃ n : Nonterminal, n.isSingle ∧ ([.drop .ifWord, .rule .expression,
        .rule .block, .drop .elseWord, .rule n], some .ifThenElse) ∈
          Nonterminal.conditional.alternatives ∧ n.Reads _ _ := by
      rcases hno with hno | hno
      · exact ⟨.block, rfl, by decide, hno⟩
      · exact ⟨.conditional, rfl, by decide, hno⟩
    obtain ⟨no, hnoparts⟩ := parts_of_single (single_of_reads hn hno)
    have hread := reads_node_conditional ha
      (.seq hif (.seq hcond (.seq hyes (.seq hword (reads_row_singleton hno)))))
    simpa [hcondparts, hyesparts, hnoparts] using hread

/-- The operands that are statements as well. -/
theorem reads_bracedOperand (hp : production ∈ Goal.bracedOperands)
    (h : Run (production ++ after) fs ts fs') :
    ∃ us vs y n, ([.rule n], none) ∈ Nonterminal.atom.alternatives ∧
      ([.rule n], none) ∈ Nonterminal.item.alternatives ∧ n.isSingle ∧ n.Reads us y ∧
      Run after (absorb y fs) vs fs' ∧ ts = us ++ vs := by
  simp only [Goal.bracedOperands, List.mem_cons, List.not_mem_nil, or_false] at hp
  obtain rfl | rfl | rfl := hp
  · have hplain : ∀ g ∈ [Goal.drop .ifWord, .expression, .block, .elsePart], g.isPlain := by
      decide
    obtain ⟨us, vs, y, hy, hafter, rfl⟩ := row_of_run_enter hplain h
    exact ⟨us, vs, _, .conditional, by decide, by decide, rfl, reads_conditional hy, hafter, rfl⟩
  · have hf : Form.matching ∈ Form.all := by simp [Form.all]
    obtain ⟨us, vs, y, hy, hafter, rfl⟩ :=
      Form.reads_of_run (Form.spells _ hf) (Form.isPlain_goals _ hf) h
    exact ⟨us, vs, y, .matching, by decide, by decide, rfl, hy, hafter, rfl⟩
  · have hf : Form.braced ∈ Form.all := by simp [Form.all]
    obtain ⟨us, vs, y, hy, hafter, rfl⟩ :=
      Form.reads_of_run (Form.spells _ hf) (Form.isPlain_goals _ hf) h
    exact ⟨us, vs, y, .block, by decide, by decide, rfl, hy, hafter, rfl⟩

theorem reads_operand_of_run (hp : production ∈ Goal.operands)
    (h : Run (production ++ after) fs ts fs') :
    ∃ us vs y, Nonterminal.atom.Reads us y ∧ Run after (absorb y fs) vs fs' ∧ ts = us ++ vs := by
  rcases List.mem_append.mp hp with hp | hp
  · exact reads_plainOperand hp h
  · obtain ⟨us, vs, y, n, ha, -, hn, hy, hafter, rfl⟩ := reads_bracedOperand hp h
    exact ⟨us, vs, y, reads_atom_of_single ha (single_of_reads hn hy) hy, hafter, rfl⟩

/-! ### Rows -/

theorem pairOperators_rowYield : ∀ row : List (Part × Part),
    pairOperators (rowYield row).parts = row
  | [] => rfl
  | (op, operand) :: row => by simp [pairOperators, pairOperators_rowYield row]

/-- The end of an expression joins its row. -/
theorem leave_expression (x : Part) (row : List (Part × Part)) :
    leaveFrame .expression (absorb (.one x ++ rowYield row) (.empty :: fs)) =
      absorb (.one (joinExpression x row)) fs := by
  rw [leaveFrame_absorb]
  simp [Rule.build, pairOperators_rowYield]

theorem reads_expression_of_chain {us : List Lexeme} {x : Part} {row : List (Part × Part)}
    (hx : Atom ts x) (hrow : Chain operatorLevels Atom (false, false) us row) :
    Nonterminal.expression.Reads (ts ++ us) (.one (joinExpression x row)) :=
  reads_expression_of_climbs (climbs_iff.mpr ⟨ts, us, x, row, rfl, hx, hrow, rfl⟩)

/-- An expression that starts with one of the operands. -/
theorem reads_expressionFrom {starts : List (List Goal)}
    (hs : ∀ start ∈ starts, start ∈ Goal.operands)
    (hp : production ∈ Goal.expressionFrom starts after) (h : Run production fs ts fs') :
    ∃ us vs y, Nonterminal.expression.Reads us y ∧ Run after (absorb y fs) vs fs' ∧
      ts = us ++ vs := by
  obtain ⟨start, hstart, rfl⟩ := List.mem_map.mp hp
  obtain ⟨us, _, y, hy, ⟨vs, _, _, ⟨row, hrow, rfl⟩, hafter, rfl⟩, rfl⟩ :=
    reads_operand_of_run (hs start hstart) (run_enter.mp h)
  obtain ⟨x, rfl, -⟩ := single_of_reads rfl hy
  rw [run_leave, absorb_absorb, leave_expression x row] at hafter
  exact ⟨us ++ vs, _, _, reads_expression_of_chain hy hrow, hafter, (List.append_assoc ..).symm⟩

/-- At least one operator, and what follows the row. -/
theorem chain_of_continued {compared ranged : Bool}
    (hp : production ∈ Goal.continued compared ranged after) (h : Run production fs ts fs') :
    ∃ us vs row, Chain operatorLevels Atom (compared, ranged) us row ∧
      Run after (absorb (rowYield row) fs) vs fs' ∧ ts = us ++ vs := by
  obtain ⟨⟨k, rest⟩, hop, rfl⟩ := List.mem_map.mp hp
  obtain ⟨hlevel, compared', ranged', rfl⟩ := mem_operators hop
  obtain ⟨_, _, _, ⟨_, hop', rfl⟩, ⟨us, _, _, ⟨y, hy, rfl⟩,
    ⟨vs, ws, _, ⟨row, hrow, rfl⟩, hafter, rfl⟩, rfl⟩, rfl⟩ := h
  obtain ⟨op, rfl, rfl, rfl⟩ := Phrase.reads_iff_takes.mp hop'
  obtain ⟨x, rfl, -⟩ := single_of_reads rfl hy
  rw [absorb_absorb, absorb_absorb] at hafter
  have hopens : Opens (compared, ranged) op.kind (compared', ranged') := hop
  exact ⟨_, ws, _, .cons op hlevel hopens hy hrow, hafter, by simp⟩

end Operands

/-! ## Alternatives of goals -/

section Effects

variable {fs fs' : List Frame} {ts : List Lexeme} {production : List Goal}

theorem effect_nil {g : Goal} (hg : g.Effect fs [] (absorb .nothing fs)) (h : Run [] fs ts fs') :
    g.Effect fs ts fs' := by
  obtain ⟨rfl, rfl⟩ := h
  rwa [absorb_nothing] at hg

/-- An item that others follow. -/
theorem effect_item {us : List Lexeme} {y : Yield} (hy : Nonterminal.item.Reads us y)
    (h : Run [.afterItem] (absorb y fs) ts fs') :
    Goal.statements.Effect fs (us ++ ts) fs' := by
  obtain ⟨z, hz, rfl⟩ := run_singleton.mp h
  exact ⟨y ++ z, reads_item hy hz, absorb_absorb ..⟩

theorem effect_simple {us : List Lexeme} {y : Yield} (hy : Nonterminal.simple.Reads us y)
    (h : Run [.afterSimple] (absorb y fs) ts fs') :
    Goal.statements.Effect fs (us ++ ts) fs' := by
  obtain ⟨z, hz, rfl⟩ := run_singleton.mp h
  exact ⟨y ++ z, reads_simple hy hz, absorb_absorb ..⟩

/-- The end of a struct's methods puts the struct in front of each. -/
theorem build_methods (struct : Part) (outer : Option Pos) (y : Yield) :
    .one (Rule.methods.build outer (struct :: y.asImpls.parts)) =
      Convention.lowered .implBlock none ⟨struct :: y.parts, outer⟩ := by
  simp only [Rule.build, Convention.lowered, implsOf, Yield.asImpls, List.map_map, List.map_cons,
    Function.comp_def, ofStruct_asImpl]

theorem closedItems_eq : Goal.closedItems =
    (Form.closed.take 2).map (fun f => f.production ++ [.afterItem])
      ++ [[.enter, .drop .implWord, .keep .ident, .drop .braceOpen, .methods, .drop .braceClose,
          .leave .methods, .afterItem]]
      ++ (Form.closed.drop 2).map (fun f => f.production ++ [.afterItem]) := rfl

theorem simple_eq : Goal.simple = Form.simple.map (fun f => f.production ++ [.afterSimple])
    ++ Goal.expressionFrom Goal.plainOperands [.afterSimple] := rfl

theorem effect_methods (h : Run [.enter, .drop .implWord, .keep .ident, .drop .braceOpen, .methods,
    .drop .braceClose, .leave .methods, .afterItem] fs ts fs') :
    Goal.statements.Effect fs ts fs' := by
  obtain ⟨_, _, _, ⟨_, ht, rfl⟩, ⟨_, _, _, ⟨_, hu, rfl⟩, ⟨_, _, _, ⟨_, hv, rfl⟩,
    ⟨us, _, _, ⟨y, hy, rfl⟩, ⟨_, vs, _, ⟨_, hw, rfl⟩, h, rfl⟩, rfl⟩, rfl⟩, rfl⟩, rfl⟩ :=
    run_enter.mp h
  have hread := Phrase.Reads.rule (n := .implBlock) (List.mem_cons_self ..)
    (.seq ht (.seq hu (.seq hv (.seq hy (reads_row_singleton hw)))))
  obtain ⟨t, -, rfl, rfl⟩ := Phrase.reads_iff_takes.mp ht
  obtain ⟨u, -, rfl, rfl⟩ := Phrase.reads_iff_takes.mp hu
  obtain ⟨v, -, rfl, rfl⟩ := Phrase.reads_iff_takes.mp hv
  obtain ⟨w, -, rfl, rfl⟩ := Phrase.reads_iff_takes.mp hw
  have hyield : Yield.skipped t.pos ++ (.one u.part ++ (.skipped v.pos ++ (y ++ .skipped w.pos))) =
      ⟨u.part :: y.parts, some t.pos⟩ := by
    ext1 <;> simp
  rw [hyield, ← build_methods] at hread
  simp only [absorb_absorb, run_leave, leaveFrame_absorb] at h
  have hafter : Run [.afterItem] (absorb (.one (Rule.methods.build (some t.pos)
      (u.part :: y.asImpls.parts))) fs) vs fs' := by
    simpa using h
  have heffect := effect_item (reads_spliced rfl (by decide) hread) hafter
  simpa using heffect

/-- A statement that one form spells, and what follows it. -/
theorem reads_of_form {n : Nonterminal} {forms : List Form} (hn : n.isSpliced)
    (hforms : ∀ f ∈ forms, f ∈ Form.all ∧ ([.rule f.rule], none) ∈ n.alternatives) {f : Form}
    (hf : f ∈ forms) {after : List Goal} (h : Run (f.production ++ after) fs ts fs') :
    ∃ us vs y, n.Reads us y ∧ Run after (absorb y fs) vs fs' ∧ ts = us ++ vs := by
  obtain ⟨hall, ha⟩ := hforms f hf
  obtain ⟨us, vs, y, hy, hafter, rfl⟩ :=
    Form.reads_of_run (Form.spells f hall) (Form.isPlain_goals f hall) h
  exact ⟨us, vs, y, reads_spliced hn ha hy, hafter, rfl⟩

theorem effect_closedForm {f : Form} (hf : f ∈ Form.closed)
    (h : Run (f.production ++ [.afterItem]) fs ts fs') : Goal.statements.Effect fs ts fs' := by
  obtain ⟨us, vs, y, hy, hafter, rfl⟩ := reads_of_form (n := .item) rfl (by decide) hf h
  exact effect_item hy hafter

theorem effect_closedItem (hp : production ∈ Goal.closedItems) (h : Run production fs ts fs') :
    Goal.statements.Effect fs ts fs' := by
  simp only [closedItems_eq, List.mem_append, List.mem_map, List.mem_singleton] at hp
  obtain (⟨f, hf, rfl⟩ | rfl) | ⟨f, hf, rfl⟩ := hp
  · exact effect_closedForm (List.mem_of_mem_take hf) h
  · exact effect_methods h
  · exact effect_closedForm (List.mem_of_mem_drop hf) h

theorem effect_simpleForm {f : Form} (hf : f ∈ Form.simple)
    (h : Run (f.production ++ [.afterSimple]) fs ts fs') : Goal.statements.Effect fs ts fs' := by
  obtain ⟨us, vs, y, hy, hafter, rfl⟩ := reads_of_form (n := .simple) rfl (by decide) hf h
  exact effect_simple hy hafter

/-- An operand that ends in a brace is an item, or starts an expression. -/
theorem effect_bracedStatement (hp : production ∈ Goal.bracedOperands)
    (h : Run (.enter :: production ++ [.afterBraced]) fs ts fs') :
    Goal.statements.Effect fs ts fs' := by
  obtain ⟨us, _, y, n, hatom, hitem, hn, hy, hafter, rfl⟩ := reads_bracedOperand hp (run_enter.mp h)
  obtain ⟨vs, ws, row, z, hrow, hend, rfl, rfl⟩ := run_singleton.mp hafter
  obtain ⟨x, rfl, -⟩ := single_of_reads hn hy
  rw [absorb_absorb, leave_expression, absorb_absorb, ← List.append_assoc]
  rcases hend with ⟨rfl, hz⟩ | hz
  · cases hrow
    rw [List.append_nil]
    exact ⟨_, reads_item (reads_spliced rfl hitem hy) hz, rfl⟩
  · have hatom := reads_atom_of_single hatom (single_of_reads hn hy) hy
    have hexpression := reads_expression_of_chain hatom hrow
    exact ⟨_, reads_simple (reads_spliced rfl (by decide) hexpression) hz, rfl⟩

theorem effect_statement (hp : production ∈ Goal.statement) (h : Run production fs ts fs') :
    Goal.statements.Effect fs ts fs' := by
  simp only [Goal.statement, List.mem_append, simple_eq, List.mem_map] at hp
  obtain (hp | ⟨f, hf, rfl⟩ | hp) | ⟨start, hstart, rfl⟩ := hp
  · exact effect_closedItem hp h
  · exact effect_simpleForm hf h
  · have hs : ∀ start ∈ Goal.plainOperands, start ∈ Goal.operands :=
      fun start hstart => List.mem_append_left _ hstart
    obtain ⟨us, vs, y, hy, hafter, rfl⟩ := reads_expressionFrom hs hp h
    exact effect_simple (reads_spliced rfl (by decide) hy) hafter
  · exact effect_bracedStatement hstart h

/-- A first one, and more after it. -/
theorem effect_separated {p : Phrase} {g more : Goal} {us : List Lexeme} {y : Yield}
    (hg : ∀ {ts y}, p.separated.Reads .lowered ts y → g.Effect fs ts (absorb y fs))
    (hmore : more.isPlain ∧ more.phrase = p.more) (hy : p.Reads .lowered us y)
    (h : Run [more] (absorb y fs) ts fs') : g.Effect fs (us ++ ts) fs' := by
  obtain ⟨z, hz, rfl⟩ := reads_of_effect hmore.1 (run_singleton.mp h)
  rw [hmore.2] at hz
  rw [absorb_absorb]
  exact hg (reads_separated_cons hy hz)

/-- Nothing more, or a comma and more of the same. -/
theorem effect_more {p : Phrase} {more next : Goal}
    (hp : production ∈ [[], [.drop .comma, next]]) (h : Run production fs ts fs')
    (hmore : ∀ {ts y}, p.more.Reads .lowered ts y → more.Effect fs ts (absorb y fs))
    (hnext : next.isPlain ∧ ∀ {ts y}, next.phrase.Reads .lowered ts y →
      p.separated.Reads .lowered ts y) : more.Effect fs ts fs' := by
  obtain rfl | hp := List.mem_cons.mp hp
  · exact effect_nil (hmore reads_more_nil) h
  · cases List.mem_singleton.mp hp
    obtain ⟨_, vs, _, ⟨_, hcomma, rfl⟩, hvs, rfl⟩ := h
    obtain ⟨t, ht, rfl, rfl⟩ := Phrase.reads_iff_takes.mp hcomma
    obtain ⟨y, hy, rfl⟩ := reads_of_effect hnext.1 (run_singleton.mp hvs)
    rw [absorb_absorb]
    exact hmore (reads_more_comma ht (hnext.2 hy))

theorem Form.effect_of_run {f : Form} (hf : f ∈ Form.all) (h : Run f.production fs ts fs') :
    ∃ y, f.rule.Reads ts y ∧ fs' = absorb y fs := by
  rw [← List.append_nil f.production] at h
  obtain ⟨us, _, y, hy, ⟨rfl, rfl⟩, rfl⟩ :=
    Form.reads_of_run (Form.spells f hf) (Form.isPlain_goals f hf) h
  rw [List.append_nil]
  exact ⟨y, hy, rfl⟩

theorem effect_afterItem (hp : production ∈ Goal.afterItemAlternatives)
    (h : Run production fs ts fs') : Goal.afterItem.Effect fs ts fs' := by
  simp only [Goal.afterItemAlternatives, List.mem_cons] at hp
  obtain rfl | rfl | hp := hp
  · exact effect_nil ⟨_, reads_afterItem reads_statements_nil, rfl⟩ h
  · obtain ⟨y, hy, rfl⟩ := row_of_run (by decide) h
    obtain ⟨_, _, _, _, ⟨t, ht, rfl, rfl⟩, ⟨_, _, _, _, hstatements, ⟨rfl, rfl⟩, rfl, rfl⟩, rfl,
      rfl⟩ := Phrase.reads_iff_takes.mp hy
    rw [List.append_nil, Yield.append_nothing]
    have hread : Nonterminal.statements.Reads _ _ := hstatements
    exact ⟨_, .seq (.present (reads_drop ht)) (reads_row_singleton hread), rfl⟩
  · obtain ⟨y, hy, rfl⟩ := effect_statement hp h
    exact ⟨y, reads_afterItem hy, rfl⟩

/-- Nothing, or some goals in a row. -/
theorem effect_optional {g : Goal} {gs : List Goal} (hp : production ∈ [[], gs])
    (h : Run production fs ts fs') (hplain : ∀ g' ∈ gs, g'.isPlain)
    (hg : ∀ {ts y}, (Phrase.optional (Phrase.row (gs.map Goal.phrase))).Reads .lowered ts y →
      g.Effect fs ts (absorb y fs)) : g.Effect fs ts fs' := by
  simp only [List.mem_cons, List.not_mem_nil, or_false] at hp
  obtain rfl | rfl := hp
  · exact effect_nil (hg .absent) h
  · obtain ⟨y, hy, rfl⟩ := row_of_run hplain h
    exact hg (.present hy)

theorem effect_afterBraced (hp : production ∈ Goal.afterBraced.productions)
    (h : Run production fs ts fs') : Goal.afterBraced.Effect fs ts fs' := by
  simp only [Goal.productions, List.mem_append, List.mem_map] at hp
  obtain ⟨p, hp, rfl⟩ | hp := hp
  · obtain ⟨y, hy, rfl⟩ := effect_afterItem hp (run_leave.mp h)
    refine ⟨[], ts, [], y, .nil _, .inl ⟨rfl, hy⟩, rfl, ?_⟩
    rw [rowYield_nil, absorb_nothing]
  · obtain ⟨us, vs, row, hrow, hafter, rfl⟩ := chain_of_continued hp h
    obtain ⟨y, hy, rfl⟩ := run_singleton.mp (run_leave.mp hafter)
    exact ⟨us, vs, row, y, hrow, .inr hy, rfl, rfl⟩

theorem effect_alternative (hp : production ∈ Goal.alternative.productions)
    (h : Run production fs ts fs') : Goal.alternative.Effect fs ts fs' := by
  simp only [Goal.productions, List.mem_cons, List.not_mem_nil, or_false] at hp
  obtain rfl | rfl := hp
  · obtain ⟨y, hy, rfl⟩ := Form.braced.effect_of_run (by decide) h
    exact ⟨y, .left hy, rfl⟩
  · have hplain : ∀ g ∈ [Goal.drop .ifWord, .expression, .block, .elsePart], g.isPlain := by
      decide
    obtain ⟨us, _, y, hy, ⟨rfl, rfl⟩, rfl⟩ := row_of_run_enter hplain h
    rw [List.append_nil]
    exact ⟨_, .right (reads_conditional hy), rfl⟩

theorem effect_expression (hp : production ∈ Goal.expression.productions)
    (h : Run production fs ts fs') : Goal.expression.Effect fs ts fs' := by
  obtain ⟨us, _, y, hy, ⟨rfl, rfl⟩, rfl⟩ := reads_expressionFrom (fun _ h => h) hp h
  rw [List.append_nil]
  exact ⟨y, hy, rfl⟩

theorem effect_operand (hp : production ∈ Goal.operand.productions)
    (h : Run production fs ts fs') : Goal.operand.Effect fs ts fs' := by
  rw [← List.append_nil production] at h
  obtain ⟨us, _, y, hy, ⟨rfl, rfl⟩, rfl⟩ := reads_operand_of_run hp h
  rw [List.append_nil]
  exact ⟨y, hy, rfl⟩

theorem effect_chain {compared ranged : Bool}
    (hp : production ∈ (Goal.chain compared ranged).productions) (h : Run production fs ts fs') :
    (Goal.chain compared ranged).Effect fs ts fs' := by
  obtain rfl | hp := List.mem_cons.mp hp
  · exact effect_nil ⟨[], .nil _, rfl⟩ h
  · obtain ⟨us, _, row, hrow, ⟨rfl, rfl⟩, rfl⟩ := chain_of_continued hp h
    rw [List.append_nil]
    exact ⟨row, hrow, rfl⟩

theorem effect_nextName (hp : production ∈ Goal.nextName.productions)
    (h : Run production fs ts fs') : Goal.nextName.Effect fs ts fs' := by
  simp only [Goal.productions, List.mem_cons, List.not_mem_nil, or_false] at hp
  obtain rfl | rfl := hp
  · exact effect_nil ⟨_, .absent, rfl⟩ h
  · obtain ⟨us, vs, _, ⟨y, hy, rfl⟩, hmore, rfl⟩ := h
    exact effect_separated (fun h => ⟨_, h, rfl⟩) ⟨rfl, rfl⟩ hy hmore

/-- A list of names is a node of what may come after a comma. -/
theorem effect_names {label : Label} (hp : production ∈ (Goal.names label).productions)
    (h : Run production fs ts fs') : (Goal.names label).Effect fs ts fs' := by
  have hnode : ∀ {p : List Goal}, p ∈ Goal.nextName.productions →
      Run (.enter :: p ++ [.leave (.node label)]) fs ts fs' →
      (Goal.names label).Effect fs ts fs' := by
    intro p hp h
    obtain ⟨us, vs, _, hus, hvs, rfl⟩ := run_append.mp (run_enter.mp h)
    obtain ⟨y, hy, rfl⟩ := effect_nextName hp hus
    rw [run_leave, leaveFrame_absorb] at hvs
    obtain ⟨rfl, rfl⟩ := hvs
    rw [List.append_nil]
    exact ⟨y, hy, rfl⟩
  simp only [Goal.productions, List.mem_cons, List.not_mem_nil, or_false] at hp
  obtain rfl | rfl := hp
  · exact hnode (List.mem_cons_self ..) h
  · exact hnode (List.mem_cons_of_mem _ (List.mem_cons_self ..)) h

theorem effect_items (hp : production ∈ Goal.items.productions) (h : Run production fs ts fs') :
    Goal.items.Effect fs ts fs' := by
  have hitems : ∀ {fs : List Frame} {ts y},
      (Phrase.rule .expression).separated.Reads .lowered ts y →
      Goal.items.Effect fs ts (absorb y fs) := fun h => ⟨_, reads_spliced rfl (by decide) h, rfl⟩
  obtain rfl | hp := List.mem_cons.mp hp
  · exact effect_nil (hitems .absent) h
  · obtain ⟨us, vs, y, hy, hmore, rfl⟩ := reads_expressionFrom (fun _ h => h) hp h
    exact effect_separated hitems ⟨rfl, rfl⟩ hy hmore

theorem effect_arguments (hp : production ∈ Goal.arguments.productions)
    (h : Run production fs ts fs') : Goal.arguments.Effect fs ts fs' := by
  have hnode : ∀ {p : List Goal}, p ∈ Goal.items.productions →
      Run (.enter :: p ++ [.leave (.node .args)]) fs ts fs' →
      Goal.arguments.Effect fs ts fs' := by
    intro p hp h
    obtain ⟨us, vs, mid, hus, hvs, rfl⟩ := run_append.mp (run_enter.mp h)
    have hargs : Run Form.arguments.production fs (us ++ vs) fs' :=
      run_enter.mpr ⟨us, vs, mid, effect_items hp hus, hvs, rfl⟩
    exact Form.arguments.effect_of_run (by decide) hargs
  obtain rfl | hp := List.mem_cons.mp hp
  · exact hnode (List.mem_cons_self ..) h
  · obtain ⟨_, hfrom, rfl⟩ := List.mem_map.mp hp
    obtain ⟨start, hstart, rfl⟩ := List.mem_map.mp hfrom
    refine hnode (p := .enter :: start ++ [.chain false false, .leave .expression, .moreItems])
      (List.mem_cons_of_mem _ (List.mem_map.mpr ⟨start, hstart, rfl⟩)) ?_
    simpa using h

theorem effect_pairs (hp : production ∈ Goal.pairs.productions) (h : Run production fs ts fs') :
    Goal.pairs.Effect fs ts fs' := by
  have hpairs : ∀ {ts y}, (Phrase.rule .pair).separated.Reads .lowered ts y →
      Goal.pairs.Effect fs ts (absorb y fs) := fun h => ⟨_, reads_spliced rfl (by decide) h, rfl⟩
  simp only [Goal.productions, List.mem_cons, List.not_mem_nil, or_false] at hp
  obtain rfl | rfl := hp
  · exact effect_nil (hpairs .absent) h
  · have hf : Form.pair ∈ Form.all := by decide
    obtain ⟨us, vs, y, hy, hmore, rfl⟩ :=
      Form.reads_of_run (Form.spells _ hf) (Form.isPlain_goals _ hf) h
    exact effect_separated hpairs ⟨rfl, rfl⟩ hy hmore

theorem effect_arms (hp : production ∈ Goal.arms.productions) (h : Run production fs ts fs') :
    Goal.arms.Effect fs ts fs' := by
  have harms : ∀ {ts y}, (Phrase.rule .case).separated.Reads .lowered ts y →
      Goal.arms.Effect fs ts (absorb y fs) := fun h => ⟨_, h, rfl⟩
  obtain rfl | hp := List.mem_cons.mp hp
  · exact effect_nil (harms .absent) h
  · obtain ⟨production, hfrom, rfl⟩ := List.mem_map.mp hp
    obtain ⟨us, vs, y, hy, hafter, rfl⟩ :=
      reads_expressionFrom (fun _ h => h) hfrom (run_enter.mp h)
    have hcase : Run (Form.case.production ++ [.moreArms]) fs (us ++ vs) fs' :=
      run_enter.mpr ⟨us, vs, _, ⟨y, hy, rfl⟩, hafter, rfl⟩
    have hf : Form.case ∈ Form.all := by decide
    obtain ⟨us', vs', z, hz, hmore, hts⟩ :=
      Form.reads_of_run (Form.spells _ hf) (Form.isPlain_goals _ hf) hcase
    rw [hts]
    exact effect_separated harms ⟨rfl, rfl⟩ hz hmore

theorem effect_method (hp : production ∈ Goal.methods.productions)
    (h : Run production fs ts fs') : Goal.methods.Effect fs ts fs' := by
  simp only [Goal.productions, List.mem_cons, List.not_mem_nil, or_false] at hp
  obtain rfl | rfl := hp
  · exact effect_nil ⟨_, .stop, rfl⟩ h
  · have hplain : ∀ g ∈ [Goal.drop .fnWord, .keep .ident, .drop .parenOpen, .names .params,
        .drop .parenClose, .block], g.isPlain := by decide
    obtain ⟨us, vs, y, hy, hafter, rfl⟩ := row_of_run_enter hplain h
    obtain ⟨z, hz, rfl⟩ := run_singleton.mp hafter
    have hread : Nonterminal.method.Reads us _ := .rule (List.mem_cons_self ..) hy
    exact ⟨_, .again hread hz, absorb_absorb ..⟩

theorem effect_block (hp : production ∈ Goal.block.productions) (h : Run production fs ts fs') :
    Goal.block.Effect fs ts fs' := by
  cases List.mem_singleton.mp hp
  exact Form.braced.effect_of_run (by decide) h

theorem effect_statements (hp : production ∈ Goal.statements.productions)
    (h : Run production fs ts fs') : Goal.statements.Effect fs ts fs' := by
  obtain rfl | hp := List.mem_cons.mp hp
  · exact effect_nil ⟨_, reads_statements_nil, rfl⟩ h
  · exact effect_statement hp h

/-- The alternatives of a goal do no more than its effect. -/
theorem effect_of_run : ∀ (g : Goal), production ∈ g.productions → Run production fs ts fs' →
    g.Effect fs ts fs'
  | .statements, hp, h => effect_statements hp h
  | .afterItem, hp, h => effect_afterItem hp h
  | .afterSimple, hp, h => effect_optional hp h (by decide) fun h => ⟨_, h, rfl⟩
  | .afterBraced, hp, h => effect_afterBraced hp h
  | .block, hp, h => effect_block hp h
  | .elsePart, hp, h => effect_optional hp h (by decide) fun h => ⟨_, h, rfl⟩
  | .alternative, hp, h => effect_alternative hp h
  | .expression, hp, h => effect_expression hp h
  | .operand, hp, h => effect_operand hp h
  | .chain _ _, hp, h => effect_chain hp h
  | .names _, hp, h => effect_names hp h
  | .nextName, hp, h => effect_nextName hp h
  | .moreNames, hp, h => effect_more hp h (fun h => ⟨_, h, rfl⟩) ⟨rfl, fun h => h⟩
  | .arguments, hp, h => effect_arguments hp h
  | .items, hp, h => effect_items hp h
  | .moreItems, hp, h => effect_more hp h (fun h => ⟨_, h, rfl⟩)
      ⟨rfl, fun h => reads_of_spliced rfl rfl h⟩
  | .pairs, hp, h => effect_pairs hp h
  | .morePairs, hp, h => effect_more hp h (fun h => ⟨_, h, rfl⟩)
      ⟨rfl, fun h => reads_of_spliced rfl rfl h⟩
  | .arms, hp, h => effect_arms hp h
  | .moreArms, hp, h => effect_more hp h (fun h => ⟨_, h, rfl⟩) ⟨rfl, fun h => h⟩
  | .methods, hp, h => effect_method hp h

end Effects

/-! ## Derivations -/

/-- A derivation does what the goals should do. -/
theorem run_of_derives {gs : List Goal} {fs fs' : List Frame} {ts : List Lexeme}
    (h : Derives gs fs ts fs') : Run gs fs ts fs' := by
  induction h with
  | done fs => exact ⟨rfl, rfl⟩
  | keep t _ ih =>
      rw [addPart_eq] at ih
      exact ⟨[t], _, _, ⟨_, .keep t, rfl⟩, ih, rfl⟩
  | drop t _ ih =>
      rw [addPos_eq] at ih
      exact ⟨[t], _, _, ⟨_, .drop t, rfl⟩, ih, rfl⟩
  | enter _ ih => exact run_enter.mpr ih
  | leave rule _ ih => exact run_leave.mpr ih
  | expand hp _ ih =>
      obtain ⟨us, vs, mid, hproduction, hrest, rfl⟩ := run_append.mp ih
      exact ⟨us, vs, mid, effect_of_run _ hp hproduction, hrest, rfl⟩

/-- What the parser derives is a program. -/
theorem reads_of_derives {fs fs' : List Frame} {ts : List Lexeme}
    (h : Derives Goal.program fs ts fs') :
    ∃ y, Nonterminal.program.Reads ts y ∧ fs' = absorb y fs :=
  Form.program.effect_of_run (by decide) (run_of_derives h)

end Tern
