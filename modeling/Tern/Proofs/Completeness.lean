import Tern.Proofs.Soundness

/-!
# Derivations of what the rules read

Whatever the rules of the language read, the parser's goals derive, with the same lowered tree.
The induction is on what is read. A rule that becomes a goal is derived from that goal, and one
whose alternatives the parser has multiplied out from the productions it has become
(`Derivable`). Statements are the one place where the parser decides late: an item or a simple
statement is derived together with whatever may follow it.
-/

namespace Tern

/-! ## What goals yield -/

/-- The goals derive the tokens, and yield this. -/
def Admits (gs : List Goal) (ts : List Lexeme) (y : Yield) : Prop :=
  ∀ fs, Derives gs fs ts (absorb y fs)

section Admits

variable {gs hs : List Goal} {ts us : List Lexeme} {y z : Yield}

theorem admits_nil : Admits [] [] .nothing := fun fs => by
  rw [absorb_nothing]
  exact .done fs

theorem Admits.append (h : Admits gs ts y) (hrest : Admits hs us z) :
    Admits (gs ++ hs) (ts ++ us) (y ++ z) := fun fs => by
  rw [← absorb_absorb]
  exact (h fs).append (hrest _)

theorem admits_keep {t : Lexeme} {k : TokenKind} (ht : t.kind = k) :
    Admits [.keep k] [t] (.one t.part) := fun fs => by
  rw [← ht, ← addPart_eq]
  exact .keep t (.done _)

theorem admits_drop {t : Lexeme} {k : TokenKind} (ht : t.kind = k) :
    Admits [.drop k] [t] (.skipped t.pos) := fun fs => by
  rw [← ht, ← addPos_eq]
  exact .drop t (.done _)

theorem Admits.expand {g : Goal} (hp : gs ∈ g.productions) (h : Admits gs ts y) :
    Admits [g] ts y := fun fs => .of_production hp (h fs)

/-- A goal that has all productions of another, multiplied out. -/
theorem Admits.multiplied {g g' : Goal} {before after : List Goal} (hg : g.productions ≠ [])
    (hp : ∀ p ∈ g.productions, before ++ p ++ after ∈ g'.productions)
    (h : Admits (before ++ g :: after) ts y) : Admits [g'] ts y := fun fs => by
  obtain ⟨us, _, mid, hbefore, hd, rfl⟩ := (h fs).split rfl
  obtain ⟨vs, ws, mid', hmid, hafter, rfl⟩ := hd.split (rfl : _ = [g] ++ _)
  obtain ⟨p, hmem, hproduction⟩ := exists_production hg hmid
  have hall := (hbefore.append hproduction).append hafter
  rw [List.append_assoc us] at hall
  exact .of_production (hp p hmem) hall

end Admits

/-! ## What rules become -/

/-- A single part that some production of an operand yields. -/
def Start : Operand := fun ts p => ∃ start ∈ Goal.operands, Admits start ts (.one p)

/-- The operators that the expressions of a rule may have. -/
def Nonterminal.levels : Nonterminal → List TokenKind
  | atom => []
  | product => [.mulOp]
  | sum => [.mulOp, .addOp]
  | range => [.mulOp, .addOp, .dots]
  | comparison => [.mulOp, .addOp, .dots, .compareOp]
  | conjunction => [.mulOp, .addOp, .dots, .compareOp, .andOp]
  | _ => operatorLevels

/-- How the parser's goals derive what a rule reads. -/
def Derivable : Nonterminal → List Lexeme → Yield → Prop
  | .program, ts, y => Admits Goal.program ts y
  | .statements, ts, y => Admits [.statements] ts y
  | .item, ts, y => ∀ us z, Admits [.afterItem] us z → Admits [.statements] (ts ++ us) (y ++ z)
  | .simple, ts, y =>
    ∀ us z, Admits [.afterSimple] us z → Admits [.statements] (ts ++ us) (y ++ z)
  | .block, ts, y => Admits Goal.braced ts y
  | .conditional, ts, y => Admits Goal.conditional ts y
  | .matching, ts, y => Admits Goal.matching ts y
  | .funDef, ts, y | .structDef, ts, y | .implBlock, ts, y | .whileLoop, ts, y
  | .forLoop, ts, y => ∃ p, p ++ [.afterItem] ∈ Goal.closedItems ∧ Admits p ts y
  | .assign, ts, y | .setVar, ts, y | .inPlace, ts, y =>
    ∃ p, p ++ [.afterSimple] ∈ Goal.simple ∧ Admits p ts y
  | .method, ts, y => ∃ p, p ++ [.methods] ∈ Goal.methods.productions ∧ Admits p ts y.asImpls
  | .params, ts, y => Admits [.names .params] ts y
  | .fields, ts, y => Admits [.names .fields] ts y
  | .args, ts, y => Admits [.arguments] ts y
  | .expressions, ts, y => Admits [.items] ts y
  | .pairs, ts, y => Admits [.pairs] ts y
  | .pair, ts, y => Admits Form.pair.production ts y
  | .case, ts, y => Admits Form.case.production ts y
  | .expression, ts, y => (Climbs operatorLevels Start).Placed ts y
  | n, ts, y => (Climbs n.levels Start).Placed ts y

/-- What a rule reads and the goals derive. -/
def Both (n : Nonterminal) (ts : List Lexeme) (y : Yield) : Prop := n.Reads ts y ∧ Derivable n ts y

section Derivable

variable {ts us : List Lexeme} {y z : Yield}

/-! ### Expressions -/

theorem admits_chain {s : RowState} {row : List (Part × Part)}
    (h : Chain operatorLevels Start s ts row) : Admits [.chain s.1 s.2] ts (rowYield row) := by
  induction h with
  | nil s => exact admits_nil.expand (List.mem_cons_self ..)
  | @cons s s' ts us operand row op _ hop ho _ ih =>
      obtain ⟨start, hstart, hs⟩ := ho
      have hp : [.keep op.kind, .operand, .chain s'.1 s'.2] ∈
          (Goal.chain s.1 s.2).productions :=
        List.mem_cons_of_mem _ (List.mem_map.mpr ⟨_, hop, rfl⟩)
      have hoperand : Admits [.operand] ts (.one operand) := hs.expand hstart
      have hrow := (admits_keep (t := op) rfl).append (hoperand.append ih)
      rw [← Yield.append_assoc] at hrow
      exact hrow.expand hp

/-- An expression is an operand and a row. -/
theorem exists_row (h : Derivable .expression ts y) : ∃ ts₁ ts₂ x row, ts = ts₁ ++ ts₂ ∧
    Start ts₁ x ∧ Admits [.chain false false] ts₂ (rowYield row) ∧
    y = .one (joinExpression x row) := by
  obtain ⟨p, rfl, -, hp⟩ := h
  obtain ⟨ts₁, ts₂, x, row, rfl, hx, hrow, rfl⟩ := climbs_iff.mp hp
  exact ⟨ts₁, ts₂, x, row, rfl, hx, admits_chain hrow, rfl⟩

/-- The end of an expression, after an operand and a row. -/
theorem derives_leave_expression {start after : List Goal} {x : Part} {row : List (Part × Part)}
    {vs : List Lexeme} (hs : Admits start ts (.one x))
    (hrow : Admits [.chain false false] us (rowYield row))
    (hafter : Admits after vs z) :
    Admits (.enter :: start ++ .chain false false :: .leave .expression :: after)
      (ts ++ us ++ vs) (.one (joinExpression x row) ++ z) := fun fs => by
  have hd := (hs (.empty :: fs)).append (hrow _)
  rw [absorb_absorb] at hd
  have hleave : Derives (.leave .expression :: after)
      (absorb (.one x ++ rowYield row) (.empty :: fs)) vs
      (absorb (.one (joinExpression x row) ++ z) fs) := by
    refine .leave _ ?_
    rw [leave_expression, ← absorb_absorb]
    exact hafter _
  have hall := Derives.enter (hd.append hleave)
  simpa using hall

theorem admits_expression (h : Derivable .expression ts y) : Admits [.expression] ts y := by
  obtain ⟨ts₁, ts₂, x, row, rfl, ⟨start, hstart, hs⟩, hrow, rfl⟩ := exists_row h
  have hall := derives_leave_expression hs hrow admits_nil
  rw [List.append_nil, Yield.append_nothing] at hall
  exact hall.expand (List.mem_map.mpr ⟨start, hstart, rfl⟩)

/-! ### Lists -/

/-- Lists with commas between, and perhaps one at the end. -/
theorem admits_separated {C : Nonterminal → List Lexeme → Yield → Prop} {p : Phrase}
    {first more : Goal} (hfirst : [] ∈ first.productions)
    (hmore : [] ∈ more.productions ∧ [.drop .comma, first] ∈ more.productions)
    (hcons : ∀ ts us y z, p.Takes C ts y → Admits [more] us z →
      Admits [first] (ts ++ us) (y ++ z)) :
    (∀ ts y, p.more.Takes C ts y → Admits [more] ts y) ∧
      ∀ ts y, p.separated.Takes C ts y → Admits [first] ts y := by
  have hcomma : ∀ (t : Lexeme) ts y, t.kind = .comma → Admits [first] ts y →
      Admits [more] (t :: ts) (.skipped t.pos ++ y) := by
    intro t ts y ht h
    exact ((admits_drop ht).append h).expand hmore.2
  have hmany : ∀ ts y, Repeats ((Phrase.row [.drop .comma, p]).Takes C) ts y → ∀ us z,
      (Phrase.optional (.drop .comma)).Takes C us z → Admits [more] (ts ++ us) (y ++ z) := by
    intro ts y h
    induction h with
    | stop =>
        rintro us z (⟨rfl, rfl⟩ | ⟨t, ht, rfl, rfl⟩)
        · exact admits_nil.expand hmore.1
        · simpa using hcomma t [] .nothing ht (admits_nil.expand hfirst)
    | again h _ ih =>
        intro us z hlast
        obtain ⟨_, _, _, _, ⟨t, ht, rfl, rfl⟩, ⟨ts₁, _, y₁, _, hp, ⟨rfl, rfl⟩, rfl, rfl⟩, rfl,
          rfl⟩ := h
        have hrest := hcomma t _ _ ht (hcons _ _ _ _ hp (ih us z hlast))
        simpa [Yield.append_assoc] using hrest
  have hmore' : ∀ ts y, p.more.Takes C ts y → Admits [more] ts y := by
    rintro _ _ ⟨ts₁, _, y₁, _, h, ⟨ts₂, _, y₂, _, hlast, ⟨rfl, rfl⟩, rfl, rfl⟩, rfl, rfl⟩
    rw [List.append_nil, Yield.append_nothing]
    exact hmany _ _ h _ _ hlast
  refine ⟨hmore', ?_⟩
  rintro _ _ (⟨rfl, rfl⟩ | ⟨ts₁, _, y₁, _, hp, ⟨ts₂, _, y₂, _, h, ⟨rfl, rfl⟩, rfl, rfl⟩, rfl, rfl⟩)
  · exact admits_nil.expand hfirst
  · rw [List.append_nil, Yield.append_nothing]
    exact hcons _ _ _ _ hp (hmore' _ _ h)

/-- A goal that starts with an expression, multiplied out. -/
theorem Admits.multiplied_expression {g : Goal} {before after : List Goal}
    (hp : ∀ start ∈ Goal.operands, before ++ (.enter :: start ++
      .chain false false :: .leave .expression :: after) ∈ g.productions)
    (h : Admits (before ++ .expression :: after) ts y) : Admits [g] ts y := by
  have hne : Goal.expression.productions ≠ [] := List.cons_ne_nil _ _
  refine h.multiplied hne fun p hmem => ?_
  obtain ⟨start, hstart, rfl⟩ := List.mem_map.mp hmem
  simpa using hp start hstart

theorem admits_items :
    (∀ ts y, (Phrase.rule .expression).more.Takes Both ts y → Admits [.moreItems] ts y) ∧
      ∀ ts y, (Phrase.rule .expression).separated.Takes Both ts y → Admits [.items] ts y := by
  refine admits_separated (List.mem_cons_self ..) (by decide) fun ts us y z hp hmore => ?_
  have hall : Admits ([] ++ .expression :: [.moreItems]) (ts ++ us) (y ++ z) :=
    (admits_expression hp.2).append hmore
  refine hall.multiplied_expression fun start hstart => ?_
  exact List.mem_cons_of_mem _ (List.mem_map.mpr ⟨start, hstart, rfl⟩)

theorem admits_names :
    (∀ ts y, (Phrase.keep .ident).more.Takes Both ts y → Admits [.moreNames] ts y) ∧
      ∀ ts y, (Phrase.keep .ident).separated.Takes Both ts y → Admits [.nextName] ts y := by
  refine admits_separated (List.mem_cons_self ..) (by decide) ?_
  rintro _ us _ z ⟨t, ht, rfl, rfl⟩ hmore
  exact ((admits_keep ht).append hmore).expand (by decide)

theorem admits_pairs :
    (∀ ts y, (Phrase.rule .pair).more.Takes Both ts y → Admits [.morePairs] ts y) ∧
      ∀ ts y, (Phrase.rule .pair).separated.Takes Both ts y → Admits [.pairs] ts y := by
  refine admits_separated (List.mem_cons_self ..) (by decide) fun ts us y z hp hmore => ?_
  have hpair : Admits Form.pair.production ts y := hp.2
  exact (hpair.append hmore).expand (by decide)

theorem admits_arms :
    (∀ ts y, (Phrase.rule .case).more.Takes Both ts y → Admits [.moreArms] ts y) ∧
      ∀ ts y, (Phrase.rule .case).separated.Takes Both ts y → Admits [.arms] ts y := by
  refine admits_separated (List.mem_cons_self ..) (by decide) fun ts us y z hp hmore => ?_
  have hcase : Admits Form.case.production ts y := hp.2
  have hall : Admits ([.enter] ++ .expression ::
      [.drop .arrow, .expression, .leave (.node .case), .moreArms]) (ts ++ us) (y ++ z) :=
    hcase.append hmore
  refine hall.multiplied_expression fun start hstart => ?_
  exact List.mem_cons_of_mem _ (List.mem_map.mpr
    ⟨_, List.mem_map.mpr ⟨start, hstart, rfl⟩, rfl⟩)

/-! ### Goals -/

theorem admits_of_alternative
    (h : (Phrase.either (.rule .block) (.rule .conditional)).Takes Both ts y) :
    Admits [.alternative] ts y := by
  rcases h with h | h
  · have hbraced : Admits Goal.braced ts y := h.2
    exact hbraced.expand (List.mem_cons_self ..)
  · have hconditional : Admits Goal.conditional ts y := h.2
    exact hconditional.expand (List.mem_cons_of_mem _ (List.mem_cons_self ..))

theorem Admits.afterItem (h : Admits [.statements] ts y) : Admits [.afterItem] ts y := by
  have hne : Goal.statements.productions ≠ [] := List.cons_ne_nil _ _
  have hall : Admits ([] ++ .statements :: []) ts y := h
  refine hall.multiplied hne fun p hp => ?_
  rw [List.nil_append, List.append_nil]
  rcases List.mem_cons.mp hp with rfl | hp
  · exact List.mem_cons_self ..
  · exact List.mem_cons_of_mem _ (List.mem_cons_of_mem _ hp)

theorem admits_semicolon {t : Lexeme} (ht : t.kind = .semicolon) (h : Admits [.statements] ts y) :
    Admits [.drop .semicolon, .statements] (t :: ts) (.skipped t.pos ++ y) :=
  (admits_drop ht).append h

/-- A goal derives what its phrase reads. -/
theorem admits_phrase {g : Goal} (hg : g.isPlain) (h : g.phrase.Takes Both ts y) :
    Admits [g] ts y := by
  cases g <;> first
    | exact absurd hg Bool.false_ne_true
    | exact h.2
    | skip
  case keep =>
    obtain ⟨t, ht, rfl, rfl⟩ := h
    exact admits_keep ht
  case drop =>
    obtain ⟨t, ht, rfl, rfl⟩ := h
    exact admits_drop ht
  case afterItem =>
    obtain ⟨_, _, _, _, ⟨rfl, rfl⟩ | ⟨t, ht, rfl, rfl⟩,
      ⟨_, _, _, _, ⟨-, hrest⟩, ⟨rfl, rfl⟩, rfl, rfl⟩, rfl, rfl⟩ := h
    · rw [List.append_nil, Yield.append_nothing]
      exact Admits.afterItem hrest
    · rw [List.append_nil, Yield.append_nothing]
      exact (admits_semicolon ht hrest).expand
        (List.mem_cons_of_mem _ (List.mem_cons_self ..))
  case afterSimple =>
    obtain ⟨rfl, rfl⟩ | ⟨_, _, _, _, ⟨t, ht, rfl, rfl⟩,
      ⟨_, _, _, _, ⟨-, hrest⟩, ⟨rfl, rfl⟩, rfl, rfl⟩, rfl, rfl⟩ := h
    · exact admits_nil.expand (List.mem_cons_self ..)
    · rw [List.append_nil, Yield.append_nothing]
      exact (admits_semicolon ht hrest).expand
        (List.mem_cons_of_mem _ (List.mem_cons_self ..))
  case block =>
    have hbraced : Admits Goal.braced ts y := h.2
    exact hbraced.expand (List.mem_cons_self ..)
  case elsePart =>
    obtain ⟨rfl, rfl⟩ | ⟨_, _, _, _, ⟨t, ht, rfl, rfl⟩,
      ⟨_, _, _, _, hrest, ⟨rfl, rfl⟩, rfl, rfl⟩, rfl, rfl⟩ := h
    · exact admits_nil.expand (List.mem_cons_self ..)
    · rw [List.append_nil, Yield.append_nothing]
      exact ((admits_drop ht).append (admits_of_alternative hrest)).expand
        (List.mem_cons_of_mem _ (List.mem_cons_self ..))
  case alternative => exact admits_of_alternative h
  case expression => exact admits_expression h.2
  case operand =>
    obtain ⟨p, rfl, -, start, hstart, hs⟩ := h.2
    exact hs.expand hstart
  case names label =>
    rcases of_decide_eq_true hg with rfl | rfl
    · exact h.2
    · exact h.2
  case moreNames => exact admits_names.1 _ _ h
  case nextName => exact admits_names.2 _ _ h
  case moreItems => exact admits_items.1 _ _ h
  case morePairs => exact admits_pairs.1 _ _ h
  case arms => exact admits_arms.2 _ _ h
  case moreArms => exact admits_arms.1 _ _ h

theorem admits_row : ∀ {gs : List Goal} {ts : List Lexeme} {y : Yield}, (∀ g ∈ gs, g.isPlain) →
    (Phrase.row (gs.map Goal.phrase)).Takes Both ts y → Admits gs ts y
  | [], _, _, _, ⟨rfl, rfl⟩ => admits_nil
  | g :: gs, _, _, hplain, ⟨_, _, _, _, hg, hgs, rfl, rfl⟩ => by
      obtain ⟨hfirst, hrest⟩ := List.forall_mem_cons.mp hplain
      exact (admits_phrase hfirst hg).append (admits_row hrest hgs)

/-- Goals between the ends of a rule. -/
theorem Admits.closed {gs : List Goal} (h : Admits gs ts y) (rule : Rule) :
    Admits (.enter :: gs ++ [.leave rule]) ts (.one (rule.build y.outer y.parts)) := fun fs => by
  have hleave : Derives [.leave rule] (absorb y (.empty :: fs)) []
      (absorb (.one (rule.build y.outer y.parts)) fs) := by
    refine .leave rule ?_
    rw [leaveFrame_absorb]
    exact .done _
  have hall := Derives.enter ((h (.empty :: fs)).append hleave)
  rwa [List.append_nil] at hall

theorem Form.admits {f : Form} (hf : f ∈ Form.all) (h : (Phrase.row f.phrases).Takes Both ts y) :
    Admits f.production ts (Convention.lowered f.rule f.alias? y) := by
  rw [← (Form.spells f hf).build]
  exact (admits_row (Form.isPlain_goals f hf) h).closed f.closing

/-! ### Statements -/

/-- An item that ends in a brace for good. -/
theorem derivable_closedItem {p : List Goal} (hp : p ++ [.afterItem] ∈ Goal.closedItems)
    (h : Admits p ts y) : Derivable .item ts y := by
  intro us z hrest
  refine (h.append hrest).expand (List.mem_cons_of_mem _ ?_)
  exact List.mem_append_left _ (List.mem_append_left _ hp)

/-- Nothing continues the expression. -/
theorem derives_afterBraced_item {fs fs' : List Frame}
    (h : Derives [.afterItem] (leaveFrame .expression fs) us fs') :
    Derives [.afterBraced] fs us fs' := by
  have hne : Goal.afterItem.productions ≠ [] := List.cons_ne_nil _ _
  obtain ⟨p, hp, hd⟩ := exists_production hne h
  have hmem : .leave .expression :: p ∈ Goal.afterBraced.productions :=
    List.mem_append_left _ (List.mem_map_of_mem hp)
  exact .of_production hmem (.leave _ hd)

/-- A row continues the expression, or is empty. -/
theorem derives_afterBraced_simple {fs fs' : List Frame} {vs : List Lexeme}
    (hrow : Derives [.chain false false] fs us (absorb y fs))
    (h : Derives [.afterSimple] (leaveFrame .expression (absorb y fs)) vs fs') :
    Derives [.afterBraced] fs (us ++ vs) fs' := by
  have hne : (Goal.chain false false).productions ≠ [] := List.cons_ne_nil _ _
  obtain ⟨p, hp, hd⟩ := exists_production hne hrow
  rcases List.mem_cons.mp hp with rfl | hp
  · generalize absorb y fs = mid at hd h
    cases hd
    have hne : Goal.afterSimple.productions ≠ [] := List.cons_ne_nil _ _
    obtain ⟨p, hp, hd⟩ := exists_production hne h
    have hmem : p ∈ Goal.afterItem.productions := by
      simp only [Goal.productions, List.mem_cons, List.not_mem_nil, or_false] at hp
      rcases hp with rfl | rfl
      · exact List.mem_cons_self ..
      · exact List.mem_cons_of_mem _ (List.mem_cons_self ..)
    exact derives_afterBraced_item (.of_production hmem hd)
  · obtain ⟨q, hq, rfl⟩ := List.mem_map.mp hp
    have hmem : [.keep q.1, .operand, q.2, .leave .expression, .afterSimple] ∈
        Goal.afterBraced.productions :=
      List.mem_append_right _ (List.mem_map.mpr ⟨q, hq, rfl⟩)
    exact .expand hmem (hd.append (.leave _ h))

/-- A statement that starts with an operand that ends in a brace. -/
theorem derives_bracedStatement {start : List Goal} (hstart : start ∈ Goal.bracedOperands)
    (hs : Admits start ts y) {fs fs' : List Frame}
    (h : Derives [.afterBraced] (absorb y (.empty :: fs)) us fs') :
    Derives [.statements] fs (ts ++ us) fs' := by
  have hmem : .enter :: start ++ [.afterBraced] ∈ Goal.statements.productions :=
    List.mem_cons_of_mem _ (List.mem_append_right _ (List.mem_map_of_mem hstart))
  exact .of_production hmem (.enter ((hs _).append h))

/-- An item that is an operand as well. -/
theorem derivable_bracedItem {start : List Goal} (hstart : start ∈ Goal.bracedOperands)
    (hy : y.Single) (h : Admits start ts y) : Derivable .item ts y := by
  obtain ⟨x, rfl, -⟩ := hy
  intro us z hrest fs
  refine derives_bracedStatement hstart h (derives_afterBraced_item ?_)
  have hleave : leaveFrame .expression (absorb (.one x) (.empty :: fs)) =
      absorb (.one (joinExpression x [])) fs := by
    rw [← leave_expression, rowYield_nil, Yield.append_nothing]
  rw [hleave, ← absorb_absorb]
  exact hrest _

theorem derivable_simpleForm {p : List Goal} (hp : p ++ [.afterSimple] ∈ Goal.simple)
    (h : Admits p ts y) : Derivable .simple ts y := by
  intro us z hrest
  refine (h.append hrest).expand (List.mem_cons_of_mem _ ?_)
  exact List.mem_append_left _ (List.mem_append_right _ hp)

/-- An expression that is a statement. -/
theorem derivable_simple_of_expression (h : Derivable .expression ts y) :
    Derivable .simple ts y := by
  obtain ⟨ts₁, ts₂, x, row, rfl, ⟨start, hstart, hs⟩, hrow, rfl⟩ := exists_row h
  intro us z hrest
  rcases List.mem_append.mp hstart with hstart | hstart
  · refine (derives_leave_expression hs hrow hrest).expand (List.mem_cons_of_mem _ ?_)
    exact List.mem_append_left _ (List.mem_append_right _ (List.mem_append_right _
      (List.mem_map.mpr ⟨start, hstart, rfl⟩)))
  · intro fs
    rw [List.append_assoc]
    refine derives_bracedStatement hstart hs (derives_afterBraced_simple (hrow _) ?_)
    rw [absorb_absorb, leave_expression, ← absorb_absorb]
    exact hrest _

/-! ### Rules -/

theorem derivable_statements (hlast : (Phrase.optional (.rule .simple)).Takes Both us z)
    (hmany : Repeats (separable.Takes Both) ts y) :
    Admits [.statements] (ts ++ us) (y ++ z) := by
  induction hmany with
  | stop =>
      obtain ⟨rfl, rfl⟩ | ⟨-, h⟩ := hlast
      · exact admits_nil.expand (List.mem_cons_self ..)
      · simpa using h [] .nothing (admits_nil.expand (List.mem_cons_self ..))
  | @again _ vs _ x h _ ih =>
      obtain
        ⟨ts₁, _, y₁, _, ⟨-, hitem⟩, ⟨ts₂, _, y₂, _, hsemicolon, ⟨rfl, rfl⟩, rfl, rfl⟩, rfl, rfl⟩ |
        ⟨ts₁, _, y₁, _, ⟨-, hsimple⟩, ⟨_, _, _, _, ⟨t, ht, rfl, rfl⟩, ⟨rfl, rfl⟩, rfl, rfl⟩, rfl,
          rfl⟩ := h
      · have hafter : Admits [.afterItem] (ts₂ ++ (vs ++ us)) (y₂ ++ (x ++ z)) := by
          obtain ⟨rfl, rfl⟩ | ⟨t, ht, rfl, rfl⟩ := hsemicolon
          · exact ih.afterItem
          · exact (admits_semicolon ht ih).expand (List.mem_cons_of_mem _ (List.mem_cons_self ..))
        simpa [Yield.append_assoc] using hitem _ _ hafter
      · have hafter := (admits_semicolon ht ih).expand (g := .afterSimple)
          (List.mem_cons_of_mem _ (List.mem_cons_self ..))
        simpa [Yield.append_assoc] using hsimple _ _ hafter

theorem derivable_item {ps : List Phrase} {alias? : Option Label}
    (ha : (ps, alias?) ∈ Nonterminal.item.alternatives) (h : (Phrase.row ps).Takes Both ts y) :
    Derivable .item ts (Convention.lowered .item alias? y) := by
  rw [lowered_of_isSpliced rfl]
  have hclosed : ∀ n : Nonterminal, (∀ ts y, Derivable n ts y →
      ∃ p, p ++ [.afterItem] ∈ Goal.closedItems ∧ Admits p ts y) →
      (Phrase.row [.rule n]).Takes Both ts y → Derivable .item ts y := by
    rintro n hn ⟨_, _, _, _, ⟨-, hread⟩, ⟨rfl, rfl⟩, rfl, rfl⟩
    obtain ⟨p, hp, hadmits⟩ := hn _ _ hread
    rw [List.append_nil, Yield.append_nothing]
    exact derivable_closedItem hp hadmits
  have hbraced : ∀ (n : Nonterminal) (start : List Goal), n.isSingle →
      start ∈ Goal.bracedOperands → (∀ ts y, Derivable n ts y → Admits start ts y) →
      (Phrase.row [.rule n]).Takes Both ts y → Derivable .item ts y := by
    rintro n start hn hstart hs ⟨_, _, _, _, ⟨hread, hd⟩, ⟨rfl, rfl⟩, rfl, rfl⟩
    rw [List.append_nil, Yield.append_nothing]
    exact derivable_bracedItem hstart (single_of_reads hn hread) (hs _ _ hd)
  simp only [Nonterminal.alternatives, List.mem_cons, Prod.mk.injEq, List.not_mem_nil,
    or_false] at ha
  obtain ⟨rfl, rfl⟩ | ⟨rfl, rfl⟩ | ⟨rfl, rfl⟩ | ⟨rfl, rfl⟩ | ⟨rfl, rfl⟩ | ⟨rfl, rfl⟩ | ⟨rfl, rfl⟩ |
    ⟨rfl, rfl⟩ := ha
  · exact hclosed .funDef (fun _ _ h => h) h
  · exact hclosed .structDef (fun _ _ h => h) h
  · exact hclosed .implBlock (fun _ _ h => h) h
  · exact hbraced .conditional Goal.conditional rfl (by decide) (fun _ _ h => h) h
  · exact hclosed .whileLoop (fun _ _ h => h) h
  · exact hclosed .forLoop (fun _ _ h => h) h
  · exact hbraced .matching Goal.matching rfl (by decide) (fun _ _ h => h) h
  · exact hbraced .block Goal.braced rfl (by decide) (fun _ _ h => h) h

theorem derivable_simple {ps : List Phrase} {alias? : Option Label}
    (ha : (ps, alias?) ∈ Nonterminal.simple.alternatives) (h : (Phrase.row ps).Takes Both ts y) :
    Derivable .simple ts (Convention.lowered .simple alias? y) := by
  rw [lowered_of_isSpliced rfl]
  have hform : ∀ n : Nonterminal, (∀ ts y, Derivable n ts y →
      ∃ p, p ++ [.afterSimple] ∈ Goal.simple ∧ Admits p ts y) →
      (Phrase.row [.rule n]).Takes Both ts y → Derivable .simple ts y := by
    rintro n hn ⟨_, _, _, _, ⟨-, hread⟩, ⟨rfl, rfl⟩, rfl, rfl⟩
    obtain ⟨p, hp, hadmits⟩ := hn _ _ hread
    rw [List.append_nil, Yield.append_nothing]
    exact derivable_simpleForm hp hadmits
  simp only [Nonterminal.alternatives, List.mem_cons, Prod.mk.injEq, List.not_mem_nil,
    or_false] at ha
  obtain ⟨rfl, rfl⟩ | ⟨rfl, rfl⟩ | ⟨rfl, rfl⟩ | ⟨rfl, rfl⟩ := ha
  · exact hform .assign (fun _ _ h => h) h
  · exact hform .setVar (fun _ _ h => h) h
  · exact hform .inPlace (fun _ _ h => h) h
  · obtain ⟨_, _, _, _, ⟨-, hread⟩, ⟨rfl, rfl⟩, rfl, rfl⟩ := h
    rw [List.append_nil, Yield.append_nothing]
    exact derivable_simple_of_expression hread

/-- A rule that one form spells. -/
theorem admits_of_form {f : Form} (hf : f ∈ Form.all)
    (hone : f.rule.alternatives = [(f.phrases, f.alias?)]) {ps : List Phrase}
    {alias? : Option Label} (ha : (ps, alias?) ∈ f.rule.alternatives)
    (h : (Phrase.row ps).Takes Both ts y) :
    Admits f.production ts (Convention.lowered f.rule alias? y) := by
  rw [hone] at ha
  cases List.mem_singleton.mp ha
  exact Form.admits hf h

theorem length_of_both {n : Nonterminal} (hn : n.isSingle) (h : Both n ts y) :
    y.parts.length = 1 := by
  obtain ⟨p, rfl, -⟩ := single_of_reads hn h.1
  rfl

/-- A conditional, with or without the rest; the number of its parts tells which. -/
theorem admits_conditional
    (h : (Phrase.row [.drop .ifWord, .rule .expression, .rule .block]).Takes Both ts y)
    (hrest : Goal.elsePart.phrase.Takes Both us z) {label : Label}
    (hlabel : label = if z.parts.length = 1 then .ifThenElse else .ifThen) :
    Admits Goal.conditional (ts ++ us) ((y ++ z).node label) := by
  have hgoals : ∀ g ∈ [Goal.drop .ifWord, .expression, .block, .elsePart], g.isPlain := by decide
  have hrow : (Phrase.row ([.drop .ifWord, .rule .expression, .rule .block] ++
      [Goal.elsePart.phrase])).Takes Both (ts ++ us) (y ++ z) :=
    Phrase.takes_row_append.mpr
      ⟨ts, us, y, z, h, Phrase.takes_row_singleton.mpr hrest, rfl, rfl⟩
  have hlength : y.parts.length = 2 := by
    obtain ⟨_, _, _, _, ⟨t, -, rfl, rfl⟩, ⟨_, _, _, _, hcond, ⟨_, _, _, _, hyes, ⟨rfl, rfl⟩, rfl,
      rfl⟩, rfl, rfl⟩, rfl, rfl⟩ := h
    simp [length_of_both rfl hcond, length_of_both rfl hyes]
  have hlabel' : label = if (y ++ z).parts.length = 3 then .ifThenElse else .ifThen := by
    rw [hlabel, Yield.parts_append, List.length_append, hlength]
    simp only [show 2 + z.parts.length = 3 ↔ z.parts.length = 1 by omega]
  subst hlabel'
  exact (admits_row hgoals hrow).closed .conditional

theorem derivable_conditional {ps : List Phrase} {alias? : Option Label}
    (ha : (ps, alias?) ∈ Nonterminal.conditional.alternatives)
    (h : (Phrase.row ps).Takes Both ts y) :
    Admits Goal.conditional ts (Convention.lowered .conditional alias? y) := by
  have helse : ∀ n : Nonterminal, n.isSingle →
      (∀ ts y, Both n ts y → (Phrase.either (.rule .block) (.rule .conditional)).Takes Both ts y) →
      (Phrase.row ([.drop .ifWord, .rule .expression, .rule .block] ++
        [.drop .elseWord, .rule n])).Takes Both ts y →
      Admits Goal.conditional ts (y.node .ifThenElse) := by
    intro n hn hno h
    obtain ⟨ts₁, ts₂, y₁, y₂, hfirst, hrest, rfl, rfl⟩ := Phrase.takes_row_append.mp h
    obtain ⟨_, _, _, _, hword, ⟨us, _, z, _, hlast, ⟨rfl, rfl⟩, rfl, rfl⟩, rfl, rfl⟩ := hrest
    refine admits_conditional hfirst (.inr ⟨_, _, _, _, hword,
      Phrase.takes_row_singleton.mpr (hno us z hlast), ?_, ?_⟩) ?_
    · rw [List.append_nil]
    · rw [Yield.append_nothing]
    · obtain ⟨t, -, -, rfl⟩ := hword
      simp [length_of_both hn hlast]
  simp only [Nonterminal.alternatives, List.mem_cons, Prod.mk.injEq, List.not_mem_nil,
    or_false] at ha
  obtain ⟨rfl, rfl⟩ | ⟨rfl, rfl⟩ | ⟨rfl, rfl⟩ := ha
  · have hlabel : Label.ifThen =
        if Yield.nothing.parts.length = 1 then .ifThenElse else .ifThen := rfl
    have hall := admits_conditional h (.inl ⟨rfl, rfl⟩) hlabel
    rwa [List.append_nil, Yield.append_nothing] at hall
  · exact helse .block rfl (fun _ _ h => .inl h) h
  · exact helse .conditional rfl (fun _ _ h => .inr h) h

theorem derivable_method {ps : List Phrase} {alias? : Option Label}
    (ha : (ps, alias?) ∈ Nonterminal.method.alternatives)
    (h : (Phrase.row ps).Takes Both ts y) :
    Derivable .method ts (Convention.lowered .method alias? y) := by
  cases List.mem_singleton.mp ha
  have hgoals : ∀ g ∈ [Goal.drop .fnWord, .keep .ident, .drop .parenOpen, .names .params,
      .drop .parenClose, .block], g.isPlain := by decide
  exact ⟨_, by decide, (admits_row hgoals h).closed .method⟩

theorem admits_methods (h : Repeats ((Phrase.rule .method).Takes Both) ts y) :
    Admits [.methods] ts y.asImpls := by
  induction h with
  | stop => exact admits_nil.expand (List.mem_cons_self ..)
  | @again _ _ y z h _ ih =>
      obtain ⟨p, hp, hadmits⟩ := h.2
      have happend : (y ++ z).asImpls = y.asImpls ++ z.asImpls := by
        ext1 <;> simp [Yield.asImpls]
      rw [happend]
      exact (hadmits.append ih).expand hp

theorem derivable_implBlock {ps : List Phrase} {alias? : Option Label}
    (ha : (ps, alias?) ∈ Nonterminal.implBlock.alternatives)
    (h : (Phrase.row ps).Takes Both ts y) :
    Derivable .implBlock ts (Convention.lowered .implBlock alias? y) := by
  cases List.mem_singleton.mp ha
  obtain ⟨_, _, _, _, ⟨t, ht, rfl, rfl⟩, ⟨_, _, _, _, ⟨u, hu, rfl, rfl⟩,
    ⟨_, _, _, _, ⟨v, hv, rfl, rfl⟩, ⟨us, _, z, _, hmethods,
    ⟨_, _, _, _, ⟨w, hw, rfl, rfl⟩, ⟨rfl, rfl⟩, rfl, rfl⟩, rfl, rfl⟩, rfl, rfl⟩, rfl, rfl⟩,
    rfl, rfl⟩ := h
  have htokens := (admits_drop ht).append ((admits_keep hu).append ((admits_drop hv).append
    ((admits_methods hmethods).append (admits_drop hw))))
  have hadmits := htokens.closed .methods
  have hbuild := build_methods u.part (some t.pos) z
  have hyield : Yield.skipped t.pos ++ (.one u.part ++ (.skipped v.pos ++ (z ++
      (.skipped w.pos ++ .nothing)))) = ⟨u.part :: z.parts, some t.pos⟩ := by
    ext1 <;> simp
  rw [hyield, ← hbuild]
  refine ⟨[.enter, .drop .implWord, .keep .ident, .drop .braceOpen, .methods, .drop .braceClose,
    .leave .methods], by decide, ?_⟩
  simpa using hadmits

/-- Every alternative of an operand has a production of its own. -/
theorem exists_start {ps : List Phrase} {alias? : Option Label}
    (ha : (ps, alias?) ∈ Nonterminal.atom.alternatives)
    (h : (Phrase.row ps).Takes Both ts y) :
    ∃ start ∈ Goal.operands, Admits start ts (Convention.lowered .atom alias? y) := by
  have hthin : ∀ y, Convention.lowered .atom none y = y.thin (.other "atom") := fun _ => rfl
  have hsingle : ∀ {start : List Goal} {y}, y.Single → Admits start ts y →
      Admits start ts (Convention.lowered .atom none y) := by
    rintro start y ⟨p, rfl, -⟩ h
    rwa [hthin, Yield.thin_one]
  have hkeep : ∀ k, [Goal.keep k] ∈ Goal.operands → (Phrase.row [.keep k]).Takes Both ts y →
      ∃ start ∈ Goal.operands, Admits start ts (Convention.lowered .atom none y) := by
    intro k hk h
    obtain ⟨t, ht, rfl, rfl⟩ := Phrase.takes_row_singleton.mp h
    exact ⟨_, hk, hsingle ⟨_, rfl, rfl⟩ (admits_keep ht)⟩
  have hrule : ∀ (n : Nonterminal) (start : List Goal), n.isSingle → start ∈ Goal.operands →
      (∀ ts y, Derivable n ts y → Admits start ts y) → (Phrase.row [.rule n]).Takes Both ts y →
      ∃ start ∈ Goal.operands, Admits start ts (Convention.lowered .atom none y) := by
    intro n start hn hstart hs h
    obtain ⟨hread, hd⟩ := Phrase.takes_row_singleton.mp h
    exact ⟨start, hstart, hsingle (single_of_reads hn hread) (hs _ _ hd)⟩
  cases alias? with
  | some label =>
      have hforms : ∀ q ∈ Nonterminal.atom.alternatives, q.2.isSome →
          ∃ f ∈ Form.operands, f.rule = .atom ∧ (f.phrases, f.alias?) = q := by decide
      obtain ⟨f, hf, hrule, hq⟩ := hforms _ ha rfl
      obtain ⟨rfl, hlabel⟩ := Prod.mk.inj hq
      have hadmits := f.admits (by simp [Form.all, hf]) h
      rw [hrule, hlabel] at hadmits
      have hoperands : ∀ f ∈ Form.operands, f.production ∈ Goal.operands := by decide
      exact ⟨_, hoperands f hf, hadmits⟩
  | none =>
      simp only [Nonterminal.alternatives, List.mem_cons, Prod.mk.injEq, reduceCtorEq, and_false,
        and_true, or_false, false_or, List.not_mem_nil] at ha
      rcases ha with rfl | rfl | rfl | rfl | rfl | rfl | rfl | rfl | rfl
      · exact hkeep .number (by decide) h
      · exact hkeep .string (by decide) h
      · exact hkeep .trueWord (by decide) h
      · exact hkeep .falseWord (by decide) h
      · exact hkeep .ident (by decide) h
      · have hgoals : ∀ g ∈ [Goal.drop .parenOpen, .expression, .drop .parenClose], g.isPlain := by
          decide
        have hadmits := (admits_row hgoals h).closed .group
        obtain ⟨_, _, _, _, ⟨t, -, rfl, rfl⟩, ⟨_, _, _, _, hinner, ⟨_, _, _, _, ⟨u, -, rfl, rfl⟩,
          ⟨rfl, rfl⟩, rfl, rfl⟩, rfl, rfl⟩, rfl, rfl⟩ := h
        obtain ⟨p, rfl, -⟩ := single_of_reads rfl hinner.1
        rw [hthin, thin_eq_group (p := p) rfl]
        exact ⟨_, by decide, hadmits⟩
      · exact hrule .conditional Goal.conditional rfl (by decide) (fun _ _ h => h) h
      · exact hrule .matching Goal.matching rfl (by decide) (fun _ _ h => h) h
      · exact hrule .block Goal.braced rfl (by decide) (fun _ _ h => h) h

theorem derivable_atom {ps : List Phrase} {alias? : Option Label}
    (ha : (ps, alias?) ∈ Nonterminal.atom.alternatives)
    (h : (Phrase.row ps).Takes Both ts y) :
    Derivable .atom ts (Convention.lowered .atom alias? y) := by
  have hread : Nonterminal.atom.Reads ts (Convention.lowered .atom alias? y) :=
    .rule ha (Phrase.reads_of_takes (h.mono fun _ _ _ h => h.1))
  obtain ⟨start, hstart, hs⟩ := exists_start ha h
  obtain ⟨p, hp, hpos⟩ := single_of_reads rfl hread
  rw [hp] at hs
  exact ⟨p, hp, hpos, start, hstart, hs⟩

/-- A rule of the ladder reads what its level joins. -/
theorem derivable_ladder {n : Nonterminal} (hn : ∃ q ∈ ladder, q.2.2 = n)
    {ps : List Phrase} {alias? : Option Label} (ha : (ps, alias?) ∈ n.alternatives)
    (h : (Phrase.row ps).Takes Both ts y) :
    Derivable n ts (Convention.lowered n alias? y) := by
  obtain ⟨⟨m, level, n⟩, hq, rfl⟩ := hn
  have hall := hq
  simp only [ladder, List.mem_cons, Prod.mk.injEq, List.not_mem_nil, or_false] at hall
  rcases hall with ⟨rfl, rfl, rfl⟩ | ⟨rfl, rfl, rfl⟩ | ⟨rfl, rfl, rfl⟩ | ⟨rfl, rfl, rfl⟩ |
    ⟨rfl, rfl, rfl⟩ | ⟨rfl, rfl, rfl⟩ <;>
    exact atLevel_of_takes hq (fun _ _ h => h.2) (fun _ _ h => h.2) ha h

/-- A rule that one form spells, and what comes after it. -/
theorem exists_production_of_form {forms : List Form} {after : Goal} {all : List (List Goal)}
    (hforms : ∀ f ∈ forms, f ∈ Form.all ∧ f.rule.alternatives = [(f.phrases, f.alias?)] ∧
      f.production ++ [after] ∈ all) {n : Nonterminal} (hn : ∃ f ∈ forms, f.rule = n)
    {ps : List Phrase} {alias? : Option Label} (ha : (ps, alias?) ∈ n.alternatives)
    (h : (Phrase.row ps).Takes Both ts y) :
    ∃ p, p ++ [after] ∈ all ∧ Admits p ts (Convention.lowered n alias? y) := by
  obtain ⟨f, hf, rfl⟩ := hn
  obtain ⟨hall, hone, hproduction⟩ := hforms f hf
  exact ⟨f.production, hproduction, admits_of_form hall hone ha h⟩

theorem derivable_closedForm {n : Nonterminal} (hn : ∃ f ∈ Form.closed, f.rule = n)
    {ps : List Phrase} {alias? : Option Label} (ha : (ps, alias?) ∈ n.alternatives)
    (h : (Phrase.row ps).Takes Both ts y) :
    ∃ p, p ++ [.afterItem] ∈ Goal.closedItems ∧ Admits p ts (Convention.lowered n alias? y) :=
  exists_production_of_form (by decide) hn ha h

theorem derivable_simpleForm_rule {n : Nonterminal} (hn : ∃ f ∈ Form.simple, f.rule = n)
    {ps : List Phrase} {alias? : Option Label} (ha : (ps, alias?) ∈ n.alternatives)
    (h : (Phrase.row ps).Takes Both ts y) :
    ∃ p, p ++ [.afterSimple] ∈ Goal.simple ∧ Admits p ts (Convention.lowered n alias? y) :=
  exists_production_of_form (by decide) hn ha h

/-- The node of a list, from what stands in it. -/
theorem admits_listNode {f : Form} (hf : f ∈ Form.all) {g g' : Goal} (hgoals : f.goals = [g])
    (hone : f.rule.alternatives = [(f.phrases, f.alias?)]) (hne : g.productions ≠ [])
    (hp : ∀ p ∈ g.productions, .enter :: p ++ [.leave f.closing] ∈ g'.productions)
    {ps : List Phrase} {alias? : Option Label} (ha : (ps, alias?) ∈ f.rule.alternatives)
    (h : (Phrase.row ps).Takes Both ts y) :
    Admits [g'] ts (Convention.lowered f.rule alias? y) := by
  have hadmits := admits_of_form hf hone ha h
  rw [Form.production, hgoals] at hadmits
  have hall : Admits ([.enter] ++ g :: [.leave f.closing]) ts _ := hadmits
  exact hall.multiplied hne hp

theorem nextName_productions {label : Label} : ∀ p ∈ Goal.nextName.productions,
    .enter :: p ++ [.leave (.node label)] ∈ (Goal.names label).productions := by
  simp [Goal.productions]

theorem items_productions : ∀ p ∈ Goal.items.productions,
    .enter :: p ++ [.leave (.node .args)] ∈ Goal.arguments.productions := by
  simp [Goal.productions, Goal.expressionFrom]

/-- The parser derives all that the rules read. -/
theorem derivable_of_takes {n : Nonterminal} {ps : List Phrase} {alias? : Option Label}
    (ha : (ps, alias?) ∈ n.alternatives) (h : (Phrase.row ps).Takes Both ts y) :
    Derivable n ts (Convention.lowered n alias? y) := by
  cases n with
  | program => exact admits_of_form (f := Form.program) (by decide) rfl ha h
  | statements =>
      cases List.mem_singleton.mp ha
      obtain ⟨_, _, _, _, hmany, hlast, rfl, rfl⟩ := h
      exact derivable_statements (Phrase.takes_row_singleton.mp hlast) hmany
  | item => exact derivable_item ha h
  | simple => exact derivable_simple ha h
  | block => exact admits_of_form (f := Form.braced) (by decide) rfl ha h
  | conditional => exact derivable_conditional ha h
  | matching => exact admits_of_form (f := Form.matching) (by decide) rfl ha h
  | funDef | structDef | whileLoop | forLoop => exact derivable_closedForm (by decide) ha h
  | assign | setVar | inPlace => exact derivable_simpleForm_rule (by decide) ha h
  | implBlock => exact derivable_implBlock ha h
  | method => exact derivable_method ha h
  | params =>
      exact admits_listNode (f := Form.params) (by decide) rfl rfl (List.cons_ne_nil _ _)
        nextName_productions ha h
  | fields =>
      exact admits_listNode (f := Form.fields) (by decide) rfl rfl (List.cons_ne_nil _ _)
        nextName_productions ha h
  | args =>
      exact admits_listNode (f := Form.arguments) (by decide) rfl rfl (List.cons_ne_nil _ _)
        items_productions ha h
  | expressions =>
      cases List.mem_singleton.mp ha
      exact admits_items.2 _ _ (Phrase.takes_row_singleton.mp h)
  | pairs =>
      cases List.mem_singleton.mp ha
      exact admits_pairs.2 _ _ (Phrase.takes_row_singleton.mp h)
  | pair => exact admits_of_form (f := Form.pair) (by decide) rfl ha h
  | case => exact admits_of_form (f := Form.case) (by decide) rfl ha h
  | expression =>
      cases List.mem_singleton.mp ha
      obtain ⟨-, p, rfl, hpos, hp⟩ := Phrase.takes_row_singleton.mp h
      exact ⟨p, Yield.thin_one (.other "expr") p, hpos, hp⟩
  | atom => exact derivable_atom ha h
  | disjunction | conjunction | comparison | range | sum | product =>
      exact derivable_ladder (by decide) ha h

theorem derivable_of_reads {n : Nonterminal} (h : n.Reads ts y) : Derivable n ts y := by
  have hboth : (Phrase.rule n).Takes Both ts y := h.takes fun n ps alias? ha ts y h =>
    ⟨.rule ha (Phrase.reads_of_takes (h.mono fun _ _ _ h => h.1)), derivable_of_takes ha h⟩
  exact hboth.2

end Derivable

/-- What the rules read as a program, the parser derives, with the same yield. -/
theorem derives_of_reads {ts : List Lexeme} {y : Yield} (h : Nonterminal.program.Reads ts y)
    (fs : List Frame) : Derives Goal.program fs ts (absorb y fs) := derivable_of_reads h fs

end Tern
