import Tern.Proofs.Contents
import Tern.Proofs.Shape

/-!
# The shape of parsed trees

Every nonterminal reads nodes of a kind of its own (`Content`): statements and expressions are
well shaped, the rest of an expression is a `Row` of operators with an operand each, names are
names, and the methods of a struct lack nothing but the struct's name, which the end of their rule
puts in front. One lemma for each nonterminal shows that its alternatives do no more, so that the
tree of a program is well shaped when its tokens are what their kind promises
(`wellShaped_of_parse`).
-/

namespace Tern

/-- A text that a token of the kind may have. -/
def TokenKind.Fits : TokenKind → String → Prop
  | .number, text => (Number.ofNumeral? text).isSome
  | .compareOp, text | .addOp, text | .mulOp, text | .andOp, text | .orOp, text =>
    (Operator.ofText? text).isSome
  | .inPlaceOp, text => (Arith.ofInPlace? text).isSome
  | _, _ => True

namespace Node

/-- Something between two operands: an operator, or the dots of a range. -/
inductive IsInfix : Node → Prop
  | dots (text : String) (pos : Option Pos) : IsInfix (.token .dots text pos)
  | operator {op : Node} (h : op.IsOperator) : IsInfix op

/-- Operators and operands by turns. -/
inductive Row : List Node → Prop
  | nil : Row []
  | cons {op operand : Node} {rest : List Node} (ho : op.IsInfix) (hn : operand.WellShaped)
      (hr : Row rest) : Row (op :: operand :: rest)

/-- A method that does not know its struct. -/
inductive IsMethod : Node → Prop
  | intro {method params body : Node} (pos : Option Pos) (hm : method.IsName)
      (hp : params.IsNames .params) (hb : body.WellShaped) :
      IsMethod (.tree .impl [method, params, body] pos)

end Node

open Node

/-! ## Rows of operators -/

theorem wellShaped_join {left op right : Part} (hl : left.node.WellShaped)
    (ho : op.node.IsInfix) (hr : right.node.WellShaped) : (left.join op right).node.WellShaped := by
  unfold Part.join
  split
  · exact .range _ hl hr
  · next hne =>
    cases hop : op.node with
    | token =>
        rw [hop] at ho
        cases ho with
        | dots => exact absurd hop (hne _ _)
        | operator h => exact .binop _ hl h hr
    | _ =>
        rw [hop] at ho
        cases ho with
        | operator h => cases h

/-- The operands of a row that are still apart. -/
def Apart (row : Part × List (Part × Part)) : Prop :=
  row.1.node.WellShaped ∧ ∀ q ∈ row.2, q.1.node.IsInfix ∧ q.2.node.WellShaped

theorem apart_joinLevel (level : TokenKind) : ∀ {left : Part} {rest : List (Part × Part)},
    Apart (left, rest) → Apart (joinLevel level left rest)
  | _, [], h => h
  | left, (op, right) :: rest, ⟨hl, hrest⟩ => by
      obtain ⟨ho, hr⟩ := hrest _ (List.mem_cons_self ..)
      have hlater := fun q hq => hrest q (List.mem_cons_of_mem _ hq)
      unfold joinLevel
      split
      · exact apart_joinLevel level ⟨wellShaped_join hl ho hr, hlater⟩
      · have hright : Apart (right, rest) := ⟨hr, hlater⟩
        obtain ⟨hfirst, hothers⟩ := apart_joinLevel level hright
        refine ⟨hl, fun q hq => ?_⟩
        rcases List.mem_cons.mp hq with rfl | hq
        · exact ⟨ho, hfirst⟩
        · exact hothers q hq

theorem wellShaped_joinExpression {first : Part} {rest : List (Part × Part)}
    (h : Apart (first, rest)) : (joinExpression first rest).node.WellShaped := by
  have hfold : ∀ (levels : List TokenKind) row, Apart row →
      Apart (levels.foldl (fun row level => joinLevel level row.1 row.2) row) := by
    intro levels
    induction levels with
    | nil => exact fun _ h => h
    | cons level levels ih => exact fun row h => ih _ (apart_joinLevel level h)
  exact (hfold operatorLevels _ h).1

theorem apart_pairOperators : ∀ {parts : List Part}, Row (parts.map (·.node)) →
    ∀ q ∈ pairOperators parts, q.1.node.IsInfix ∧ q.2.node.WellShaped
  | [], _, _, hq => by cases hq
  | [_], _, _, hq => by cases hq
  | op :: operand :: rest, h, q, hq => by
      cases h with
      | cons ho hn hr =>
        rcases List.mem_cons.mp hq with rfl | hq
        · exact ⟨ho, hn⟩
        · exact apart_pairOperators hr q hq

/-! ## What rules build -/

theorem wellShaped_of_expression {first n : Node} {row : List Node} (hf : first.WellShaped)
    (hr : Row row) (h : Rule.expression.Builds (first :: row) n) : n.WellShaped := by
  obtain ⟨start, parts, hparts, rfl⟩ := h
  cases parts with
  | nil => cases hparts
  | cons p rest =>
      simp only [List.map_cons, List.cons.injEq] at hparts
      obtain ⟨rfl, rfl⟩ := hparts
      exact wellShaped_joinExpression ⟨hf, apart_pairOperators hr⟩

theorem wellShaped_of_group {first n : Node} (hf : first.WellShaped)
    (h : Rule.group.Builds [first] n) : n.WellShaped := by
  obtain ⟨start, parts, hparts, rfl⟩ := h
  match parts, hparts with
  | [⟨.tree _ _ _, _⟩], hp => cases hp; exact hf
  | [⟨.token _ _ _, _⟩], hp => cases hp; exact hf
  | [⟨.stray _, _⟩], hp => cases hp; exact hf

theorem wellShaped_of_conditional {cond yes n : Node} {no : List Node} (hc : cond.WellShaped)
    (hy : yes.WellShaped) (hn : no = [] ∨ ∃ n, no = [n] ∧ n.WellShaped)
    (h : Rule.conditional.Builds (cond :: yes :: no) n) : n.WellShaped := by
  obtain ⟨start, parts, hparts, rfl⟩ := h
  have hlen : parts.length = no.length + 2 := by
    rw [← List.length_map, hparts]
    rfl
  simp only [Rule.build, hparts, hlen]
  rcases hn with rfl | ⟨n, rfl, hn⟩
  · exact .ifThen _ hc hy
  · exact .ifThenElse _ hc hy hn

theorem isMethod_of_method {method params body n : Node} (hm : method.IsName)
    (hp : params.IsNames .params) (hb : body.WellShaped)
    (h : Rule.method.Builds [method, params, body] n) : n.IsMethod := by
  obtain ⟨start, parts, hparts, rfl⟩ := h
  simp only [Rule.build, hparts]
  exact .intro _ hm hp hb

theorem wellShaped_of_methods {struct n : Node} {methods : List Node} (hs : struct.IsName)
    (hm : ∀ m ∈ methods, m.IsMethod) (h : Rule.methods.Builds (struct :: methods) n) :
    n.WellShaped := by
  obtain ⟨start, parts, hparts, rfl⟩ := h
  cases parts with
  | nil => cases hparts
  | cons p bodies =>
      simp only [List.map_cons, List.cons.injEq] at hparts
      obtain ⟨rfl, rfl⟩ := hparts
      refine .block _ fun n hn => ?_
      obtain ⟨body, hbody, rfl⟩ := List.mem_map.mp hn
      have hmethod := hm body.node (List.mem_map_of_mem hbody)
      generalize body.node = m at hmethod ⊢
      cases hmethod with
      | intro pos hname hparams hshaped => exact .impl pos hs hname hparams hshaped

/-! ## What nonterminals read -/

/-- The nodes that a nonterminal gives to the innermost rule. -/
def Content : Goal → List Node → Prop
  | .statements, ns | .afterItem, ns | .afterSimple, ns => ∀ n ∈ ns, n.WellShaped
  | .items, ns | .moreItems, ns => ∀ n ∈ ns, n.WellShaped
  | .block, ns | .alternative, ns => ∃ n, ns = [n] ∧ n.WellShaped
  | .expression, ns | .operand, ns => ∃ n, ns = [n] ∧ n.WellShaped
  | .elsePart, ns => ns = [] ∨ ∃ n, ns = [n] ∧ n.WellShaped
  | .chain _ _, ns => Row ns
  | .names label, ns => ∃ n, ns = [n] ∧ n.IsNames label
  | .moreNames, ns | .nextName, ns => ∀ n ∈ ns, n.IsName
  | .arguments, ns => ∃ args pos, ns = [.tree .args args pos] ∧ ∀ n ∈ args, n.WellShaped
  | .pairs, ns | .morePairs, ns => ∀ n ∈ ns, n.IsPair
  | .arms, ns | .moreArms, ns => ∀ n ∈ ns, n.IsArm
  | .methods, ns => ∀ n ∈ ns, n.IsMethod
  | _, _ => True

/-- The account of well-shaped trees. After a braced operand the expression goes on or ends, and
statements follow. -/
def shapes : Account where
  fits := TokenKind.Fits
  effect
    | .afterBraced, σ, σ' => ∃ row ns mid, Row row ∧ Content .statements ns ∧
        Stack.Leaves .expression (σ.put row) mid ∧ σ' = mid.put ns
    | g, σ, σ' => ∃ ns, Content g ns ∧ σ' = σ.put ns

section Productions

open Goal

variable {Q : Stack → Prop} {σ : Stack}

theorem effect_of_content {g : Goal} (hg : g ≠ .afterBraced) {ns : List Node}
    (h : Content g ns) : shapes.effect g σ (σ.put ns) := by
  cases g <;> first
    | exact ⟨ns, h, rfl⟩
    | exact absurd rfl hg

/-- Reading nothing. -/
theorem meets_nil {g : Goal} (hg : g ≠ .afterBraced) (h : Content g []) : shapes.Meets g [] := by
  intro Q σ hQ
  have := hQ _ (effect_of_content hg h)
  rwa [Stack.put_nil] at this

/-- Reading nothing, or a token that is dropped and more of the same. -/
theorem meets_more {g next : Goal} {kind : TokenKind} (hg : g ≠ .afterBraced)
    (hnil : Content g [])
    (hnext : ∀ Q σ, (∀ σ', shapes.effect g σ σ' → Q σ') → shapes.wp [next] Q σ) :
    ∀ production ∈ [[], [drop kind, next]], shapes.Meets g production := by
  refine List.forall_mem_cons.mpr ⟨meets_nil hg hnil, ?_⟩
  exact List.forall_mem_singleton.mpr hnext

/-! ## Operands -/

theorem reads_operand {n : Node} (hn : n.WellShaped) : shapes.effect .operand σ (σ.put [n]) :=
  ⟨[n], ⟨n, rfl, hn⟩, rfl⟩

theorem meets_conditional : shapes.Meets .operand Goal.conditional := by
  rintro Q σ hQ _ ⟨_, ⟨cond, rfl, hc⟩, rfl⟩ _ ⟨_, ⟨yes, rfl, hy⟩, rfl⟩ _ ⟨no, hn, rfl⟩
  refine Account.wp_leave fun n h => hQ _ (reads_operand ?_)
  exact wellShaped_of_conditional hc hy hn h

theorem meets_matching : shapes.Meets .operand Goal.matching := by
  rintro Q σ hQ _ ⟨_, ⟨subject, rfl, hs⟩, rfl⟩ _ ⟨arms, ha, rfl⟩
  exact Account.wp_leave_node fun pos => hQ _ (reads_operand (.matching pos hs ha))

theorem meets_braced : shapes.Meets .operand Goal.braced := by
  rintro Q σ hQ _ ⟨body, hb, rfl⟩
  exact Account.wp_leave_node fun pos => hQ _ (reads_operand (.block pos hb))

theorem meets_plainOperands : ∀ production ∈ plainOperands, shapes.Meets .operand production := by
  simp only [plainOperands, List.forall_mem_cons]
  refine ⟨?number, ?string, ?trueWord, ?falseWord, ?ident, ?call, ?getFunc, ?getAttr, ?index,
    ?callStruct, ?list, ?group, by simp⟩
  case number =>
    intro Q σ hQ text pos hfit
    exact hQ _ (reads_operand (.number _ hfit))
  case string =>
    intro Q σ hQ text pos _
    exact hQ _ (reads_operand (.string text _))
  case trueWord =>
    intro Q σ hQ text pos _
    exact hQ _ (reads_operand (.trueWord text _))
  case falseWord =>
    intro Q σ hQ text pos _
    exact hQ _ (reads_operand (.falseWord text _))
  case ident =>
    intro Q σ hQ text pos _
    exact hQ _ (reads_operand (.ident text _))
  case call =>
    rintro Q σ hQ name pos _ _ ⟨_, ⟨args, posArgs, rfl, ha⟩, rfl⟩
    exact Account.wp_leave_node fun p =>
      hQ _ (reads_operand (.call p posArgs (.intro name _) ha))
  case getFunc =>
    rintro Q σ hQ name pos _ method pos' _ _ ⟨_, ⟨args, posArgs, rfl, ha⟩, rfl⟩
    exact Account.wp_leave_node fun p =>
      hQ _ (reads_operand (.getFunc p posArgs (.intro name _) (.intro method _) ha))
  case getAttr =>
    intro Q σ hQ name pos _ attr pos' _
    exact Account.wp_leave_node fun p =>
      hQ _ (reads_operand (.getAttr p (.intro name _) (.intro attr _)))
  case index =>
    rintro Q σ hQ name pos _ _ ⟨_, ⟨idx, rfl, hi⟩, rfl⟩
    exact Account.wp_leave_node fun p =>
      hQ _ (reads_operand (.index p (.intro name _) hi))
  case callStruct =>
    rintro Q σ hQ name pos _ _ ⟨pairs, hp, rfl⟩
    exact Account.wp_leave_node fun p =>
      hQ _ (reads_operand (.callStruct p (.intro name _) hp))
  case list =>
    rintro Q σ hQ _ ⟨items, hi, rfl⟩
    exact Account.wp_leave_node fun p => hQ _ (reads_operand (.list p hi))
  case group =>
    rintro Q σ hQ _ ⟨_, ⟨inner, rfl, hi⟩, rfl⟩
    refine Account.wp_leave fun n h => hQ _ (reads_operand ?_)
    exact wellShaped_of_group hi h

theorem meets_operands : ∀ production ∈ operands, shapes.Meets .operand production := by
  intro production hp
  rcases List.mem_append.mp hp with hp | hp
  · exact meets_plainOperands production hp
  · simp only [bracedOperands, List.mem_cons, List.not_mem_nil, or_false] at hp
    rcases hp with rfl | rfl | rfl
    · exact meets_conditional
    · exact meets_matching
    · exact meets_braced

/-! ## Expressions -/

/-- From an operand on, an expression is well shaped, and then comes what follows it. -/
theorem wp_expressionFrom {starts : List (List Goal)} {after production : List Goal}
    (hs : ∀ start ∈ starts, start ∈ operands) (hp : production ∈ expressionFrom starts after)
    (h : ∀ n : Node, n.WellShaped → shapes.wp after Q (σ.put [n])) : shapes.wp production Q σ := by
  obtain ⟨start, hstart, rfl⟩ := List.mem_map.mp hp
  refine (Account.wp_append ?_ : shapes.wp ((enter :: start) ++ _) Q σ)
  refine meets_operands start (hs start hstart) _ ([] :: σ) ?_
  rintro _ ⟨_, ⟨first, rfl, hf⟩, rfl⟩ _ ⟨row, hr, rfl⟩
  exact Account.wp_leave fun n hn => h n (wellShaped_of_expression hf hr hn)

theorem isInfix_of_fits {op : TokenKind} (h : op ∈ operatorLevels) {text : String}
    {pos : Option Pos} (hfit : op.Fits text) : (Node.token op text pos).IsInfix := by
  simp only [operatorLevels, List.mem_cons, List.not_mem_nil, or_false] at h
  rcases h with rfl | rfl | rfl | rfl | rfl | rfl
  · exact .operator (.intro _ _ hfit)
  · exact .operator (.intro _ _ hfit)
  · exact .dots text pos
  · exact .operator (.intro _ _ hfit)
  · exact .operator (.intro _ _ hfit)
  · exact .operator (.intro _ _ hfit)

/-- An operator, its operand and the rest of a row, and then comes what follows. -/
theorem wp_continued {compared ranged : Bool} {after production : List Goal}
    (hp : production ∈ continued compared ranged after)
    (h : ∀ row, Row row → shapes.wp after Q (σ.put row)) : shapes.wp production Q σ := by
  obtain ⟨⟨op, rest⟩, hop, rfl⟩ := List.mem_map.mp hp
  obtain ⟨hlevel, compared', ranged', rfl⟩ := mem_operators hop
  rintro text pos hfit _ ⟨_, ⟨operand, rfl, ho⟩, rfl⟩ _ ⟨row, hr, rfl⟩
  rw [Stack.put_put, Stack.put_put]
  exact h _ (.cons (isInfix_of_fits hlevel hfit) ho hr)

/-! ## Statements -/

/-- A statement that has been read comes before those that follow. -/
theorem wp_afterStatement {g : Goal} (hg : g = .afterItem ∨ g = .afterSimple) {n : Node}
    (hn : n.WellShaped) (hQ : ∀ σ', shapes.effect .statements σ σ' → Q σ') :
    shapes.wp [g] Q (σ.put [n]) := by
  have hlater : ∀ ns, Content .statements ns → Q ((σ.put [n]).put ns) := by
    intro ns hns
    rw [Stack.put_put]
    exact hQ _ ⟨_, List.forall_mem_cons.mpr ⟨hn, hns⟩, rfl⟩
  rcases hg with rfl | rfl
  · rintro _ ⟨ns, hns, rfl⟩
    exact hlater ns hns
  · rintro _ ⟨ns, hns, rfl⟩
    exact hlater ns hns

theorem meets_closedItems : ∀ production ∈ closedItems, shapes.Meets .statements production := by
  simp only [closedItems, List.forall_mem_cons]
  refine ⟨?funDef, ?structDef, ?methods, ?whileLoop, ?forLoop, by simp⟩
  case funDef =>
    rintro Q σ hQ name pos _ _ ⟨_, ⟨params, rfl, hp⟩, rfl⟩ _ ⟨_, ⟨body, rfl, hb⟩, rfl⟩
    exact Account.wp_leave_node fun p =>
      wp_afterStatement (.inl rfl) (.funDef p (.intro name _) hp hb) hQ
  case structDef =>
    rintro Q σ hQ name pos _ _ ⟨_, ⟨fields, rfl, hf⟩, rfl⟩
    exact Account.wp_leave_node fun p =>
      wp_afterStatement (.inl rfl) (.structDef p (.intro name _) hf) hQ
  case methods =>
    rintro Q σ hQ name pos _ _ ⟨methods, hm, rfl⟩
    refine Account.wp_leave fun n hn => wp_afterStatement (.inl rfl) ?_ hQ
    exact wellShaped_of_methods (.intro name _) hm hn
  case whileLoop =>
    rintro Q σ hQ _ ⟨_, ⟨cond, rfl, hc⟩, rfl⟩ _ ⟨_, ⟨body, rfl, hb⟩, rfl⟩
    exact Account.wp_leave_node fun p => wp_afterStatement (.inl rfl) (.whileLoop p hc hb) hQ
  case forLoop =>
    rintro Q σ hQ name pos _ _ ⟨_, ⟨items, rfl, hi⟩, rfl⟩ _ ⟨_, ⟨body, rfl, hb⟩, rfl⟩
    exact Account.wp_leave_node fun p =>
      wp_afterStatement (.inl rfl) (.forLoop p (.intro name _) hi hb) hQ

theorem meets_simple : ∀ production ∈ simple, shapes.Meets .statements production := by
  simp only [simple, List.forall_mem_append, List.forall_mem_cons]
  refine ⟨⟨?assign, ?setVar, ?inPlace, by simp⟩, ?expression⟩
  case assign =>
    rintro Q σ hQ name pos _ _ ⟨_, ⟨value, rfl, hv⟩, rfl⟩
    exact Account.wp_leave_node fun p =>
      wp_afterStatement (.inr rfl) (.assign p (.intro name _) hv) hQ
  case setVar =>
    rintro Q σ hQ name pos _ _ ⟨_, ⟨value, rfl, hv⟩, rfl⟩
    exact Account.wp_leave_node fun p =>
      wp_afterStatement (.inr rfl) (.setVar p (.intro name _) hv) hQ
  case inPlace =>
    rintro Q σ hQ name pos _ op pos' hfit _ ⟨_, ⟨value, rfl, hv⟩, rfl⟩
    exact Account.wp_leave_node fun p =>
      wp_afterStatement (.inr rfl) (.inPlace p (.intro name _) (.intro _ _ hfit) hv) hQ
  case expression =>
    intro production hp Q σ hQ
    refine wp_expressionFrom (fun start hs => List.mem_append_left _ hs) hp fun n hn => ?_
    exact wp_afterStatement (.inr rfl) hn hQ

/-- A statement that starts with a braced operand. -/
theorem meets_bracedStatement {start : List Goal} (hs : start ∈ bracedOperands) :
    shapes.Meets .statements (enter :: start ++ [afterBraced]) := by
  intro Q σ hQ
  refine (Account.wp_append ?_ : shapes.wp ((enter :: start) ++ _) Q σ)
  refine meets_operands start (List.mem_append_right _ hs) _ ([] :: σ) ?_
  rintro _ ⟨_, ⟨first, rfl, hf⟩, rfl⟩ _ ⟨row, ns, _, hr, hns, ⟨n, hn, rfl⟩, rfl⟩
  have hn := wellShaped_of_expression hf hr hn
  rw [Stack.put_put]
  exact hQ _ ⟨_, List.forall_mem_cons.mpr ⟨hn, hns⟩, rfl⟩

theorem meets_statement : ∀ production ∈ statement, shapes.Meets .statements production := by
  simp only [statement, List.forall_mem_append]
  refine ⟨⟨meets_closedItems, meets_simple⟩, ?_⟩
  intro production hp
  obtain ⟨start, hs, rfl⟩ := List.mem_map.mp hp
  exact meets_bracedStatement hs

theorem meets_afterItemAlternatives :
    ∀ production ∈ afterItemAlternatives, shapes.Meets .statements production := by
  refine List.forall_mem_cons.mpr ⟨meets_nil nofun (List.forall_mem_nil _), ?_⟩
  refine List.forall_mem_cons.mpr ⟨?_, meets_statement⟩
  intro Q σ hQ σ' hσ
  exact hQ σ' hσ

theorem meets_afterBraced :
    ∀ production ∈ afterBraced.productions, shapes.Meets .afterBraced production := by
  refine List.forall_mem_append.mpr ⟨?_, ?_⟩
  · intro production hp Q σ hQ
    obtain ⟨alternative, ha, rfl⟩ := List.mem_map.mp hp
    intro mid hmid
    refine meets_afterItemAlternatives alternative ha Q mid ?_
    rintro _ ⟨ns, hns, rfl⟩
    exact hQ _ ⟨[], ns, mid, .nil, hns, by rwa [Stack.put_nil], rfl⟩
  · intro production hp Q σ hQ
    refine wp_continued hp fun row hr mid hmid => ?_
    rintro _ ⟨ns, hns, rfl⟩
    exact hQ _ ⟨row, ns, mid, hr, hns, hmid, rfl⟩

/-! ## Lists -/

theorem meets_names (label : Label) :
    ∀ production ∈ (names label).productions, shapes.Meets (.names label) production := by
  refine List.forall_mem_cons.mpr ⟨?_, List.forall_mem_singleton.mpr ?_⟩
  · intro Q σ hQ
    exact Account.wp_leave_node fun p => hQ _ ⟨[_], ⟨_, rfl, .intro p (by simp)⟩, rfl⟩
  · rintro Q σ hQ name pos _ _ ⟨more, hm, rfl⟩
    refine Account.wp_leave_node fun p => hQ _ ⟨[_], ⟨_, rfl, .intro p ?_⟩, rfl⟩
    exact List.forall_mem_cons.mpr ⟨.intro name _, hm⟩

theorem meets_nextName :
    ∀ production ∈ nextName.productions, shapes.Meets .nextName production := by
  refine List.forall_mem_cons.mpr ⟨meets_nil nofun (List.forall_mem_nil _), ?_⟩
  refine List.forall_mem_singleton.mpr ?_
  rintro Q σ hQ name pos _ _ ⟨more, hm, rfl⟩
  rw [Stack.put_put]
  exact hQ _ ⟨_, List.forall_mem_cons.mpr ⟨.intro name _, hm⟩, rfl⟩

theorem meets_arguments :
    ∀ production ∈ arguments.productions, shapes.Meets .arguments production := by
  refine List.forall_mem_cons.mpr ⟨?_, ?_⟩
  · intro Q σ hQ
    exact Account.wp_leave_node fun p => hQ _ ⟨[_], ⟨[], p, rfl, by simp⟩, rfl⟩
  · intro production hp Q σ hQ
    obtain ⟨rest, hrest, rfl⟩ := List.mem_map.mp hp
    show shapes.wp rest Q ([] :: σ)
    refine wp_expressionFrom (fun _ h => h) hrest fun n hn => ?_
    rintro _ ⟨more, hm, rfl⟩
    refine Account.wp_leave_node fun p => hQ _ ⟨[_], ⟨_, p, rfl, ?_⟩, rfl⟩
    exact List.forall_mem_cons.mpr ⟨hn, hm⟩

theorem meets_items : ∀ production ∈ items.productions, shapes.Meets .items production := by
  refine List.forall_mem_cons.mpr ⟨meets_nil nofun (List.forall_mem_nil _), ?_⟩
  intro production hp Q σ hQ
  refine wp_expressionFrom (fun _ h => h) hp fun n hn => ?_
  rintro _ ⟨more, hm, rfl⟩
  rw [Stack.put_put]
  exact hQ _ ⟨_, List.forall_mem_cons.mpr ⟨hn, hm⟩, rfl⟩

theorem meets_pairs : ∀ production ∈ pairs.productions, shapes.Meets .pairs production := by
  refine List.forall_mem_cons.mpr ⟨meets_nil nofun (List.forall_mem_nil _), ?_⟩
  refine List.forall_mem_singleton.mpr ?_
  rintro Q σ hQ key pos _ _ ⟨_, ⟨value, rfl, hv⟩, rfl⟩
  refine Account.wp_leave_node fun p => ?_
  rintro _ ⟨more, hm, rfl⟩
  rw [Stack.put_put]
  exact hQ _ ⟨_, List.forall_mem_cons.mpr ⟨.intro p (.intro key _) hv, hm⟩, rfl⟩

theorem meets_arms : ∀ production ∈ arms.productions, shapes.Meets .arms production := by
  refine List.forall_mem_cons.mpr ⟨meets_nil nofun (List.forall_mem_nil _), ?_⟩
  intro production hp Q σ hQ
  obtain ⟨rest, hrest, rfl⟩ := List.mem_map.mp hp
  show shapes.wp rest Q ([] :: σ)
  refine wp_expressionFrom (fun _ h => h) hrest fun pattern hpattern => ?_
  rintro _ ⟨_, ⟨body, rfl, hb⟩, rfl⟩
  refine Account.wp_leave_node fun p => ?_
  rintro _ ⟨more, hm, rfl⟩
  rw [Stack.put_put]
  exact hQ _ ⟨_, List.forall_mem_cons.mpr ⟨.intro p hpattern hb, hm⟩, rfl⟩

theorem meets_methods :
    ∀ production ∈ methods.productions, shapes.Meets .methods production := by
  refine List.forall_mem_cons.mpr ⟨meets_nil nofun (List.forall_mem_nil _), ?_⟩
  refine List.forall_mem_singleton.mpr ?_
  rintro Q σ hQ name pos _ _ ⟨_, ⟨params, rfl, hp⟩, rfl⟩ _ ⟨_, ⟨body, rfl, hb⟩, rfl⟩
  refine Account.wp_leave fun m hm => ?_
  rintro _ ⟨more, hmore, rfl⟩
  have hmethod := isMethod_of_method (.intro name _) hp hb hm
  rw [Stack.put_put]
  exact hQ _ ⟨_, List.forall_mem_cons.mpr ⟨hmethod, hmore⟩, rfl⟩

/-! ## Programs -/

theorem closed_shapes : shapes.Closed := by
  intro g
  cases g with
  | keep | drop | enter | leave => exact fun _ hp => by cases hp
  | statements =>
      exact List.forall_mem_cons.mpr ⟨meets_nil nofun (List.forall_mem_nil _), meets_statement⟩
  | afterItem => exact meets_afterItemAlternatives
  | afterSimple => exact meets_more nofun (List.forall_mem_nil _) fun _ _ h => h
  | afterBraced => exact meets_afterBraced
  | block => exact List.forall_mem_singleton.mpr meets_braced
  | elsePart =>
      refine List.forall_mem_cons.mpr ⟨meets_nil nofun (.inl rfl), ?_⟩
      refine List.forall_mem_singleton.mpr ?_
      rintro Q σ hQ _ ⟨_, h, rfl⟩
      exact hQ _ ⟨_, .inr h, rfl⟩
  | alternative =>
      refine List.forall_mem_cons.mpr ⟨meets_braced, ?_⟩
      exact List.forall_mem_singleton.mpr meets_conditional
  | expression =>
      intro production hp Q σ hQ
      exact wp_expressionFrom (fun _ h => h) hp fun n hn => hQ _ ⟨[n], ⟨n, rfl, hn⟩, rfl⟩
  | operand => exact meets_operands
  | chain compared ranged =>
      refine List.forall_mem_cons.mpr ⟨meets_nil nofun .nil, ?_⟩
      intro production hp Q σ hQ
      exact wp_continued hp fun row hr => hQ _ ⟨row, hr, rfl⟩
  | names label => exact meets_names label
  | moreNames => exact meets_more nofun (List.forall_mem_nil _) fun _ _ h => h
  | nextName => exact meets_nextName
  | «arguments» => exact meets_arguments
  | moreItems => exact meets_more nofun (List.forall_mem_nil _) fun _ _ h => h
  | items => exact meets_items
  | pairs => exact meets_pairs
  | morePairs => exact meets_more nofun (List.forall_mem_nil _) fun _ _ h => h
  | arms => exact meets_arms
  | moreArms => exact meets_more nofun (List.forall_mem_nil _) fun _ _ h => h
  | methods => exact meets_methods

end Productions

/-- The tree of a program whose tokens fit is well shaped. -/
theorem wellShaped_of_parse {source : String} {tree : Node} (h : parse source = .ok tree)
    (hts : ∀ t ∈ (lex source).lexemes, t.kind.Fits t.text) : tree.WellShaped := by
  obtain ⟨start, outer, parts, fs, hd⟩ := derives_of_parse h
  have hfits : ∀ t ∈ (lex source).lexemes.filter (!·.kind.isIgnored), t.kind.Fits t.text :=
    fun t ht => hts t (List.mem_filter.mp ht).1
  have hends := closed_shapes.derives hd hfits
    (Q := fun σ => ∃ n : Node, n.WellShaped ∧ σ = [[n]]) ?_
  · obtain ⟨n, hn, hσ⟩ := hends
    have htop : (parts.reverse.map (·.node)) ++ [tree] = [] ++ [n] := by
      simpa [Stack.ofFrames] using (List.cons.inj hσ).1
    obtain ⟨-, htree⟩ := List.append_inj' htop rfl
    rw [List.singleton_inj.mp htree]
    exact hn
  · rintro _ ⟨body, hb, rfl⟩
    exact Account.wp_leave_node fun p => ⟨_, .block p hb, rfl⟩

end Tern
