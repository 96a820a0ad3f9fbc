import Mathlib.Data.Prod.Lex
import Tern.Proofs.Cuts
import Tern.Proofs.Trails

/-!
# Positions on a walk

A program is read from its start to its end, and so are the positions of its nodes: on a walk
through the tree, each node before those inside it, they never go back, and each child starts after
the ones before it (`positions_of_parse`). Parentheses, keywords and punctuation leave no nodes, but
a node takes its position from the first of its rule that has one, hence from nothing after its
parts. Only the name of a struct, which is copied to each of its methods, is not in order; a walk
leaves it out (`Label.own`).

Along the rules the invariant is that parts stand one after the other and none before the place that
is noted for all of them (`Yield.Ordered`). It needs no more of the tokens than that they rise
(`rising_tokens`).
-/

namespace Tern

/-! ## The order of positions -/

/-- Positions in the order of the text: by lines, and by columns within a line. -/
instance : LinearOrder Pos :=
  LinearOrder.lift' (fun p => toLex (p.line, p.column)) fun p q h => by
    cases p
    cases q
    cases h
    rfl

namespace Pos

theorem lt_iff {p q : Pos} : p < q ↔ p.line < q.line ∨ p.line = q.line ∧ p.column < q.column :=
  Prod.Lex.toLex_lt_toLex

theorem lt_next (p : Pos) (c : Char) : p < p.next c := by
  unfold next
  split
  · exact lt_iff.mpr (.inl (Nat.lt_succ_self _))
  · exact lt_iff.mpr (.inr ⟨rfl, Nat.lt_succ_self _⟩)

theorem le_after : ∀ (p : Pos) (cs : List Char), p ≤ p.after cs
  | p, [] => le_refl p
  | p, c :: cs => (p.lt_next c).le.trans ((p.next c).le_after cs)

theorem lt_after (p : Pos) {cs : List Char} (h : cs ≠ []) : p < p.after cs := by
  obtain ⟨c, cs, rfl⟩ := List.exists_cons_of_ne_nil h
  exact (p.lt_next c).trans_le ((p.next c).le_after cs)

end Pos

/-- Lexemes that stand one after the other. -/
def Rising (ls : List Lexeme) : Prop := ls.Pairwise fun l m => l.pos < m.pos

theorem rising_lexFrom {rounds : Nat} {p : Pos} {offset : Nat} {cs : List Char} :
    (∀ l ∈ (lexFrom rounds p offset cs).lexemes, p ≤ l.pos) ∧
      Rising (lexFrom rounds p offset cs).lexemes := by
  fun_induction lexFrom rounds p offset cs with
  | case1 => exact ⟨List.forall_mem_nil _, .nil⟩
  | case2 => exact ⟨List.forall_mem_nil _, .nil⟩
  | case3 => exact ⟨List.forall_mem_nil _, .nil⟩
  | case4 rounds p offset c rest kind n hmatch taken text later ih =>
      have hne : taken ≠ [] := by
        intro hnil
        have hdrop : ((c :: rest).drop n).length ≤ rest.length :=
          length_drop_of_longestMatch? hmatch
        have hlen : taken.length + ((c :: rest).drop n).length = rest.length + 1 := by
          rw [← List.length_append, List.take_append_drop, List.length_cons]
        rw [hnil, List.length_nil] at hlen
        omega
      have hlater : ∀ l ∈ later.lexemes, p < l.pos :=
        fun l hl => (p.lt_after hne).trans_le (ih.1 l hl)
      exact ⟨List.forall_mem_cons.mpr ⟨le_refl p, fun l hl => (hlater l hl).le⟩,
        .cons hlater ih.2⟩

/-- The tokens of a text stand one after the other. -/
theorem rising_tokens (source : String) : Rising (tokens source) :=
  rising_lexFrom.2.sublist List.filter_sublist

/-! ## Walks -/

/-- The children that a walk goes to: all but the name of the struct in front of a method. -/
def Label.own : Label → List Node → List Node
  | .impl, .token .ident _ _ :: cs => cs
  | _, cs => cs

theorem Label.own_sublist (label : Label) (cs : List Node) : (label.own cs).Sublist cs := by
  unfold own
  split
  · exact List.sublist_cons_self ..
  · exact List.Sublist.refl _

namespace Node

/-- The position that a node bears itself. -/
def start? : Node → Option Pos
  | tree _ _ pos | token _ _ pos => pos
  | stray _ => none

mutual

/-- The positions on a walk through a node, each node before those inside it. -/
def walk : Node → List Pos
  | tree .impl (token .ident _ _ :: cs) pos => pos.toList ++ walkAll cs
  | tree _ cs pos => pos.toList ++ walkAll cs
  | token _ _ pos => pos.toList
  | stray _ => []

def walkAll : List Node → List Pos
  | [] => []
  | n :: rest => n.walk ++ walkAll rest

end

theorem walkAll_eq_flatMap (ns : List Node) : walkAll ns = ns.flatMap walk := by
  induction ns with
  | nil => rfl
  | cons n rest ih => rw [walkAll, ih, List.flatMap_cons]

theorem walk_tree (label : Label) (cs : List Node) (pos : Option Pos) :
    (tree label cs pos).walk = pos.toList ++ (label.own cs).flatMap walk := by
  unfold Label.own
  split
  · rw [walk, walkAll_eq_flatMap]
  · next hother =>
    rw [walk, walkAll_eq_flatMap]
    exact fun _ _ _ hlabel hcs => hother _ _ _ hlabel hcs

theorem mem_walk_of_start? {n : Node} {p : Pos} (h : n.start? = some p) : p ∈ n.walk := by
  cases n with
  | tree label cs pos =>
      rw [walk_tree, show pos = some p from h]
      exact List.mem_cons_self
  | token kind text pos =>
      rw [walk, show pos = some p from h]
      exact List.mem_cons_self
  | stray d => cases h

/-- All positions in a node come before all those in another. -/
def Precedes (m n : Node) : Prop := ∀ p ∈ m.walk, ∀ q ∈ n.walk, p < q

/-- Everywhere in a node a walk comes to no child before its node or an earlier child. -/
inductive Ordered : Node → Prop
  | token (kind : TokenKind) (text : String) (pos : Option Pos) : Ordered (.token kind text pos)
  | tree {label : Label} {cs : List Node} {pos : Option Pos}
      (start : ∀ o ∈ pos, ∀ c ∈ label.own cs, ∀ p ∈ c.walk, o ≤ p)
      (apart : (label.own cs).Pairwise Precedes) (inside : ∀ c ∈ cs, Ordered c) :
      Ordered (.tree label cs pos)

namespace Ordered

theorem pairwise_walk {n : Node} (h : n.Ordered) : n.walk.Pairwise (· ≤ ·) := by
  induction h with
  | token kind text pos => cases pos <;> simp [walk]
  | @tree label cs pos start apart _ ih =>
      rw [walk_tree, List.pairwise_append]
      refine ⟨by cases pos <;> simp, List.pairwise_flatMap.mpr ⟨fun c hc => ?_, ?_⟩, ?_⟩
      · exact ih c ((label.own_sublist cs).subset hc)
      · exact apart.imp fun h p hp q hq => (h p hp q hq).le
      · intro o ho p hp
        obtain ⟨c, hc, hp⟩ := List.mem_flatMap.mp hp
        exact start o (Option.mem_toList.mp ho) c hc p hp

theorem of_mem_inside {n : Node} (h : n.Ordered) : ∀ m ∈ n.inside, m.Ordered := by
  induction h with
  | token kind text pos => exact List.forall_mem_singleton.mpr (.token kind text pos)
  | tree start apart inside ih =>
      refine List.forall_mem_cons.mpr ⟨.tree start apart inside, fun m hm => ?_⟩
      obtain ⟨c, hc, hm⟩ := mem_insideAll.mp hm
      exact ih c hc m hm

theorem pairwise_children {label : Label} {cs : List Node} {pos : Option Pos}
    (h : (Node.tree label cs pos).Ordered) :
    ((label.own cs).filterMap start?).Pairwise (· < ·) := by
  cases h with
  | tree start apart inside =>
    exact List.pairwise_filterMap.mpr (apart.imp fun h p hp q hq =>
      h p (mem_walk_of_start? hp) q (mem_walk_of_start? hq))

end Ordered

theorem Placed.startOf_of_mem_walk {ts : List Lexeme} {n : Node} (h : n.Placed ts) :
    ∀ p ∈ n.walk, StartOf ts p := by
  induction h with
  | token ht => exact List.forall_mem_singleton.mpr ⟨_, ht, rfl⟩
  | @tree label cs t ht _ ih =>
      rw [walk_tree]
      refine List.forall_mem_append.mpr ⟨List.forall_mem_singleton.mpr ⟨t, ht, rfl⟩, ?_⟩
      intro p hp
      obtain ⟨c, hc, hp⟩ := List.mem_flatMap.mp hp
      exact ih c ((label.own_sublist cs).subset hc) p hp
  | empty hl =>
      rw [walk_tree, List.sublist_nil.mp (Label.own_sublist _ [])]
      exact List.forall_mem_nil _

end Node

/-! ## What is read -/

/-- Parts that stand one after the other, none before the position noted for all of them. -/
structure Yield.Ordered (y : Yield) : Prop where
  ordered : ∀ p ∈ y.parts, p.node.Ordered
  apart : y.parts.Pairwise fun p q => p.node.Precedes q.node
  first : ∀ o ∈ y.outer, ∀ p ∈ y.parts, ∀ q ∈ p.node.walk, o ≤ q

namespace Yield.Ordered

theorem append {ts us : List Lexeme} {y z : Yield} (hts : Rising (ts ++ us)) (hy : Laid ts y)
    (hz : Laid us z) (hyo : y.Ordered) (hzo : z.Ordered) : (y ++ z).Ordered := by
  have hcross : ∀ {p q}, StartOf ts p → StartOf us q → p < q := by
    rintro _ _ ⟨t, ht, rfl⟩ ⟨u, hu, rfl⟩
    exact (List.pairwise_append.mp hts).2.2 t ht u hu
  have hstart {vs : List Lexeme} {x : Yield} (hx : Laid vs x) {p : Part} (hp : p ∈ x.parts) :=
    (hx.parts p hp).node.startOf_of_mem_walk
  refine ⟨List.forall_mem_append.mpr ⟨hyo.ordered, hzo.ordered⟩, ?_, fun o ho p hp q hq => ?_⟩
  · refine List.pairwise_append.mpr ⟨hyo.apart, hzo.apart, fun p hp q hq => ?_⟩
    exact fun a ha b hb => hcross (hstart hy hp a ha) (hstart hz hq b hb)
  · rcases Option.or_eq_some_iff.mp ho with ho | ⟨hnone, ho⟩ <;>
      rcases List.mem_append.mp hp with hp | hp
    · exact hyo.first o ho p hp q hq
    · exact (hcross (hy.outer o ho) (hstart hz hp q hq)).le
    · -- Without a position nothing has been read, so that there is no position in it either.
      obtain ⟨t, ht, -⟩ := hstart hy hp q hq
      have hread := hy.read (List.ne_nil_of_mem ht)
      rw [hnone] at hread
      cases hread
    · exact hzo.first o ho p hp q hq

theorem node {y : Yield} (h : y.Ordered) (label : Label) : (y.node label).Ordered := by
  have hown := label.own_sublist (y.parts.map (·.node))
  have hstart : ∀ o ∈ y.outer, ∀ c ∈ label.own (y.parts.map (·.node)), ∀ p ∈ c.walk, o ≤ p := by
    intro o ho c hc
    obtain ⟨p, hp, rfl⟩ := List.mem_map.mp (hown.subset hc)
    exact h.first o ho p hp
  refine ⟨List.forall_mem_singleton.mpr ?_, List.pairwise_singleton .., fun o ho p hp q hq => ?_⟩
  · exact .tree hstart (.sublist hown (List.pairwise_map.mpr h.apart))
      (List.forall_mem_map.mpr h.ordered)
  · obtain rfl := List.mem_singleton.mp hp
    rw [Node.walk_tree] at hq
    rcases List.mem_append.mp hq with hq | hq
    · exact (Option.mem_unique ho (Option.mem_toList.mp hq)).le
    · obtain ⟨c, hc, hq⟩ := List.mem_flatMap.mp hq
      exact hstart o ho c hc q hq

theorem within {ts : List Lexeme} {p : Part} {outer : Option Pos} (hlaid : Laid ts ⟨[p], outer⟩)
    (h : Yield.Ordered ⟨[p], outer⟩) : (Yield.one (p.within outer)).Ordered := by
  have hp := hlaid.parts p (List.mem_singleton_self p)
  obtain ⟨node, own⟩ := p
  cases node with
  | tree label cs pos =>
      have hordered := h.ordered _ (List.mem_singleton_self _)
      have hfirst := fun o ho => h.first o ho _ (List.mem_singleton_self _)
      exact ⟨List.forall_mem_singleton.mpr hordered, List.pairwise_singleton ..,
        fun o ho => List.forall_mem_singleton.mpr (hfirst o ho)⟩
  | token kind text pos =>
      obtain rfl : own = pos := hp.outer _ _ _ rfl
      refine ⟨List.forall_mem_singleton.mpr (.token kind text own), List.pairwise_singleton .., ?_⟩
      refine fun o ho => List.forall_mem_singleton.mpr fun q hq => ?_
      exact (Option.mem_unique ho (Option.mem_toList.mp hq)).le
  | stray d => cases hp.node

end Yield.Ordered

/-- The name of the struct in front of a method is left out. -/
theorem own_impl {t : Lexeme} (ht : t.kind = .ident) (cs : List Node) :
    Label.own .impl (t.part.node :: cs) = cs := by
  dsimp only
  rw [ht, Label.own]

theorem walk_implOf {t : Lexeme} (ht : t.kind = .ident) {m : Node} (hm : IsMethodNode m) :
    (t.part.node.implOf m).walk = m.walk := by
  obtain ⟨cs, pos, rfl⟩ := hm
  rw [Node.implOf, Node.walk_tree, own_impl ht, Node.walk_tree, Label.own]
  exact nofun

theorem ordered_implOf {t : Lexeme} (ht : t.kind = .ident) {m : Node} (hm : IsMethodNode m)
    (h : m.Ordered) : (t.part.node.implOf m).Ordered := by
  obtain ⟨cs, pos, rfl⟩ := hm
  cases h with
  | tree start apart inside =>
    refine .tree ?_ ?_ (List.forall_mem_cons.mpr ⟨.token .., inside⟩) <;> rw [own_impl ht]
    · exact start
    · exact apart

theorem Yield.Ordered.impls {y : Yield} {t : Lexeme} {methods : List Part} (h : y.Ordered)
    (hparts : y.parts = t.part :: methods) (ht : t.kind = .ident)
    (hmethods : ∀ m ∈ methods, IsMethodNode m.node) :
    (Yield.one ⟨.tree .block (implsOf (y.parts.map (·.node))) y.outer, y.outer⟩).Ordered := by
  have hordered := h.ordered
  have hapart := h.apart
  have hfirst := h.first
  rw [hparts] at hordered hapart hfirst
  -- The methods with the struct in front are parts like those without.
  let impls : Yield := ⟨methods.map fun m => ⟨t.part.node.implOf m.node, m.outer⟩, y.outer⟩
  have himpls : impls.Ordered := by
    refine ⟨List.forall_mem_map.mpr fun m hm => ?_, List.pairwise_map.mpr ?_, fun o ho => ?_⟩
    · exact ordered_implOf ht (hmethods m hm) (hordered m (List.mem_cons_of_mem _ hm))
    · refine (List.pairwise_cons.mp hapart).2.imp_of_mem fun hm hn hmn => ?_
      unfold Node.Precedes
      rw [walk_implOf ht (hmethods _ hm), walk_implOf ht (hmethods _ hn)]
      exact hmn
    · refine List.forall_mem_map.mpr fun m hm => ?_
      rw [walk_implOf ht (hmethods m hm)]
      exact hfirst o ho m (List.mem_cons_of_mem _ hm)
  have hnodes : implsOf (y.parts.map (·.node)) = impls.parts.map (·.node) := by
    simp [hparts, implsOf, impls]
  rw [hnodes]
  exact himpls.node .block

theorem gathers_ordered : Gathers fun ts y => Laid ts y ∧ (Rising ts → y.Ordered) where
  nothing := ⟨gathers_laid.nothing, fun _ => ⟨List.forall_mem_nil _, .nil, nofun⟩⟩
  keep t := by
    refine ⟨gathers_laid.keep t, fun _ => ⟨?_, List.pairwise_singleton .., fun o ho => ?_⟩⟩
    · exact List.forall_mem_singleton.mpr (.token ..)
    · refine List.forall_mem_singleton.mpr (List.forall_mem_singleton.mpr ?_)
      exact (Option.some.inj ho).ge
  drop t := ⟨gathers_laid.drop t, fun _ => ⟨List.forall_mem_nil _, .nil, nofun⟩⟩
  append := fun ⟨hy, hyo⟩ ⟨hz, hzo⟩ => ⟨hy.append hz, fun h =>
    have hparts := List.pairwise_append.mp h
    .append h hy hz (hyo hparts.1) (hzo hparts.2.1)⟩
  node := fun ⟨hy, hyo⟩ hlabel => ⟨hy.node hlabel, fun h => (hyo h).node _⟩
  within := fun ⟨hy, hyo⟩ => ⟨hy.within, fun h => .within hy (hyo h)⟩
  impls := fun ⟨hy, hyo⟩ hne hparts ht hmethods =>
    ⟨hy.impls hne hparts hmethods, fun h => (hyo h).impls hparts ht hmethods⟩

/-! ## Programs -/

/-- A text is found at a position of a source. -/
def FoundAt (source text : String) (p : Pos) : Prop :=
  ∃ before after, source.toList = before ++ text.toList ++ after ∧ p.Locates before

/-- A token's text is found at its position. -/
theorem foundAt_of_mem_tokens {source : String} {t : Lexeme} (h : t ∈ tokens source) :
    FoundAt source t.text t.pos := by
  obtain ⟨last, -, hstands, -⟩ :=
    cuts_lexFrom (Nat.le_refl source.toList.length) rfl Pos.locates_start
  have ht := hstands t (List.mem_of_mem_filter h)
  refine ⟨source.toList.take t.start, (source.toList.drop t.start).drop t.text.length, ?_,
    ht.place⟩
  have hslice : (source.toList.drop t.start).take t.text.length = t.text.toList := ht.slice
  rw [← hslice, List.append_assoc, List.take_append_drop, List.take_append_drop]

theorem ordered_of_parse {source : String} {tree : Node} (h : parse source = .ok tree) :
    tree.Ordered := by
  obtain ⟨n, ⟨outer, hn⟩, rfl⟩ := isTreeOf_of_parse (isProgram_of_parse h).1 h
  obtain ⟨y, hstatements, hy⟩ := reads_program_iff.mp (reads_lower hn)
  have hordered := (laid_of_reads gathers_ordered hstatements nofun).2 (rising_tokens source)
  have hprogram := hordered.node .block
  rw [← hy] at hprogram
  exact hprogram.ordered _ (List.mem_singleton_self _)

/-- In the tree of a program every node has a position, but for parameters, arguments and fields
without any and for the program itself when it is empty. A token's text is found in the source at
its position. On a walk through the tree positions do not go back, and the children of a node start
one after the other, except for the names of structs in front of methods. -/
theorem positions_of_parse {source : String} {tree : Node} (h : parse source = .ok tree) :
    (∀ label cs, .tree label cs none ∈ tree.inside → cs = [] ∧
      (label ∈ [Label.params, .args, .fields] ∨ tree = .tree .block [] none)) ∧
    (∀ kind text pos, .token kind text pos ∈ tree.inside →
      ∃ p, pos = some p ∧ FoundAt source text p) ∧
    tree.walk.Pairwise (· ≤ ·) ∧
    ∀ label cs pos, .tree label cs pos ∈ tree.inside →
      ((label.own cs).filterMap Node.start?).Pairwise (· < ·) := by
  have hordered := ordered_of_parse h
  have hchildren : ∀ label cs pos, .tree label cs pos ∈ tree.inside →
      ((label.own cs).filterMap Node.start?).Pairwise (· < ·) :=
    fun label cs pos hmem => (hordered.of_mem_inside _ hmem).pairwise_children
  by_cases hne : tokens source = []
  · obtain rfl := parse_of_no_tokens h hne
    refine ⟨fun label cs hmem => ?_, fun kind text pos hmem => ?_, hordered.pairwise_walk,
      hchildren⟩
    · cases List.mem_singleton.mp hmem
      exact ⟨rfl, .inr rfl⟩
    · cases List.mem_singleton.mp hmem
  · have hplaced := (placed_of_parse h hne).of_mem_inside
    refine ⟨fun label cs hmem => ?_, fun kind text pos hmem => ?_, hordered.pairwise_walk,
      hchildren⟩
    · cases hplaced _ hmem with
      | empty hl =>
        refine ⟨rfl, .inl ?_⟩
        cases label <;> first | decide | cases hl
    · cases hplaced _ hmem with
      | token ht => exact ⟨_, rfl, foundAt_of_mem_tokens ht⟩

set_option maxRecDepth 2000 in
/-- The name of the struct stands before the method that it is copied to; all else is in order. -/
theorem positions_of_parse_method :
    ∃ tree, parse "impl P \x7b\n fn m() \x7b a \x7d\n\x7d" = .ok tree ∧
      tree.walk = [⟨1, 1⟩, ⟨1, 1⟩, ⟨2, 2⟩, ⟨2, 5⟩, ⟨2, 9⟩, ⟨2, 11⟩] ∧
      tree.walk.Pairwise (· ≤ ·) ∧ .token .ident "P" (some ⟨1, 6⟩) ∈ tree.inside ∧
      FoundAt "impl P \x7b\n fn m() \x7b a \x7d\n\x7d" "P" ⟨1, 6⟩ := by
  obtain ⟨tree, hparse, hpositions, hname⟩ : ∃ tree,
      parse "impl P \x7b\n fn m() \x7b a \x7d\n\x7d" = .ok tree ∧
      tree.walk = [⟨1, 1⟩, ⟨1, 1⟩, ⟨2, 2⟩, ⟨2, 5⟩, ⟨2, 9⟩, ⟨2, 11⟩] ∧
      .token .ident "P" (some ⟨1, 6⟩) ∈ tree.inside :=
    ⟨.tree .block [.tree .block [
      .tree .impl [.token .ident "P" (some ⟨1, 6⟩), .token .ident "m" (some ⟨2, 5⟩),
        .tree .params [] none, .tree .block [.token .ident "a" (some ⟨2, 11⟩)] (some ⟨2, 9⟩)]
          (some ⟨2, 2⟩)] (some ⟨1, 1⟩)] (some ⟨1, 1⟩), by rfl, rfl,
      by simp [Node.inside, Node.insideAll]⟩
  obtain ⟨-, htokens, hwalk, -⟩ := positions_of_parse hparse
  obtain ⟨p, hp, hfound⟩ := htokens _ _ _ hname
  cases hp
  exact ⟨tree, hparse, hpositions, hwalk, hname, hfound⟩

end Tern
