import Tern.Proofs.Bare
import Tern.Proofs.Brackets
import Tern.Proofs.Cuts
import Tern.Proofs.Relaxation
import Tern.Proofs.Spellings
import Tern.Proofs.Unambiguous

/-!
# Programs one after the other

Where a program ends in a semicolon, a newline and another program may follow, and the whole is a
program with the statements of both (`parse_joined`): the second is cut into the same tokens, only
further down, and statements can be cut where the first ends, but nowhere else at that place. To
run the whole is to submit the one and then the other, as long as the first does not fail
(`run_joined`).
-/

namespace Tern

open Eval

/-! ## What is read further down -/

section Relocated

variable (f : Pos → Pos)

def Yield.relocate (y : Yield) : Yield := ⟨y.parts.map (·.relocate f), y.outer.map f⟩

theorem Yield.relocate_append (y z : Yield) :
    (y ++ z).relocate f = y.relocate f ++ z.relocate f :=
  Yield.ext (List.map_append ..) Option.map_or

theorem Yield.relocate_node (label : Label) (y : Yield) :
    (y.node label).relocate f = (y.relocate f).node label := by
  simp [node, relocate, one, Part.relocate, Function.comp_def]

theorem Yield.relocate_thin (label : Label) (y : Yield) :
    (y.thin label).relocate f = (y.relocate f).thin label := by
  obtain ⟨_ | ⟨⟨node, own⟩, _ | ⟨q, rest⟩⟩, outer⟩ := y
  · exact relocate_node f label _
  · cases node <;> simp [thin, relocate, one, Part.relocate, Part.within]
  · exact relocate_node f label _

theorem implsOf_relocate (ns : List Node) :
    implsOf (ns.map (·.relocate f)) = (implsOf ns).map (·.relocate f) := by
  have himpl : ∀ struct n : Node, (struct.relocate f).implOf (n.relocate f) =
      (struct.implOf n).relocate f := by
    intro struct n
    cases n <;> simp [Node.implOf]
  cases ns with
  | nil => rfl
  | cons struct methods => simp [implsOf, Function.comp_def, himpl]

theorem surface_relocate (n : Nonterminal) (alias? : Option Label) (y : Yield) :
    Convention.surface n alias? (y.relocate f) = (Convention.surface n alias? y).relocate f := by
  unfold Convention.surface
  split
  · rfl
  · split
    · exact (Yield.relocate_thin f _ y).symm
    · exact (Yield.relocate_node f _ y).symm

theorem lowered_relocate (n : Nonterminal) (alias? : Option Label) (y : Yield) :
    Convention.lowered n alias? (y.relocate f) = (Convention.lowered n alias? y).relocate f := by
  by_cases hn : n = .implBlock
  · subst hn
    have himpls := implsOf_relocate f (y.parts.map (·.node))
    rw [List.map_map] at himpls
    simpa [Convention.lowered, Yield.relocate, Yield.one, Part.relocate, Function.comp_def]
      using himpls
  · rw [lowered_of_ne hn]
    exact surface_relocate f n alias? y

variable {f} {g : Lexeme → Lexeme} (hg : ∀ t : Lexeme, t.Moved f (g t))

include hg

theorem part_moved (t : Lexeme) : (g t).part = t.part.relocate f := by
  obtain ⟨hkind, htext, hpos⟩ := hg t
  simp [Lexeme.part, Part.relocate, hkind, htext, hpos]

theorem reads_relocate {p : Phrase} {ts : List Lexeme} {y : Yield}
    (h : p.Reads .lowered ts y) : p.Reads .lowered (ts.map g) (y.relocate f) := by
  induction h with
  | keep t =>
      have hread : (Phrase.keep (g t).kind).Reads .lowered [g t] (.one (g t).part) := .keep (g t)
      rwa [part_moved hg, (hg t).kind] at hread
  | drop t =>
      have hread : (Phrase.drop (g t).kind).Reads .lowered [g t] (.skipped (g t).pos) := .drop (g t)
      rwa [(hg t).pos, (hg t).kind] at hread
  | rule ha _ ih =>
      rw [← lowered_relocate]
      exact .rule ha ih
  | nothing => exact .nothing
  | seq _ _ ihp ihq =>
      rw [List.map_append, Yield.relocate_append]
      exact .seq ihp ihq
  | left _ ih => exact .left ih
  | right _ ih => exact .right ih
  | stop => exact .stop
  | again _ _ ih ihrest =>
      rw [List.map_append, Yield.relocate_append]
      exact .again ih ihrest
  | absent => exact .absent
  | present _ ih => exact .present ih

theorem exists_reads_of_relocate {p : Phrase} {ts us : List Lexeme} {z : Yield}
    (h : p.Reads .lowered us z) (hus : us = ts.map g) :
    ∃ y, p.Reads .lowered ts y ∧ z = y.relocate f := by
  induction h generalizing ts with
  | keep u =>
      obtain ⟨t, rfl, rfl⟩ := List.map_eq_singleton_iff.mp hus.symm
      rw [part_moved hg, (hg t).kind]
      exact ⟨_, .keep t, rfl⟩
  | drop u =>
      obtain ⟨t, rfl, rfl⟩ := List.map_eq_singleton_iff.mp hus.symm
      rw [(hg t).pos, (hg t).kind]
      exact ⟨_, .drop t, rfl⟩
  | rule ha _ ih =>
      obtain ⟨y, hy, rfl⟩ := ih hus
      exact ⟨_, .rule ha hy, lowered_relocate f _ _ y⟩
  | nothing =>
      obtain rfl := List.map_eq_nil_iff.mp hus.symm
      exact ⟨_, .nothing, rfl⟩
  | seq _ _ ihp ihq =>
      obtain ⟨ts, ts', rfl, hts, hts'⟩ := List.map_eq_append_iff.mp hus.symm
      obtain ⟨y, hy, rfl⟩ := ihp hts.symm
      obtain ⟨z, hz, rfl⟩ := ihq hts'.symm
      exact ⟨_, .seq hy hz, (Yield.relocate_append f y z).symm⟩
  | left _ ih =>
      obtain ⟨y, hy, rfl⟩ := ih hus
      exact ⟨_, .left hy, rfl⟩
  | right _ ih =>
      obtain ⟨y, hy, rfl⟩ := ih hus
      exact ⟨_, .right hy, rfl⟩
  | stop =>
      obtain rfl := List.map_eq_nil_iff.mp hus.symm
      exact ⟨_, .stop, rfl⟩
  | again _ _ ih ihrest =>
      obtain ⟨ts, ts', rfl, hts, hts'⟩ := List.map_eq_append_iff.mp hus.symm
      obtain ⟨y, hy, rfl⟩ := ih hts.symm
      obtain ⟨z, hz, rfl⟩ := ihrest hts'.symm
      exact ⟨_, .again hy hz, (Yield.relocate_append f y z).symm⟩
  | absent =>
      obtain rfl := List.map_eq_nil_iff.mp hus.symm
      exact ⟨_, .absent, rfl⟩
  | present _ ih =>
      obtain ⟨y, hy, rfl⟩ := ih hus
      exact ⟨_, .present hy, rfl⟩

end Relocated

/-! ## Programs and their statements -/

/-- The tree of a program with these statements. -/
def Yield.program (y : Yield) : Node := .tree .block (y.parts.map (·.node)) y.outer

/-- A text that is a program in one way only: all that the rules make of it is one tree. -/
structure IsUnambiguous (source : String) (tree : Node) : Prop where
  parse : parse source = .ok tree
  unique : ∀ n, IsTreeOf n (tokens source) → n.lower = tree

theorem Yield.program_of_one {n : Node} {outer : Option Pos} {y : Yield}
    (h : Yield.one ⟨n, outer⟩ = y.node .block) : n = y.program :=
  (Part.mk.inj (List.cons.inj (congrArg Yield.parts h)).1).1

theorem exists_isTreeOf_of_statements {ts : List Lexeme} {y : Yield}
    (h : Nonterminal.statements.Reads ts y) : ∃ n, IsTreeOf n ts ∧ n.lower = y.program := by
  obtain ⟨n, outer, hy, hn⟩ := exists_isTreeOf_of_reads (reads_program_iff.mpr ⟨y, h, rfl⟩)
  exact ⟨n, hn, Yield.program_of_one hy.symm⟩

theorem statements_of_isTreeOf {n : Node} {ts : List Lexeme} (h : IsTreeOf n ts) :
    ∃ y, Nonterminal.statements.Reads ts y ∧ n.lower = y.program := by
  obtain ⟨outer, hread⟩ := h
  obtain ⟨y, hstatements, hy⟩ := reads_program_iff.mp (reads_lower hread)
  exact ⟨y, hstatements, Yield.program_of_one hy⟩

theorem Yield.program_append (y z : Yield) : (y ++ z).program =
    .tree .block (y.program.children ++ z.program.children) (y.outer.or z.outer) :=
  congrArg (Node.tree .block · _) (List.map_append ..)

theorem Yield.program_relocate (f : Pos → Pos) (y : Yield) :
    (y.relocate f).program = y.program.relocate f := by
  simp [program, relocate, Function.comp_def]

theorem Node.children_relocate (f : Pos → Pos) (n : Node) :
    (n.relocate f).children = n.children.map (·.relocate f) := by
  cases n <;> simp [children]

theorem Lexeme.moved_down (lines chars : Nat) (t : Lexeme) :
    t.Moved (Pos.down lines) (t.down lines chars) :=
  ⟨rfl, rfl, rfl⟩

theorem noEmptyPairs_of_not_mem {ks : List TokenKind} (h : .braceOpen ∉ ks) : NoEmptyPairs ks := by
  rintro before after rfl
  simp [emptyPairs] at h

theorem isUnambiguous_of_parse {source : String} {tree : Node} (h : parse source = .ok tree)
    (hpairs : NoEmptyPairs (kinds (tokens source))) : IsUnambiguous source tree := by
  refine ⟨h, fun n hn => ?_⟩
  obtain ⟨m, hm, rfl⟩ := isTreeOf_of_parse (isProgram_of_parse h).1 h
  obtain ⟨outer, hnd⟩ := derives_of_isTreeOf hn [.empty]
  obtain ⟨outer', hmd⟩ := derives_of_isTreeOf hm [.empty]
  exact node_eq_of_derives hpairs hnd hmd

theorem IsUnambiguous.program_eq {source : String} {tree : Node} (h : IsUnambiguous source tree)
    {y : Yield} (hy : Nonterminal.statements.Reads (tokens source) y) : y.program = tree := by
  obtain ⟨n, hn, hlower⟩ := exists_isTreeOf_of_statements hy
  exact hlower.symm.trans (h.unique n hn)

theorem IsUnambiguous.exists_statements {source : String} {tree : Node}
    (h : IsUnambiguous source tree) : ∃ y, Nonterminal.statements.Reads (tokens source) y := by
  obtain ⟨n, hn, -⟩ := isTreeOf_of_parse (isProgram_of_parse h.parse).1 h.parse
  obtain ⟨y, hy, -⟩ := statements_of_isTreeOf hn
  exact ⟨y, hy⟩

theorem IsUnambiguous.exists_block {source : String} {tree : Node}
    (h : IsUnambiguous source tree) : ∃ pos, tree = .tree .block tree.children pos := by
  obtain ⟨y, hy⟩ := h.exists_statements
  exact ⟨y.outer, by rw [← h.program_eq hy]; rfl⟩

/-! ## Two texts with a newline between them -/

/-- One text, a newline, and another. -/
def joined (s₁ s₂ : String) : String := s₁ ++ "\n" ++ s₂

/-- The lines that the second text is further down. -/
def linesOf (s : String) : Nat := s.toList.count '\n' + 1

/-- The text after a newline is cut into the same tokens, further down. -/
theorem tokens_joined {s₁ s₂ : String} (h₁ : (lex s₁).failure? = none)
    (h₂ : (lex s₂).failure? = none) : (lex (joined s₁ s₂)).failure? = none ∧
      tokens (joined s₁ s₂) = tokens s₁ ++
        (tokens s₂).map (·.down (linesOf s₁) (s₁.toList.length + 1)) := by
  have hlocates : Pos.Locates s₁.toList (Pos.start.after s₁.toList) := by
    have hstart : Pos.start.Locates [] := ⟨rfl, rfl⟩
    exact hstart.after s₁.toList
  have hnext : (Pos.start.after s₁.toList).next '\n' = Pos.start.down (linesOf s₁) := by
    unfold Pos.next Pos.down linesOf
    rw [if_pos rfl, hlocates.line, Nat.add_assoc]
    rfl
  have hdown := (scans_tokens h₂).down (linesOf s₁) (s₁.toList.length + 1)
  rw [← hnext, ← Nat.add_assoc] at hdown
  have hscans := (scans_tokens h₁).append hdown
  have hchars : s₁.toList ++ '\n' :: s₂.toList = (joined s₁ s₂).toList := by
    simp [joined]
  rw [hchars] at hscans
  exact (tokens_of_scans hscans).symm

/-- Where a program ends in a semicolon, the statements of another may follow, and the whole
has no other tree. -/
theorem parse_joined {s₁ s₂ : String} {t₁ t₂ : Node} (h₁ : IsUnambiguous s₁ t₁)
    (h₂ : IsUnambiguous s₂ t₂) (hlast : ∃ t ∈ (tokens s₁).getLast?, t.kind = .semicolon) :
    parse (joined s₁ s₂) = .ok (.tree .block
      (t₁.children ++ t₂.children.map (·.relocate (Pos.down (linesOf s₁)))) t₁.position?) := by
  obtain ⟨hlex, htokens⟩ :=
    tokens_joined (isProgram_of_parse h₁.parse).1 (isProgram_of_parse h₂.parse).1
  obtain ⟨y₁, hy₁⟩ := h₁.exists_statements
  obtain ⟨y₂, hy₂⟩ := h₂.exists_statements
  obtain ⟨t, ht, hkind⟩ := hlast
  have hends : EndsStatement (tokens s₁) := by
    refine ⟨(closes_of_reads hy₁).closed, fun u hu => ?_⟩
    rwa [Option.mem_unique hu ht]
  have hmoved := Lexeme.moved_down (linesOf s₁) (s₁.toList.length + 1)
  obtain ⟨n, hn, -⟩ := exists_isTreeOf_of_statements
    (reads_statements_append hy₁ hends (reads_relocate hmoved hy₂))
  rw [← htokens] at hn
  -- Some tree is found, and whichever it is, it can be cut where the first text ends.
  obtain ⟨tree, hparse⟩ := exists_parse_of_isTreeOf hlex hn
  obtain ⟨m, hm, rfl⟩ := isTreeOf_of_parse hlex hparse
  obtain ⟨z, hz, hprogram⟩ := statements_of_isTreeOf hm
  rw [htokens] at hz
  obtain ⟨z₁, z₂, hz₁, hz₂, rfl⟩ := reads_statements_cut hz hends
  obtain ⟨z₂, hread, rfl⟩ := exists_reads_of_relocate hmoved hz₂ rfl
  have hne : tokens s₁ ≠ [] := by
    rintro hnil
    rw [hnil] at ht
    cases ht
  obtain ⟨p, hp⟩ :=
    Option.isSome_iff_exists.mp ((laid_of_reads gathers_laid hz₁ nofun).read hne)
  have hposition : z₁.program.position? = some p := by
    rw [Yield.program, hp]
    rfl
  rw [hparse, hprogram, Yield.program_append, Yield.program_relocate, Node.children_relocate, hp,
    ← h₁.program_eq hz₁, ← h₂.program_eq hread, hposition]
  rfl

/-! ## One run after the other -/

theorem block_append (ev : Evaluator) (e : LayerId) (ys : List Node) : ∀ (v : Value)
    (xs : List Node), block ev e v (xs ++ ys) = block ev e v xs >>= fun v => block ev e v ys
  | v, [] => rfl
  | v, n :: xs => by
      funext s
      rw [List.cons_append, block, block, bind_apply, bind_apply, bind_apply]
      rcases ev n e s with ⟨f | w, s'⟩
      · rfl
      · simp only [block_append ev e ys w xs, bind_apply]

/-- What a block has come to before makes no difference once there is a statement. -/
theorem block_of_ne_nil (ev : Evaluator) (e : LayerId) {ns : List Node} (h : ns ≠ [])
    (v w : Value) : block ev e v ns = block ev e w ns := by
  cases ns with
  | nil => exact absurd rfl h
  | cons n ns => rfl

theorem bare_located (n : Node) (x : Eval Value) (s : Store) :
    Outcome.bare (located n x s) = Outcome.bare (x s) := by
  unfold located
  rcases x s with ⟨f | v, s'⟩
  · cases f <;> rfl
  · rfl

/-- Where the first statements of a block come to a value, the block comes to what the others come
to after them. -/
theorem bare_block_append (limit depth : Nat) {xs ys ys' : List Node} (hne : ys ≠ [])
    (hys : ys.map Node.bare = ys'.map Node.bare) (p q r : Option Pos) {e : LayerId}
    {s s' : Store} {v : Value}
    (h : evalNode limit depth (.tree .block xs p) e s = (.ok v, s')) :
    Outcome.bare (evalNode limit depth (.tree .block (xs ++ ys) q) e s) =
      Outcome.bare (evalNode limit depth (.tree .block ys' r) e s') := by
  have hbare : (Node.tree .block ys r).bare = (Node.tree .block ys' r).bare := by
    rw [Node.bare_tree, Node.bare_tree, hys]
  cases depth with
  | zero => cases h
  | succ depth =>
      have hfirst : block (evalNode limit depth) e .nothing xs s = (.ok v, s') :=
        located_eq_ok.mp h
      rw [← bare_evalNode limit (depth + 1) hbare e rfl]
      calc Outcome.bare (evalNode limit (depth + 1) (.tree .block (xs ++ ys) q) e s)
          = Outcome.bare (block (evalNode limit depth) e .nothing (xs ++ ys) s) :=
            bare_located _ _ s
        _ = Outcome.bare (block (evalNode limit depth) e v ys s') := by
            rw [block_append, bind_apply, hfirst]
        _ = Outcome.bare (block (evalNode limit depth) e .nothing ys s') := by
            rw [block_of_ne_nil _ e hne v .nothing]
        _ = Outcome.bare (evalNode limit (depth + 1) (.tree .block ys r) e s') :=
            (bare_located _ _ s').symm

/-- To run two programs as one is to submit the one and then the other, if the first does not
fail. -/
theorem run_joined {s₁ s₂ : String} {t₁ t₂ : Node} (h₁ : IsUnambiguous s₁ t₁)
    (h₂ : IsUnambiguous s₂ t₂) (hlast : ∃ t ∈ (tokens s₁).getLast?, t.kind = .semicolon)
    (hne : t₂.children ≠ []) :
    parse (joined s₁ s₂) = .ok (.tree .block
        (t₁.children ++ t₂.children.map (·.relocate (Pos.down (linesOf s₁)))) t₁.position?) ∧
      ∀ e s v s', submit s₁ e s = (.ok v, s') →
        (run (joined s₁ s₂) e s).bare = (submit s₂ e s').bare := by
  have hparse := parse_joined h₁ h₂ hlast
  refine ⟨hparse, fun e s v s' hsubmit => ?_⟩
  obtain ⟨pos₁, ht₁⟩ := h₁.exists_block
  obtain ⟨pos₂, ht₂⟩ := h₂.exists_block
  have hfirst : evaluate (.tree .block t₁.children pos₁) e s = (.ok v, s') := by
    simp only [submit, h₁.parse] at hsubmit
    split at hsubmit
    · next hvalue =>
      cases hsubmit
      rwa [← ht₁]
    · cases hsubmit
  have hmap : (t₂.children.map (·.relocate (Pos.down (linesOf s₁)))).map Node.bare =
      t₂.children.map Node.bare := by
    simp [Function.comp_def]
  rw [bare_run hparse, bare_submit h₂.parse, ht₂]
  exact congrArg _ (bare_block_append turnLimit depthLimit (by simpa using hne) hmap pos₁
    t₁.position? pos₂ hfirst)

set_option maxRecDepth 2000 in
/-- The name that the one program binds is there for the other. -/
theorem run_joined_let :
    parse (joined "let x = true;" "x") = .ok (.tree .block [
        .tree .assign [.token .ident "x" (some ⟨1, 5⟩), .token .trueWord "true" (some ⟨1, 9⟩)]
          (some ⟨1, 1⟩),
        .token .ident "x" (some ⟨2, 1⟩)] (some ⟨1, 1⟩)) ∧
      ∃ v s', submit "let x = true;" 0 (Store.root {}) = (.ok v, s') ∧
        (run (joined "let x = true;" "x") 0 (Store.root {})).bare = (submit "x" 0 s').bare := by
  have hparse₁ : parse "let x = true;" = .ok (.tree .block [.tree .assign
      [.token .ident "x" (some ⟨1, 5⟩), .token .trueWord "true" (some ⟨1, 9⟩)] (some ⟨1, 1⟩)]
      (some ⟨1, 1⟩)) := by rfl
  have hparse₂ : parse "x" = .ok (.tree .block [.token .ident "x" (some ⟨1, 1⟩)]
      (some ⟨1, 1⟩)) := by rfl
  have hkinds₁ : .braceOpen ∉ kinds (tokens "let x = true;") := by decide
  have hkinds₂ : .braceOpen ∉ kinds (tokens "x") := by decide
  have h₁ : IsUnambiguous "let x = true;" _ :=
    isUnambiguous_of_parse hparse₁ (noEmptyPairs_of_not_mem hkinds₁)
  have h₂ : IsUnambiguous "x" _ := isUnambiguous_of_parse hparse₂ (noEmptyPairs_of_not_mem hkinds₂)
  have hlast : ∃ t ∈ (tokens "let x = true;").getLast?, t.kind = .semicolon := ⟨_, rfl, rfl⟩
  have hvalue : ∃ v, (submit "let x = true;" 0 (Store.root {})).1 = .ok v := by
    simp only [submit, hparse₁]
    exact ⟨_, rfl⟩
  obtain ⟨v, hvalue⟩ := hvalue
  obtain ⟨r, s', hsubmit⟩ : ∃ r s', submit "let x = true;" 0 (Store.root {}) = (r, s') :=
    ⟨_, _, Prod.mk.eta.symm⟩
  rw [hsubmit] at hvalue
  subst hvalue
  obtain ⟨hparse, hrun⟩ := run_joined h₁ h₂ hlast (List.cons_ne_nil _ _)
  exact ⟨hparse, v, s', hsubmit, hrun 0 _ v s' hsubmit⟩

end Tern
