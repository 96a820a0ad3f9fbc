import Tern.Proofs.Lookahead

/-!
# One tree

Tokens that can be read as a program can be read in one way only, as long as no name stands before
an empty pair of braces where that could be a construction (`Derives.unique`). So all trees that
the rules make of them are lowered to the same (`lower_eq_of_isTreeOf`): a conditional, a match or
a block that stands as a statement or as an expression is the same tree, with a semicolon after it
or without.
-/

namespace Tern

open TokenKind

/-- The last token announces a name: `struct` or `impl`. -/
def Announced (ks : List TokenKind) : Prop :=
  ks.getLast? = some structWord ∨ ks.getLast? = some implWord

/-- A name stands before an empty pair of braces only where it is announced. -/
def NoEmptyPairs (ks : List TokenKind) : Prop :=
  ∀ before after, ks = before ++ emptyPairs ++ after → Announced before

/-- After a word that announces it a name is read. -/
def Heeds (before : List TokenKind) (gs : List Goal) : Prop :=
  Announced before → gs.head? = some (.keep ident)

theorem announces_of_announced {ks : List TokenKind} {k : TokenKind}
    (h : Announced (ks ++ [k])) : k = structWord ∨ k = implWord := by
  simpa [Announced] using h

theorem Heeds.not_announced {before : List TokenKind} {g : Goal} {gs : List Goal}
    (h : Heeds before (g :: gs)) (hg : g ≠ .keep ident) : ¬Announced before := by
  intro hannounced
  exact hg (Option.some.inj (h hannounced))

theorem Heeds.of_not {before : List TokenKind} (h : ¬Announced before) (gs : List Goal) :
    Heeds before gs := fun hannounced => absurd hannounced h

theorem Suited.heeds {g : Goal} {rest : List Goal} (h : Suited (g :: rest)) {k : TokenKind}
    (hg : g = .keep k ∨ g = .drop k) (before : List TokenKind) : Heeds (before ++ [k]) rest := by
  intro hannounced
  cases h with
  | cons _ hname _ _ =>
    apply hname
    rcases hg with rfl | rfl <;>
      rcases announces_of_announced hannounced with rfl | rfl <;> rfl

theorem Suited.tail {g : Goal} {rest : List Goal} (h : Suited (g :: rest)) : Suited rest := by
  cases h with
  | cons _ _ _ hrest => exact hrest

theorem emptyPairs_of_append_finish {ks : List TokenKind}
    (h : emptyPairs <+: ks ++ [Goal.finish]) : emptyPairs <+: ks := by
  rcases List.prefix_concat_iff.mp h with heq | h
  · have hlast := congrArg List.getLast? heq
    rw [List.getLast?_concat] at hlast
    cases hlast
  · exact h

theorem matches_append_finish {gs : List Goal} {fs fs' : List Frame} {ts : List Lexeme}
    (h : Derives gs fs ts fs') :
    Matches (gs ++ [.drop Goal.finish]) (kinds ts ++ [Goal.finish]) := by
  have hfinish : Derives [.drop Goal.finish] [] [⟨Goal.finish, "", .start, 0⟩] _ :=
    .drop ⟨Goal.finish, "", .start, 0⟩ (.done _)
  exact h.matches.append hfinish.matches

theorem production_unique {g : Goal} {gs p q : List Goal} {fs fs₁ fs₂ : List Frame}
    {ts : List Lexeme} {before : List TokenKind} (hp : p ∈ g.productions)
    (hq : q ∈ g.productions) (hpd : Derives (p ++ gs) fs ts fs₁)
    (hqd : Derives (q ++ gs) fs ts fs₂) (hsuited : Suited (g :: gs ++ [.drop Goal.finish]))
    (hpairs : NoEmptyPairs (before ++ kinds ts)) (hbefore : ¬Announced before) : p = q := by
  obtain ⟨hg, -⟩ := hsuited.expand hp
  cases hsuited with
  | cons _ _ hfollow _ =>
    have hpm := matches_append_finish hpd
    have hqm := matches_append_finish hqd
    rw [List.append_assoc] at hpm hqm
    refine (eq_of_matches hg hp hq hfollow hpm hqm).resolve_right fun h => ?_
    obtain ⟨after, hafter⟩ := emptyPairs_of_append_finish h
    exact hbefore (hpairs before after (by rw [← hafter, List.append_assoc]))

theorem Derives.unique {gs : List Goal} {fs fs₁ : List Frame} {ts : List Lexeme}
    (h : Derives gs fs ts fs₁) : ∀ {before : List TokenKind} {fs₂ : List Frame},
    Derives gs fs ts fs₂ → Suited (gs ++ [.drop Goal.finish]) →
    NoEmptyPairs (before ++ kinds ts) → Heeds before (gs ++ [.drop Goal.finish]) → fs₁ = fs₂ := by
  induction h with
  | done fs =>
      intro before fs₂ h₂ _ _ _
      cases h₂
      rfl
  | keep t _ ih =>
      intro before fs₂ h₂ hsuited hpairs _
      rw [kinds_cons, List.append_cons] at hpairs
      exact ih h₂.of_keep hsuited.tail hpairs (hsuited.heeds (.inl rfl) before)
  | drop t _ ih =>
      intro before fs₂ h₂ hsuited hpairs _
      rw [kinds_cons, List.append_cons] at hpairs
      exact ih h₂.of_drop hsuited.tail hpairs (hsuited.heeds (.inr rfl) before)
  | enter _ ih =>
      intro before fs₂ h₂ hsuited hpairs hheeds
      have hbefore := hheeds.not_announced nofun
      cases h₂ with
      | enter h₂ => exact ih h₂ hsuited.tail hpairs (.of_not hbefore _)
      | expand hq => cases hq
  | leave rule _ ih =>
      intro before fs₂ h₂ hsuited hpairs hheeds
      have hbefore := hheeds.not_announced nofun
      cases h₂ with
      | leave _ h₂ => exact ih h₂ hsuited.tail hpairs (.of_not hbefore _)
      | expand hq => cases hq
  | @expand g gs fs fs' ts p hp hpd ih =>
      intro before fs₂ h₂ hsuited hpairs hheeds
      -- a nonterminal is never announced, so the tokens do not begin with an empty pair here
      have hnone : g.productions ≠ [] := List.ne_nil_of_mem hp
      have hbefore : ¬Announced before := hheeds.not_announced (by rintro rfl; exact hnone rfl)
      cases h₂ with
      | @expand _ _ _ _ _ q hq hqd =>
        cases production_unique hp hq hpd hqd hsuited hpairs hbefore
        refine ih hqd ?_ hpairs (.of_not hbefore _)
        rw [List.append_assoc]
        exact (hsuited.expand hp).2
      | keep => cases hp
      | drop => cases hp
      | enter => cases hp
      | leave => cases hp

/-- Nothing else is made of tokens that no name before an empty pair of braces is among, unless it
is announced. -/
theorem node_eq_of_derives {ts : List Lexeme} (hts : NoEmptyPairs (kinds ts)) {n m : Node}
    {outer outer' : Option Pos}
    (hn : Derives Goal.program [.empty] ts (absorb (.one ⟨n, outer⟩) [.empty]))
    (hm : Derives Goal.program [.empty] ts (absorb (.one ⟨m, outer'⟩) [.empty])) : n = m := by
  have hstart : Heeds [] (Goal.program ++ [.drop Goal.finish]) := .of_not (by simp [Announced]) _
  have hframes := hn.unique hm suited_program hts hstart
  obtain ⟨-, hnode, -⟩ : outer = outer' ∧ n = m ∧ outer = outer' := by
    simpa only [absorb, Frame.empty, Yield.one, List.cons.injEq, Frame.mk.injEq, Part.mk.injEq,
      List.reverse_singleton, List.singleton_append, and_true, Option.none_or] using hframes
  exact hnode

/-- All trees of a token sequence are lowered to the same, if no name stands before an empty pair
of braces unless it is announced. -/
theorem lower_eq_of_isTreeOf {ts : List Lexeme} (hts : NoEmptyPairs (kinds ts)) {n m : Node}
    (hn : IsTreeOf n ts) (hm : IsTreeOf m ts) : n.lower = m.lower := by
  obtain ⟨outer, hnd⟩ := derives_of_isTreeOf hn [.empty]
  obtain ⟨outer', hmd⟩ := derives_of_isTreeOf hm [.empty]
  exact node_eq_of_derives hts hnd hmd

set_option maxRecDepth 2000 in
/-- The block before the semicolon is an item or an expression, and `struct P {}` has no other
reading. -/
theorem lower_eq_of_isTreeOf_struct : NoEmptyPairs (kinds (tokens "struct P {} {};")) ∧
    (∃ n, IsTreeOf n (tokens "struct P {} {};")) ∧
    ∀ m, IsTreeOf m (tokens "struct P {} {};") → m.lower =
      .tree .block [.tree .structDef [.token .ident "P" (some ⟨1, 8⟩), .tree .fields [] none]
        (some ⟨1, 1⟩), .tree .block [] (some ⟨1, 13⟩)] (some ⟨1, 1⟩) := by
  have hpairs : NoEmptyPairs (kinds (tokens "struct P {} {};")) := by
    intro before after h
    have hkinds : kinds (tokens "struct P {} {};") = [structWord, ident, braceOpen, braceClose,
      braceOpen, braceClose, semicolon] := rfl
    rw [hkinds] at h
    rcases before with _ | ⟨k, _ | ⟨l, before⟩⟩
    · cases h
    · cases h
      exact .inl rfl
    · have hmem : ident ∈ [braceOpen, braceClose, braceOpen, braceClose, semicolon] := by
        rw [(List.cons.inj (List.cons.inj h).2).2]
        simp [emptyPairs]
      simp at hmem
  have hlex : (lex "struct P {} {};").failure? = none := rfl
  obtain ⟨n, hn, hlower⟩ := isTreeOf_of_parse hlex rfl
  exact ⟨hpairs, ⟨n, hn⟩, fun m hm => (lower_eq_of_isTreeOf hpairs hm hn).trans hlower⟩

end Tern
