import Tern.Proofs.Readings

/-!
# Telling productions apart

How a nonterminal is continued is decided by a few tokens: two of its productions never begin with
the same kinds of token, if one adds what may come after the nonterminal where a production is
shorter than the other (`eq_of_matches`). The only exception is a name before an empty pair of
braces, which constructs a struct or stands before a block.

What may come after a nonterminal is a table (`Goal.follow`), right for all goals that a program
leads to (`Suited`). That it is right, and that the productions differ, are checks over the
productions.
-/

namespace Tern

open TokenKind

/-! ## Kinds that can be read -/

/-- Tokens of these kinds can be read towards the goals. -/
def Matches (gs : List Goal) (ks : List TokenKind) : Prop :=
  ∃ fs ts fs', Derives gs fs ts fs' ∧ kinds ts = ks

theorem Derives.matches {gs : List Goal} {fs fs' : List Frame} {ts : List Lexeme}
    (h : Derives gs fs ts fs') : Matches gs (kinds ts) := ⟨fs, ts, fs', h, rfl⟩

theorem Matches.append {gs hs : List Goal} {ks ls : List TokenKind} (h : Matches gs ks)
    (hrest : Matches hs ls) : Matches (gs ++ hs) (ks ++ ls) := by
  obtain ⟨fs, ts, mid, hd, rfl⟩ := h
  obtain ⟨fs₁, us, fs₂, hd₁, rfl⟩ := hrest
  obtain ⟨fs', hd₁⟩ := hd₁.retoken rfl mid
  exact ⟨fs, ts ++ us, fs', hd.append hd₁, kinds_append ..⟩

theorem Matches.split {gs hs : List Goal} {ks : List TokenKind} (h : Matches (gs ++ hs) ks) :
    ∃ ks₁ ks₂, Matches gs ks₁ ∧ Matches hs ks₂ ∧ ks = ks₁ ++ ks₂ := by
  obtain ⟨fs, ts, fs', hd, rfl⟩ := h
  obtain ⟨us, vs, mid, hfirst, hrest, rfl⟩ := hd.split rfl
  exact ⟨_, _, hfirst.matches, hrest.matches, kinds_append ..⟩

/-! ## What comes next -/

/-- What may come next towards some goals: goals that begin with a token, or none. -/
def openings (gs : List Goal) : List (List Goal) := (advance gs []).map (·.goals)

/-- The token that goals begin with, and what is left. -/
def firstToken? : List Goal → Option (TokenKind × List Goal)
  | .keep k :: gs | .drop k :: gs => some (k, gs)
  | _ => none

theorem exists_opening {gs rest : List Goal} {ks : List TokenKind} (h : Matches (gs ++ rest) ks) :
    ∃ o ∈ openings gs, Matches (o ++ rest) ks := by
  obtain ⟨ks₁, ks₂, ⟨fs, ts, fs', hd, rfl⟩, hrest, rfl⟩ := h.split
  obtain ⟨fs₁, hd⟩ := hd.retoken rfl []
  obtain ⟨r, hr, -, hd⟩ := exists_reading_of_derives hd
  exact ⟨r.goals, List.mem_map.mpr ⟨r, hr, rfl⟩, hd.matches.append hrest⟩

theorem Matches.of_firstToken? {o gs rest : List Goal} {k : TokenKind} {ks : List TokenKind}
    (ho : firstToken? o = some (k, gs)) (h : Matches (o ++ rest) ks) :
    ∃ ls, ks = k :: ls ∧ Matches (gs ++ rest) ls := by
  obtain ⟨fs, ts, fs', hd, rfl⟩ := h
  unfold firstToken? at ho
  split at ho
  · cases ho
    cases hd with
    | keep t hd => exact ⟨_, rfl, hd.matches⟩
    | expand hp => cases hp
  · cases ho
    cases hd with
    | drop t hd => exact ⟨_, rfl, hd.matches⟩
    | expand hp => cases hp
  · cases ho

/-! ## Goals that begin differently -/

def emptyPairs : List TokenKind := [ident, braceOpen, braceClose]

/-- No tokens can be read towards both, as far as the first `n` of them show; empty pairs, of
which some may have been seen already, are left out. -/
def differ : (n : Nat) → (seen : List TokenKind) → List Goal → List Goal → Bool
  | 0, _, _, _ => false
  | n + 1, seen, gs, hs =>
    (openings gs).all fun o => (openings hs).all fun o' =>
      match firstToken? o, firstToken? o' with
      | some (k, gs'), some (k', hs') =>
        k != k' || seen ++ [k] == emptyPairs || differ n (seen ++ [k]) gs' hs'
      | _, _ => false

theorem emptyPairs_of_differ : ∀ {n : Nat} {seen ks : List TokenKind} {gs hs xs ys : List Goal},
    differ n seen gs hs → Matches (gs ++ xs) ks → Matches (hs ++ ys) ks →
    emptyPairs <+: seen ++ ks
  | n + 1, seen, ks, gs, hs, xs, ys, h, hgs, hhs => by
      obtain ⟨o, ho, hgs⟩ := exists_opening hgs
      obtain ⟨o', ho', hhs⟩ := exists_opening hhs
      have hpair := List.all_eq_true.mp (List.all_eq_true.mp h o ho) o' ho'
      split at hpair
      · next k gs' k' hs' hfirst hfirst' =>
        obtain ⟨ls, rfl, hgs'⟩ := hgs.of_firstToken? hfirst
        obtain ⟨ls', hls, hhs'⟩ := hhs.of_firstToken? hfirst'
        cases hls
        simp only [bne_self_eq_false, Bool.false_or, Bool.or_eq_true, beq_iff_eq] at hpair
        rw [List.append_cons]
        rcases hpair with hseen | hpair
        · rw [hseen]
          exact List.prefix_append ..
        · exact emptyPairs_of_differ hpair hgs' hhs'
      · cases hpair

/-! ## What comes after a goal -/

namespace Goal

/-- The kind of the end of a program: one that no goal waits for. -/
def finish : TokenKind := blank

/-- What may come after an expression. A brace opens a block or the arms of a match. -/
def expressionEnds : List (List Goal) :=
  [ [drop braceOpen, statements, drop braceClose], [drop braceOpen, arms, drop braceClose],
    [drop bracketClose], [drop parenClose], [drop semicolon], [drop braceClose], [drop comma],
    [drop arrow], [drop finish] ]

def statementStarts : List (List Goal) :=
  [ [drop fnWord], [drop structWord], [drop implWord], [drop whileWord], [drop forWord],
    [drop letWord], [drop ifWord], [drop matchWord], [keep number], [keep string],
    [keep trueWord], [keep falseWord], [keep ident], [drop braceOpen], [drop bracketOpen],
    [drop parenOpen] ]

/-- What may come after a nonterminal that can be read in several ways; after anything else no
more than that something comes is said. -/
def follow : Goal → List (List Goal)
  | statements | afterItem | afterSimple | afterBraced => [[drop braceClose], [drop finish]]
  | expression | chain _ _ => expressionEnds
  | operand => operatorLevels.map ([keep ·]) ++ expressionEnds
  | elsePart | alternative =>
    operatorLevels.map ([keep ·]) ++ statementStarts ++ expressionEnds.filter (·.length = 1)
  | names _ | moreNames | nextName => [[drop parenClose], [drop braceClose]]
  | arguments => [[drop parenClose]]
  | items | moreItems => [[drop bracketClose], [drop parenClose]]
  | pairs | morePairs | arms | moreArms | methods => [[drop braceClose]]
  | _ => [[]]

def nonterminals : List Goal :=
  [ statements, afterItem, afterSimple, afterBraced, block, elsePart, alternative, expression,
    operand, chain false false, chain false true, chain true false, chain true true,
    names .params, names .fields, moreNames, nextName, arguments, items, moreItems, pairs,
    morePairs, arms, moreArms, methods ]

/-- The productions differ, the shorter one with all that may come after it. -/
def apart (g : Goal) (p q : List Goal) : Bool :=
  -- enough tokens to tell the brace, name and colon of a construction from a block or from arms
  differ 5 [] p q || g.follow.all (fun c => differ 5 [] (p ++ c) q)
    || g.follow.all (fun c => differ 5 [] p (q ++ c))

def announces : Goal → Bool
  | keep k | drop k => k == structWord || k == implWord
  | _ => false

end Goal

def Follows (contexts : List (List Goal)) (rest : List Goal) : Prop :=
  ∀ ks, Matches rest ks → ∃ c ∈ contexts, ∃ more, Matches (c ++ more) ks

open Goal in
theorem apart_of_mem_productions :
    ∀ g ∈ nonterminals, ∀ p ∈ g.productions, ∀ q ∈ g.productions, p = q ∨ g.apart p q := by
  decide +kernel

theorem Follows.matches {contexts : List (List Goal)} {gs rest : List Goal} {ks : List TokenKind}
    (hrest : Follows contexts rest) (h : Matches (gs ++ rest) ks) :
    ∃ c ∈ contexts, ∃ more, Matches (gs ++ c ++ more) ks := by
  obtain ⟨ks₁, ks₂, hgs, hmatch, rfl⟩ := h.split
  obtain ⟨c, hc, more, hmore⟩ := hrest ks₂ hmatch
  refine ⟨c, hc, more, ?_⟩
  rw [List.append_assoc]
  exact hgs.append hmore

/-- A nonterminal has one production for the tokens that come, unless these are a name and an
empty pair of braces. -/
theorem eq_of_matches {g : Goal} (hg : g ∈ Goal.nonterminals) {p q : List Goal}
    (hp : p ∈ g.productions) (hq : q ∈ g.productions) {rest : List Goal}
    (hrest : Follows g.follow rest) {ks : List TokenKind} (hpm : Matches (p ++ rest) ks)
    (hqm : Matches (q ++ rest) ks) : p = q ∨ emptyPairs <+: ks := by
  refine (apart_of_mem_productions g hg p hp q hq).imp_right fun h => ?_
  simp only [Goal.apart, Bool.or_eq_true, List.all_eq_true] at h
  rcases h with (h | h) | h
  · exact emptyPairs_of_differ h hpm hqm
  · obtain ⟨c, hc, more, hpm⟩ := hrest.matches hpm
    exact emptyPairs_of_differ (h c hc) hpm hqm
  · obtain ⟨c, hc, more, hqm⟩ := hrest.matches hqm
    exact emptyPairs_of_differ (h c hc) hpm hqm

/-! ## Goals of programs -/

/-- What is left after a goal suits the table, if the ways in which it can end are those given. -/
def Goal.suits (contexts : List (List Goal)) (g : Goal) (rest : List Goal) : Bool :=
  (openings rest).all fun o => (if o = [] then contexts else [o]).all fun c =>
    g.follow.any (·.isPrefixOf c)

/-- Goals in an order that suits the table. -/
def allSuit (contexts : List (List Goal)) : List Goal → Bool
  | [] => true
  | g :: rest =>
    (g.productions = [] || g ∈ Goal.nonterminals)
      && (!g.announces || rest.head? = some (.keep ident)) && g.suits contexts rest
      && allSuit contexts rest

/-- Goals of which each is followed by what may come after it. -/
inductive Suited : List Goal → Prop
  | nil : Suited []
  | cons {g : Goal} {rest : List Goal} (hknown : g.productions = [] ∨ g ∈ Goal.nonterminals)
      (hname : g.announces → rest.head? = some (.keep ident)) (hfollow : Follows g.follow rest)
      (hrest : Suited rest) : Suited (g :: rest)

/-- Goals before others go on with a token of their own, or they are done and what may come after
them goes on. -/
theorem Follows.exists_context {contexts : List (List Goal)} {gs rest : List Goal}
    {ks : List TokenKind} (hrest : Follows contexts rest) (h : Matches (gs ++ rest) ks) :
    ∃ o ∈ openings gs, ∃ c ∈ (if o = [] then contexts else [o]), ∃ more,
      Matches (c ++ more) ks := by
  obtain ⟨o, ho, hmatch⟩ := exists_opening h
  refine ⟨o, ho, ?_⟩
  split
  · next hnil =>
    rw [hnil] at hmatch
    exact hrest ks hmatch
  · exact ⟨o, List.mem_singleton_self o, rest, hmatch⟩

/-- At the end no more is said than that nothing comes. -/
theorem follows_nil : Follows [[]] [] := fun _ h => ⟨[], List.mem_singleton_self _, [], h⟩

theorem follows_of_suits {contexts : List (List Goal)} {g : Goal} {gs rest : List Goal}
    (h : g.suits contexts gs) (hrest : Follows contexts rest) : Follows g.follow (gs ++ rest) := by
  intro ks hks
  obtain ⟨o, ho, c, hc, more, hmore⟩ := hrest.exists_context hks
  have hall := List.all_eq_true.mp h o ho
  obtain ⟨c', hc', hprefix⟩ := List.any_eq_true.mp (List.all_eq_true.mp hall c hc)
  obtain ⟨later, rfl⟩ := List.isPrefixOf_iff_prefix.mp hprefix
  rw [List.append_assoc] at hmore
  exact ⟨c', hc', _, hmore⟩

theorem Suited.append {contexts : List (List Goal)} {rest : List Goal}
    (hfollow : Follows contexts rest) (hrest : Suited rest) :
    ∀ {gs : List Goal}, allSuit contexts gs → Suited (gs ++ rest)
  | [], _ => hrest
  | g :: gs, h => by
      simp only [allSuit, Bool.and_eq_true, Bool.or_eq_true, decide_eq_true_eq,
        Bool.not_eq_true'] at h
      obtain ⟨⟨⟨hknown, hname⟩, hsuits⟩, hgs⟩ := h
      refine .cons hknown (fun hg => ?_) (follows_of_suits hsuits hfollow)
        (hrest.append hfollow hgs)
      rw [hg] at hname
      have hhead := hname.resolve_left nofun
      show (gs ++ rest).head? = some (.keep ident)
      rw [List.head?_append, hhead]
      rfl

theorem allSuit_of_mem_productions :
    ∀ g ∈ Goal.nonterminals, ∀ p ∈ g.productions, allSuit g.follow p := by
  decide +kernel

theorem Suited.expand {g : Goal} {p rest : List Goal} (h : Suited (g :: rest))
    (hp : p ∈ g.productions) : g ∈ Goal.nonterminals ∧ Suited (p ++ rest) := by
  cases h with
  | cons hknown _ hfollow hrest =>
    have hg : g ∈ Goal.nonterminals := by
      refine hknown.resolve_left fun hnil => ?_
      rw [hnil] at hp
      cases hp
    exact ⟨hg, hrest.append hfollow (allSuit_of_mem_productions g hg p hp)⟩

theorem suited_program : Suited (Goal.program ++ [.drop Goal.finish]) := by
  have hall : allSuit [[]] (Goal.program ++ [.drop Goal.finish]) := by decide
  have h := Suited.nil.append follows_nil hall
  rwa [List.append_nil] at h

end Tern
