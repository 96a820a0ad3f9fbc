import Tern.Syntax.Parse

/-!
# Derivations

What the parser's readings amount to. `Derives goals frames ts frames'` says that the tokens `ts`
can be read towards the goals, one production after the other, and that the rules entered and left
on the way turn the frames into others. Every reading that the parser follows is the rest of such
a derivation, so that the tree of a program has one (`derives_of_parse`).
-/

namespace Tern

/-- A leftmost derivation, with what it makes of the frames. -/
inductive Derives : List Goal → List Frame → List Lexeme → List Frame → Prop
  | done (fs : List Frame) : Derives [] fs [] fs
  | keep {gs : List Goal} {fs fs' : List Frame} {ts : List Lexeme} (t : Lexeme)
      (h : Derives gs (addPart ⟨.token t.kind t.text t.pos, t.pos⟩ fs) ts fs') :
      Derives (.keep t.kind :: gs) fs (t :: ts) fs'
  | drop {gs : List Goal} {fs fs' : List Frame} {ts : List Lexeme} (t : Lexeme)
      (h : Derives gs (addPos t.pos fs) ts fs') : Derives (.drop t.kind :: gs) fs (t :: ts) fs'
  | enter {gs : List Goal} {fs fs' : List Frame} {ts : List Lexeme}
      (h : Derives gs (.empty :: fs) ts fs') : Derives (.enter :: gs) fs ts fs'
  | leave {gs : List Goal} {fs fs' : List Frame} {ts : List Lexeme} (rule : Rule)
      (h : Derives gs (leaveFrame rule fs) ts fs') : Derives (.leave rule :: gs) fs ts fs'
  | expand {g : Goal} {gs : List Goal} {fs fs' : List Frame} {ts : List Lexeme}
      {production : List Goal} (hp : production ∈ g.productions)
      (h : Derives (production ++ gs) fs ts fs') : Derives (g :: gs) fs ts fs'

/-! ## Goals in a row -/

theorem Derives.append {gs hs : List Goal} {fs mid fs' : List Frame} {ts us : List Lexeme}
    (h : Derives gs fs ts mid) (hrest : Derives hs mid us fs') :
    Derives (gs ++ hs) fs (ts ++ us) fs' := by
  induction h with
  | done => exact hrest
  | keep t _ ih => exact .keep t (ih hrest)
  | drop t _ ih => exact .drop t (ih hrest)
  | enter _ ih => exact .enter (ih hrest)
  | leave rule _ ih => exact .leave rule (ih hrest)
  | @expand g gs _ _ _ production hp _ ih =>
      have hd := ih hrest
      rw [List.append_assoc] at hd
      exact .expand hp hd

theorem Derives.of_production {g : Goal} {p : List Goal} {fs fs' : List Frame} {ts : List Lexeme}
    (hp : p ∈ g.productions) (h : Derives p fs ts fs') : Derives [g] fs ts fs' := by
  refine .expand hp ?_
  rwa [List.append_nil]

/-- A derivation from goals in a row falls apart. -/
theorem Derives.split {hs all : List Goal} {fs fs' : List Frame} {ts : List Lexeme}
    (h : Derives all fs ts fs') : ∀ {gs : List Goal}, all = gs ++ hs →
    ∃ us vs mid, Derives gs fs us mid ∧ Derives hs mid vs fs' ∧ ts = us ++ vs := by
  induction h with
  | done fs =>
      intro gs hgs
      obtain ⟨rfl, rfl⟩ := List.append_eq_nil_iff.mp hgs.symm
      exact ⟨[], [], fs, .done fs, .done fs, rfl⟩
  | keep t h ih =>
      intro gs hgs
      cases gs with
      | nil =>
          cases hgs
          exact ⟨[], _, _, .done _, .keep t h, rfl⟩
      | cons g gs =>
          cases hgs
          obtain ⟨us, vs, mid, hus, hvs, rfl⟩ := ih rfl
          exact ⟨t :: us, vs, mid, .keep t hus, hvs, rfl⟩
  | drop t h ih =>
      intro gs hgs
      cases gs with
      | nil =>
          cases hgs
          exact ⟨[], _, _, .done _, .drop t h, rfl⟩
      | cons g gs =>
          cases hgs
          obtain ⟨us, vs, mid, hus, hvs, rfl⟩ := ih rfl
          exact ⟨t :: us, vs, mid, .drop t hus, hvs, rfl⟩
  | enter h ih =>
      intro gs hgs
      cases gs with
      | nil =>
          cases hgs
          exact ⟨[], _, _, .done _, .enter h, rfl⟩
      | cons g gs =>
          cases hgs
          obtain ⟨us, vs, mid, hus, hvs, rfl⟩ := ih rfl
          exact ⟨us, vs, mid, .enter hus, hvs, rfl⟩
  | leave rule h ih =>
      intro gs hgs
      cases gs with
      | nil =>
          cases hgs
          exact ⟨[], _, _, .done _, .leave rule h, rfl⟩
      | cons g gs =>
          cases hgs
          obtain ⟨us, vs, mid, hus, hvs, rfl⟩ := ih rfl
          exact ⟨us, vs, mid, .leave rule hus, hvs, rfl⟩
  | expand hp h ih =>
      intro gs hgs
      cases gs with
      | nil =>
          cases hgs
          exact ⟨[], _, _, .done _, .expand hp h, rfl⟩
      | cons g gs =>
          cases hgs
          obtain ⟨us, vs, mid, hus, hvs, rfl⟩ := ih (List.append_assoc ..).symm
          exact ⟨us, vs, mid, .expand hp hus, hvs, rfl⟩

/-- A goal is derived by one of its productions. -/
theorem exists_production {g : Goal} (hg : g.productions ≠ []) {fs fs' : List Frame}
    {ts : List Lexeme} (h : Derives [g] fs ts fs') : ∃ p ∈ g.productions, Derives p fs ts fs' := by
  cases h with
  | expand hp h =>
    rw [List.append_nil] at h
    exact ⟨_, hp, h⟩
  | _ => exact absurd rfl hg

theorem Derives.of_keep {k : TokenKind} {gs : List Goal} {fs fs' : List Frame} {t : Lexeme}
    {ts : List Lexeme} (h : Derives (.keep k :: gs) fs (t :: ts) fs') :
    Derives gs (addPart ⟨.token t.kind t.text t.pos, t.pos⟩ fs) ts fs' := by
  cases h with
  | keep _ h => exact h
  | expand hp => cases hp

theorem Derives.of_drop {k : TokenKind} {gs : List Goal} {fs fs' : List Frame} {t : Lexeme}
    {ts : List Lexeme} (h : Derives (.drop k :: gs) fs (t :: ts) fs') :
    Derives gs (addPos t.pos fs) ts fs' := by
  cases h with
  | drop _ h => exact h
  | expand hp => cases hp

/-! ## Operators -/

theorem mem_operators {compared ranged : Bool} {op : TokenKind} {rest : Goal}
    (h : (op, rest) ∈ Goal.operators compared ranged) :
    op ∈ operatorLevels ∧ ∃ compared ranged, rest = .chain compared ranged := by
  revert h
  cases compared <;> cases ranged <;>
    simp +contextual [Goal.operators, operatorLevels, or_imp]

/-! ## Readings -/

theorem derives_of_settle : ∀ {gs gs' rest : List Goal} {fs fs₁ fs' : List Frame}
    {ts : List Lexeme}, settle gs fs = (gs', fs₁) → Derives (gs' ++ rest) fs₁ ts fs' →
    Derives (gs ++ rest) fs ts fs' := by
  intro gs gs' rest fs fs₁ fs' ts h hd
  fun_induction settle gs fs with
  | case1 fs gs ih => exact .enter (ih h)
  | case2 fs gs rule ih => exact .leave _ (ih h)
  | case3 fs gs _ _ =>
      cases h
      exact hd

/-- What a nonterminal's alternatives lead to is read towards the nonterminal. -/
theorem derives_of_production {g : Goal} {gs production : List Goal} {fs fs' : List Frame}
    {r : Reading} {ts : List Lexeme} (hp : production ∈ g.productions)
    (ih : ∀ fs₁, r ∈ advance gs fs₁ → Derives gs fs₁ ts fs')
    (hr : r ∈ match settle production fs with
      | ([], fs₁) => advance gs fs₁
      | (goals, fs₁) => [⟨goals ++ gs, fs₁⟩])
    (hd : Derives r.goals r.frames ts fs') : Derives (g :: gs) fs ts fs' := by
  refine .expand hp ?_
  rcases hs : settle production fs with ⟨_ | ⟨g', goals⟩, fs₁⟩
  · rw [hs] at hr
    exact derives_of_settle hs (ih fs₁ hr)
  · rw [hs] at hr
    cases List.mem_singleton.mp hr
    exact derives_of_settle hs hd

theorem derives_of_advance {r : Reading} {ts : List Lexeme} {fs' : List Frame}
    (hd : Derives r.goals r.frames ts fs') : ∀ {gs : List Goal} {fs : List Frame},
    r ∈ advance gs fs → Derives gs fs ts fs' := by
  intro gs fs h
  fun_induction advance gs fs with
  | case1 fs =>
      cases List.mem_singleton.mp h
      exact hd
  | case2 fs gs ih => exact .enter (ih h)
  | case3 fs gs rule ih => exact .leave _ (ih h)
  | case4 fs k gs =>
      cases List.mem_singleton.mp h
      exact hd
  | case5 fs k gs =>
      cases List.mem_singleton.mp h
      exact hd
  | case6 fs g gs _ _ _ _ ih =>
      obtain ⟨production, hp, hr⟩ := List.mem_flatMap.mp h
      exact derives_of_production hp (fun fs₁ => ih fs₁) hr hd

theorem derives_of_take? {r r' : Reading} {t : Lexeme} {ts : List Lexeme} {fs' : List Frame}
    (h : r.take? t = some r') (hd : Derives r'.goals r'.frames ts fs') :
    Derives r.goals r.frames (t :: ts) fs' := by
  obtain ⟨goals, fs⟩ := r
  unfold Reading.take? at h
  split at h
  · next k gs hgs =>
    split at h
    · next hk =>
      subst hk
      cases h
      cases hgs
      exact .keep t hd
    · cases h
  · next k gs hgs =>
    split at h
    · next hk =>
      subst hk
      cases h
      cases hgs
      exact .drop t hd
    · cases h
  · cases h

theorem mem_of_mem_mergeReadings {r : Reading} : ∀ {rs : List Reading},
    r ∈ mergeReadings rs → r ∈ rs
  | [], h => h
  | r' :: rest, h => by
      unfold mergeReadings at h
      rcases List.mem_cons.mp h with rfl | h
      · exact List.mem_cons_self ..
      · exact List.mem_cons_of_mem _ (mem_of_mem_mergeReadings (List.mem_filter.mp h).1)

theorem derives_of_takeToken {rs : List Reading} {r : Reading} {t : Lexeme} {ts : List Lexeme}
    {fs' : List Frame} (h : r ∈ takeToken rs t) (hd : Derives r.goals r.frames ts fs') :
    ∃ r₀ ∈ rs, Derives r₀.goals r₀.frames (t :: ts) fs' := by
  obtain ⟨r₁, h₁, hr⟩ := List.mem_flatMap.mp h
  obtain ⟨r₀, h₀, htake⟩ := List.mem_filterMap.mp (mem_of_mem_mergeReadings h₁)
  exact ⟨r₀, h₀, derives_of_take? htake (derives_of_advance hd hr)⟩

theorem derives_of_readTokens {r : Reading} {us : List Lexeme} {fs' : List Frame} :
    ∀ {ts : List Lexeme} {rs later : List Reading}, readTokens rs ts = .ok later → r ∈ later →
    Derives r.goals r.frames us fs' → ∃ r₀ ∈ rs, Derives r₀.goals r₀.frames (ts ++ us) fs'
  | [], _, _, h, hr, hd => by
      cases h
      exact ⟨r, hr, hd⟩
  | t :: rest, rs, later, h, hr, hd => by
      unfold readTokens at h
      split at h
      · cases h
      · obtain ⟨r₁, h₁, hd₁⟩ := derives_of_readTokens h hr hd
        exact derives_of_takeToken h₁ hd₁

/-- What a reading can go on with ends a program. -/
theorem derives_of_mem_readTokens {ts us : List Lexeme} {later : List Reading}
    {fs' : List Frame} (hread : readTokens firstReadings ts = .ok later) {r : Reading}
    (hr : r ∈ later) (hd : Derives r.goals r.frames us fs') :
    Derives Goal.program [.empty] (ts ++ us) fs' := by
  obtain ⟨r₀, hr₀, hd⟩ := derives_of_readTokens hread hr hd
  exact derives_of_advance hd hr₀

/-! ## Programs -/

/-- The tree of a program has a derivation from its tokens. -/
theorem derives_of_parse {source : String} {tree : Node} (h : parse source = .ok tree) :
    ∃ start outer parts fs, Derives Goal.program [.empty]
      ((lex source).lexemes.filter (!·.kind.isIgnored))
      (⟨start, ⟨tree, outer⟩ :: parts⟩ :: fs) := by
  unfold parse parseLexed at h
  cases hread : readTokens firstReadings ((lex source).lexemes.filter (!·.kind.isIgnored)) with
  | error e =>
      rw [hread] at h
      cases h
  | ok readings =>
      rw [hread] at h
      dsimp only [bind, Except.bind] at h
      split at h
      · cases h
      · split at h
        · next found hfound =>
          cases h
          obtain ⟨r, hr, htree⟩ := List.exists_of_findSome?_eq_some hfound
          unfold Reading.tree? at htree
          split at htree
          · next start part parts fs hgoals hframes =>
            cases htree
            have hd : Derives r.goals r.frames [] r.frames := by
              rw [hgoals]
              exact .done _
            have hprogram := derives_of_mem_readTokens hread hr hd
            rw [List.append_nil, hframes] at hprogram
            exact ⟨start, part.outer, parts, fs, hprogram⟩
          · cases htree
        · cases h

end Tern
