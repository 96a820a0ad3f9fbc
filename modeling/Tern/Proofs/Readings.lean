import Tern.Proofs.Completeness

/-!
# The readings that are followed

No derivation is lost by following readings side by side. Before each token every derivation
goes on from one of the readings (`exists_reading_of_derives`), a reading that takes the token is
kept or merged with one that has the same goals, and readings with the same goals take the same
kinds of token whatever is in their frames (`Derives.retoken`). So tokens are read to the end if
some program starts with tokens of these kinds (`readTokens_of_live`), and a text is a program
of the language exactly when it is parsed, to a tree that the rules make of it
(`parse_iff_isTreeOf`).
-/

namespace Tern

/-! ## Kinds -/

/-- The kinds of some tokens, which alone decide what can be read. -/
def kinds (ts : List Lexeme) : List TokenKind := ts.map (·.kind)

@[simp] theorem kinds_nil : kinds [] = [] := rfl

@[simp] theorem kinds_cons (t : Lexeme) (ts : List Lexeme) :
    kinds (t :: ts) = t.kind :: kinds ts := rfl

@[simp] theorem kinds_append (ts us : List Lexeme) : kinds (ts ++ us) = kinds ts ++ kinds us :=
  List.map_append ..

theorem kinds_eq_cons {us : List Lexeme} {k : TokenKind} {ks : List TokenKind}
    (h : kinds us = k :: ks) : ∃ u vs, us = u :: vs ∧ u.kind = k ∧ kinds vs = ks := by
  obtain ⟨u, vs, rfl, rfl, rfl⟩ := List.map_eq_cons_iff.mp h
  exact ⟨u, vs, rfl, rfl, rfl⟩

/-- Tokens of the same kinds can be read towards the same goals, in any frames. -/
theorem Derives.retoken {gs : List Goal} {fs fs' : List Frame} {ts : List Lexeme}
    (h : Derives gs fs ts fs') : ∀ {us : List Lexeme}, kinds us = kinds ts → ∀ fs₁ : List Frame,
    ∃ fs₁', Derives gs fs₁ us fs₁' := by
  induction h with
  | done =>
      intro us hus fs₁
      cases List.map_eq_nil_iff.mp hus
      exact ⟨fs₁, .done fs₁⟩
  | keep t _ ih =>
      intro us hus fs₁
      obtain ⟨u, vs, rfl, hk, hvs⟩ := kinds_eq_cons hus
      obtain ⟨fs₁', hd⟩ := ih hvs (addPart u.part fs₁)
      dsimp only at hk
      exact ⟨fs₁', hk ▸ .keep u hd⟩
  | drop t _ ih =>
      intro us hus fs₁
      obtain ⟨u, vs, rfl, hk, hvs⟩ := kinds_eq_cons hus
      obtain ⟨fs₁', hd⟩ := ih hvs (addPos u.pos fs₁)
      dsimp only at hk
      exact ⟨fs₁', hk ▸ .drop u hd⟩
  | enter _ ih =>
      intro us hus fs₁
      obtain ⟨fs₁', hd⟩ := ih hus (.empty :: fs₁)
      exact ⟨fs₁', .enter hd⟩
  | leave rule _ ih =>
      intro us hus fs₁
      obtain ⟨fs₁', hd⟩ := ih hus (leaveFrame rule fs₁)
      exact ⟨fs₁', .leave rule hd⟩
  | expand hp _ ih =>
      intro us hus fs₁
      obtain ⟨fs₁', hd⟩ := ih hus fs₁
      exact ⟨fs₁', .expand hp hd⟩

/-! ## Before a token -/

/-- Goals that begin with a token, or none. -/
def Settled : List Goal → Prop
  | [] | .keep _ :: _ | .drop _ :: _ => True
  | _ => False

/-- Goals that are so once the rules that begin or end there are entered and left. -/
def settles : List Goal → Bool
  | .enter :: gs | .leave _ :: gs => settles gs
  | [] | .keep _ :: _ | .drop _ :: _ => true
  | _ => false

theorem settled_settle {gs : List Goal} (h : settles gs) (fs : List Frame) :
    Settled (settle gs fs).1 := by
  fun_induction settle gs fs with
  | case1 fs gs ih => exact ih h
  | case2 fs gs rule ih => exact ih h
  | case3 gs fs henter hleave =>
      unfold settles at h
      split at h
      · exact absurd rfl (henter _)
      · exact absurd rfl (hleave _ _)
      · trivial
      · trivial
      · trivial
      · cases h

theorem settles_production {g : Goal} : ∀ p ∈ g.productions, settles p := by
  cases g with
  | chain compared ranged => cases compared <;> cases ranged <;> decide
  | names label => simp [Goal.productions, settles]
  | keep | drop | enter | leave => simp [Goal.productions]
  | _ => decide

theorem derives_settle : ∀ {gs rest : List Goal} {fs fs' : List Frame} {ts : List Lexeme},
    Derives (gs ++ rest) fs ts fs' →
      Derives ((settle gs fs).1 ++ rest) (settle gs fs).2 ts fs' := by
  intro gs rest fs fs' ts h
  fun_induction settle gs fs with
  | case1 fs gs ih =>
      cases h with
      | enter h => exact ih h
      | expand hp => cases hp
  | case2 fs gs rule ih =>
      cases h with
      | leave _ h => exact ih h
      | expand hp => cases hp
  | case3 => exact h

/-- A derivation goes on from one of the readings. -/
theorem exists_reading_of_derives {ts : List Lexeme} {fs' : List Frame} : ∀ {gs : List Goal}
    {fs : List Frame}, Derives gs fs ts fs' →
    ∃ r ∈ advance gs fs, Settled r.goals ∧ Derives r.goals r.frames ts fs' := by
  intro gs fs h
  fun_induction advance gs fs with
  | case1 fs => exact ⟨_, List.mem_singleton_self _, trivial, h⟩
  | case2 fs gs ih =>
      cases h with
      | enter h => exact ih h
      | expand hp => cases hp
  | case3 fs gs rule ih =>
      cases h with
      | leave _ h => exact ih h
      | expand hp => cases hp
  | case4 fs k gs => exact ⟨_, List.mem_singleton_self _, trivial, h⟩
  | case5 fs k gs => exact ⟨_, List.mem_singleton_self _, trivial, h⟩
  | case6 g gs fs henter hleave hkeep hdrop ih =>
      cases h with
      | @expand _ _ _ _ _ production hp h =>
        have hsettled := settled_settle (settles_production _ hp) fs
        have hd := derives_settle h
        rcases hs : settle production fs with ⟨_ | ⟨first, rest⟩, fs₁⟩ <;> rw [hs] at hd hsettled
        · obtain ⟨r, hr, hsettled, hrest⟩ := ih fs₁ hd
          refine ⟨r, List.mem_flatMap.mpr ⟨production, hp, ?_⟩, hsettled, hrest⟩
          rw [hs]
          exact hr
        · refine ⟨⟨first :: rest ++ gs, fs₁⟩, List.mem_flatMap.mpr ⟨production, hp, ?_⟩, ?_, hd⟩
          · rw [hs]
            exact List.mem_singleton_self _
          · cases first <;> exact hsettled
      | keep => exact absurd rfl (hkeep _)
      | drop => exact absurd rfl (hdrop _)
      | enter => exact absurd rfl henter
      | leave => exact absurd rfl (hleave _)

/-! ## After a token -/

theorem exists_take? {r : Reading} {t : Lexeme} {ts : List Lexeme} {fs' : List Frame}
    (hr : Settled r.goals) (h : Derives r.goals r.frames (t :: ts) fs') :
    ∃ r', r.take? t = some r' ∧ Derives r'.goals r'.frames ts fs' := by
  obtain ⟨goals, fs⟩ := r
  cases h with
  | keep _ h => exact ⟨⟨_, _⟩, if_pos rfl, h⟩
  | drop _ h => exact ⟨⟨_, _⟩, if_pos rfl, h⟩
  | enter => cases hr
  | leave => cases hr
  | @expand g _ _ _ _ _ hp _ =>
      cases g <;> first
        | exact False.elim hr
        | cases hp

/-- Of readings with the same goals one is kept. -/
theorem exists_mem_mergeReadings {r : Reading} : ∀ {rs : List Reading}, r ∈ rs →
    ∃ r' ∈ mergeReadings rs, r'.goals = r.goals
  | r₁ :: rest, h => by
      unfold mergeReadings
      rcases List.mem_cons.mp h with rfl | h
      · exact ⟨r, List.mem_cons_self .., rfl⟩
      · obtain ⟨r', hr', hgoals⟩ := exists_mem_mergeReadings h
        by_cases hsame : r'.goals = r₁.goals
        · exact ⟨r₁, List.mem_cons_self .., hsame.symm.trans hgoals⟩
        · refine ⟨r', List.mem_cons_of_mem _ (List.mem_filter.mpr ⟨hr', ?_⟩), hgoals⟩
          exact decide_eq_true hsame

/-- Some reading can go on with the tokens to the end of the program. -/
def Live (rs : List Reading) (ts : List Lexeme) : Prop :=
  ∃ r ∈ rs, Settled r.goals ∧ ∃ fs', Derives r.goals r.frames ts fs'

theorem live_firstReadings {ts : List Lexeme} {fs fs' : List Frame}
    (h : Derives Goal.program fs ts fs') : Live firstReadings ts := by
  obtain ⟨fs₁, hd⟩ := h.retoken rfl [.empty]
  obtain ⟨r, hr, hsettled, hd⟩ := exists_reading_of_derives hd
  exact ⟨r, hr, hsettled, fs₁, hd⟩

theorem Live.takeToken {rs : List Reading} {t : Lexeme} {ts : List Lexeme}
    (h : Live rs (t :: ts)) : Live (takeToken rs t) ts := by
  obtain ⟨r, hr, hsettled, fs', hd⟩ := h
  obtain ⟨r₁, htake, hd₁⟩ := exists_take? hsettled hd
  have hr₁ : r₁ ∈ rs.filterMap (·.take? t) := List.mem_filterMap.mpr ⟨r, hr, htake⟩
  obtain ⟨r₂, hr₂, hgoals⟩ := exists_mem_mergeReadings hr₁
  obtain ⟨fs₂, hd₂⟩ := hd₁.retoken rfl r₂.frames
  rw [← hgoals] at hd₂
  obtain ⟨r₃, hr₃, hsettled₃, hd₃⟩ := exists_reading_of_derives hd₂
  exact ⟨r₃, List.mem_flatMap.mpr ⟨r₂, hr₂, hr₃⟩, hsettled₃, fs₂, hd₃⟩

/-- While the tokens can be continued to a program they are read. -/
theorem readTokens_of_live : ∀ {us vs : List Lexeme} {rs : List Reading}, Live rs (us ++ vs) →
    ∃ later, readTokens rs us = .ok later ∧ Live later vs
  | [], _, rs, h => ⟨rs, rfl, h⟩
  | t :: us, vs, rs, h => by
      obtain ⟨r, hr, -⟩ := h.takeToken
      obtain ⟨later, hlater, hlive⟩ := readTokens_of_live h.takeToken
      refine ⟨later, ?_, hlive⟩
      unfold readTokens
      split
      · next hnil =>
        rw [hnil] at hr
        cases hr
      · exact hlater

/-! ## Programs -/

/-- The tokens that the rules mention. -/
def tokens (source : String) : List Lexeme :=
  (lex source).lexemes.filter (!·.kind.isIgnored)

/-- A tree that the rules make of the tokens, before it is lowered. -/
def IsTreeOf (n : Node) (ts : List Lexeme) : Prop :=
  ∃ outer, (Phrase.rule .program).Reads .surface ts (.one ⟨n, outer⟩)

/-- What the rules read as a program is a single tree. -/
theorem isTreeOf_of_reads {ts : List Lexeme} {y : Yield}
    (h : (Phrase.rule .program).Reads .surface ts y) :
    ∃ n outer, y = .one ⟨n, outer⟩ ∧ IsTreeOf n ts := by
  have hread := h
  cases h with
  | rule ha _ =>
    cases List.mem_singleton.mp ha
    exact ⟨_, _, rfl, _, hread⟩

theorem exists_isTreeOf_of_reads {ts : List Lexeme} {y : Yield}
    (h : Nonterminal.program.Reads ts y) :
    ∃ n outer, y = .one ⟨n.lower, outer⟩ ∧ IsTreeOf n ts := by
  obtain ⟨z, hz, rfl⟩ := reads_surface h
  obtain ⟨n, outer, rfl, hn⟩ := isTreeOf_of_reads hz
  exact ⟨n, outer, rfl, hn⟩

theorem derives_of_isTreeOf {n : Node} {ts : List Lexeme} (h : IsTreeOf n ts) (fs : List Frame) :
    ∃ outer, Derives Goal.program fs ts (absorb (.one ⟨n.lower, outer⟩) fs) := by
  obtain ⟨outer, hread⟩ := h
  exact ⟨outer, derives_of_reads (reads_lower hread) fs⟩

/-- A reading that has come to the end has read a program. -/
theorem derives_of_goals_eq_nil {ts : List Lexeme} {later : List Reading}
    (hread : readTokens firstReadings ts = .ok later) {r : Reading} (hr : r ∈ later)
    (hgoals : r.goals = []) : Derives Goal.program [.empty] ts r.frames := by
  have hdone : Derives r.goals r.frames [] r.frames := by
    rw [hgoals]
    exact .done _
  have hprogram := derives_of_mem_readTokens hread hr hdone
  rwa [List.append_nil] at hprogram

theorem goals_eq_nil_of_tree? {r : Reading} {tree : Node} (h : r.tree? = some tree) :
    r.goals = [] := by
  unfold Reading.tree? at h
  split at h
  · assumption
  · cases h

theorem tree?_of_derives {ts : List Lexeme} {r : Reading} (hgoals : r.goals = [])
    (h : Derives Goal.program [.empty] ts r.frames) :
    ∃ n, r.tree? = some n.lower ∧ IsTreeOf n ts := by
  obtain ⟨y, hy, hframes⟩ := reads_of_derives h
  obtain ⟨n, outer, rfl, hn⟩ := exists_isTreeOf_of_reads hy
  obtain ⟨goals, frames⟩ := r
  cases hgoals
  cases hframes
  exact ⟨n, rfl, hn⟩

/-- At the end a reading that is live has nothing left to read. -/
theorem goals_eq_nil_of_derives {gs : List Goal} {fs fs' : List Frame} (hgs : Settled gs)
    (h : Derives gs fs [] fs') : gs = [] := by
  cases h with
  | done => rfl
  | enter => exact False.elim hgs
  | leave => exact False.elim hgs
  | @expand g _ _ _ _ _ hp _ =>
      cases g <;> first
        | exact False.elim hgs
        | cases hp

theorem isTreeOf_of_findSome? {ts : List Lexeme} {later : List Reading} {tree : Node}
    (hread : readTokens firstReadings ts = .ok later)
    (h : later.findSome? Reading.tree? = some tree) : ∃ n, IsTreeOf n ts ∧ n.lower = tree := by
  obtain ⟨r, hr, htree⟩ := List.exists_of_findSome?_eq_some h
  have hgoals := goals_eq_nil_of_tree? htree
  obtain ⟨n, htree', hn⟩ := tree?_of_derives hgoals (derives_of_goals_eq_nil hread hr hgoals)
  rw [htree] at htree'
  exact ⟨n, hn, (Option.some.inj htree').symm⟩

/-- Readings that are live at the end of the tokens have a tree. -/
theorem isSome_findSome? {ts : List Lexeme} {later : List Reading}
    (hread : readTokens firstReadings ts = .ok later) (hlive : Live later []) :
    (later.findSome? Reading.tree?).isSome := by
  obtain ⟨r, hr, hsettled, fs', hd⟩ := hlive
  have hgoals := goals_eq_nil_of_derives hsettled hd
  obtain ⟨n, htree, -⟩ := tree?_of_derives hgoals (derives_of_goals_eq_nil hread hr hgoals)
  exact List.findSome?_isSome_iff.mpr ⟨r, hr, htree ▸ rfl⟩

theorem parse_of_failure?_eq_none {source : String} (hlex : (lex source).failure? = none) :
    parse source = (readTokens firstReadings (tokens source)).bind fun readings =>
      match readings.findSome? Reading.tree? with
      | some tree => .ok tree
      | none => .error .unexpectedEnd := by
  unfold parse parseLexed
  rw [hlex]
  rfl

theorem isTreeOf_of_parse {source : String} (hlex : (lex source).failure? = none) {tree : Node}
    (h : parse source = .ok tree) : ∃ n, IsTreeOf n (tokens source) ∧ n.lower = tree := by
  rw [parse_of_failure?_eq_none hlex] at h
  cases hread : readTokens firstReadings (tokens source) with
  | error e =>
      rw [hread] at h
      cases h
  | ok later =>
      rw [hread] at h
      dsimp only [Except.bind] at h
      split at h
      · next found hfound =>
        cases h
        exact isTreeOf_of_findSome? hread hfound
      · cases h

theorem exists_parse_of_isTreeOf {source : String} (hlex : (lex source).failure? = none)
    {n : Node} (hn : IsTreeOf n (tokens source)) : ∃ tree, parse source = .ok tree := by
  obtain ⟨outer, hd⟩ := derives_of_isTreeOf hn [.empty]
  have hlive := live_firstReadings hd
  rw [← List.append_nil (tokens source)] at hlive
  obtain ⟨later, hread, hlive⟩ := readTokens_of_live hlive
  obtain ⟨tree, htree⟩ := Option.isSome_iff_exists.mp (isSome_findSome? hread hlive)
  refine ⟨tree, ?_⟩
  rw [parse_of_failure?_eq_none hlex, hread]
  simp [Except.bind, htree]

/-- A text that has been cut to its end is parsed exactly if it is a program of the language, and
to a tree that the rules make of it, lowered. -/
theorem parse_iff_isTreeOf {source : String} (hlex : (lex source).failure? = none) :
    ((∃ tree, parse source = .ok tree) ↔ ∃ n, IsTreeOf n (tokens source)) ∧
      ∀ tree, parse source = .ok tree → ∃ n, IsTreeOf n (tokens source) ∧ n.lower = tree := by
  refine ⟨⟨?_, ?_⟩, fun tree h => isTreeOf_of_parse hlex h⟩
  · rintro ⟨tree, h⟩
    obtain ⟨n, hn, -⟩ := isTreeOf_of_parse hlex h
    exact ⟨n, hn⟩
  · rintro ⟨n, hn⟩
    exact exists_parse_of_isTreeOf hlex hn

set_option maxRecDepth 2000 in
/-- The tree of `impl P { fn m() {} }` is lowered from one that the rules make. -/
theorem parse_iff_isTreeOf_method : ∃ n, IsTreeOf n (tokens "impl P { fn m() {} }") ∧
    n.lower = .tree .block [.tree .block [.tree .impl [.token .ident "P" (some ⟨1, 6⟩),
      .token .ident "m" (some ⟨1, 13⟩), .tree .params [] none, .tree .block [] (some ⟨1, 17⟩)]
        (some ⟨1, 10⟩)] (some ⟨1, 1⟩)] (some ⟨1, 1⟩) :=
  (parse_iff_isTreeOf (show (lex "impl P { fn m() {} }").failure? = none from rfl)).2 _ rfl

end Tern
