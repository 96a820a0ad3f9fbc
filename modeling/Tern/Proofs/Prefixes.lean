import Tern.Proofs.Spellings

/-!
# Beginnings of programs

Every goal can be reached by some tokens (`productive`), and every kind of token that a goal waits
for has a spelling. So tokens that leave a reading are the beginning of a program, and a token that
leaves none continues no program that begins like this. Hence each error is reported of the
texts that it is true of, and only of these (`parse_eq_error_iff`).
-/

namespace Tern

/-- A text of the language: it is cut to its end, and the rules make a tree of its tokens. -/
def IsProgram (source : String) : Prop :=
  (lex source).failure? = none ∧ ∃ n, IsTreeOf n (tokens source)

/-- Kinds of token that some program begins with. -/
def Viable (ks : List TokenKind) : Prop :=
  ∃ program, IsProgram program ∧ ks <+: kinds (tokens program)

theorem IsProgram.viable {source : String} (h : IsProgram source) :
    Viable (kinds (tokens source)) := ⟨source, h, List.prefix_rfl⟩

theorem Viable.of_prefix {ks ls : List TokenKind} (h : Viable ks) (hl : ls <+: ks) :
    Viable ls := by
  obtain ⟨program, hprogram, hks⟩ := h
  exact ⟨program, hprogram, hl.trans hks⟩

/-! ## Every goal can be reached -/

/-- Some token of a kind. -/
def Lexeme.ofKind (k : TokenKind) : Lexeme := ⟨k, "", .start, 0⟩

@[simp] theorem kinds_map_ofKind (ks : List TokenKind) : kinds (ks.map Lexeme.ofKind) = ks := by
  simp [kinds, Lexeme.ofKind, Function.comp_def]

def Goal.Productive (g : Goal) : Prop := ∀ fs, ∃ ts fs', Derives [g] fs ts fs'

theorem exists_derives {gs : List Goal} (h : ∀ g ∈ gs, g.Productive) :
    ∀ fs, ∃ ts fs', Derives gs fs ts fs' := by
  induction gs with
  | nil => exact fun fs => ⟨[], fs, .done fs⟩
  | cons g gs ih =>
      obtain ⟨hg, hgs⟩ := List.forall_mem_cons.mp h
      intro fs
      obtain ⟨ts, fs₁, hfirst⟩ := hg fs
      obtain ⟨us, fs₂, hrest⟩ := ih hgs fs₁
      exact ⟨ts ++ us, fs₂, hfirst.append hrest⟩

theorem Goal.Productive.of_production {g : Goal} {p : List Goal} (hp : p ∈ g.productions)
    (h : ∀ g' ∈ p, g'.Productive) : g.Productive := by
  intro fs
  obtain ⟨ts, fs', hd⟩ := exists_derives h fs
  refine ⟨ts, fs', .expand hp ?_⟩
  rwa [List.append_nil]

theorem Goal.Productive.of_nil {g : Goal} (hp : [] ∈ g.productions) : g.Productive :=
  .of_production hp (by simp)

open Goal in
/-- Every goal is reached by some tokens, through its shortest production. -/
theorem productive (g : Goal) : g.Productive := by
  have hkeep : ∀ k, (keep k).Productive := fun k fs =>
    ⟨[.ofKind k], _, .keep (.ofKind k) (.done _)⟩
  have hdrop : ∀ k, (drop k).Productive := fun k fs =>
    ⟨[.ofKind k], _, .drop (.ofKind k) (.done _)⟩
  have henter : enter.Productive := fun fs => ⟨[], _, .enter (.done _)⟩
  have hleave : ∀ rule, (leave rule).Productive := fun rule fs => ⟨[], _, .leave rule (.done _)⟩
  have hstatements : statements.Productive := .of_nil (by simp [productions])
  have hchain : ∀ compared ranged, (chain compared ranged).Productive := fun _ _ =>
    .of_nil (by simp [productions])
  have hbraced : ∀ g ∈ braced, g.Productive := by
    simp [braced, henter, hdrop, hstatements, hleave]
  cases g with
  | keep k => exact hkeep k
  | drop k => exact hdrop k
  | enter => exact henter
  | leave rule => exact hleave rule
  | chain compared ranged => exact hchain compared ranged
  | block => exact .of_production (by simp [productions]) hbraced
  | alternative => exact .of_production (by simp [productions]) hbraced
  | afterBraced =>
      refine .of_production (p := [leave .expression]) ?_ (by simp [hleave])
      simp [productions, afterItemAlternatives]
  | operand =>
      refine .of_production (p := [keep .number]) ?_ (by simp [hkeep])
      simp [productions, operands, plainOperands]
  | expression =>
      refine .of_production (p := [enter, keep .number, chain false false,
        leave .expression]) ?_ (by simp [henter, hkeep, hchain, hleave])
      simp [productions, expressionFrom, operands, plainOperands]
  | names label =>
      refine .of_production (p := [enter, leave (.node label)]) ?_
        (by simp [henter, hleave])
      simp [productions]
  | arguments =>
      refine .of_production (p := [enter, leave (.node .args)]) ?_
        (by simp [henter, hleave])
      simp [productions]
  | _ => exact .of_nil (by simp [productions, afterItemAlternatives])

/-! ## Kinds that have a spelling -/

/-- A goal that waits for no token without a spelling. -/
def Goal.Spelled : Goal → Prop
  | .keep k | .drop k => k ∈ spelled
  | _ => True

instance : DecidablePred Goal.Spelled := fun g => by
  cases g <;> unfold Goal.Spelled <;> infer_instance

theorem spelled_of_mem_productions {g : Goal} :
    ∀ p ∈ g.productions, ∀ g' ∈ p, g'.Spelled := by
  cases g with
  | keep | drop | enter | leave => simp [Goal.productions]
  | names label =>
      have hident : TokenKind.ident ∈ spelled := by decide
      simp [Goal.productions, Goal.Spelled, hident]
  | chain compared ranged => cases compared <;> cases ranged <;> decide
  | _ => decide

theorem spelled_of_derives {gs : List Goal} {fs fs' : List Frame} {ts : List Lexeme}
    (h : Derives gs fs ts fs') (hgs : ∀ g ∈ gs, g.Spelled) : ∀ k ∈ kinds ts, k ∈ spelled := by
  induction h with
  | done => simp
  | keep t _ ih | drop t _ ih =>
      obtain ⟨ht, hgs⟩ := List.forall_mem_cons.mp hgs
      exact List.forall_mem_cons.mpr ⟨ht, ih hgs⟩
  | enter _ ih | leave _ _ ih => exact ih (List.forall_mem_cons.mp hgs).2
  | expand hp _ ih =>
      refine ih fun g hg => ?_
      rcases List.mem_append.mp hg with hg | hg
      · exact spelled_of_mem_productions _ hp g hg
      · exact hgs g (List.mem_cons_of_mem _ hg)

/-- What can be read as a program can be read from a text. -/
theorem viable_of_derives {ts us : List Lexeme} {fs fs' : List Frame}
    (h : Derives Goal.program fs (ts ++ us) fs') : Viable (kinds ts) := by
  have hspelled : ∀ k ∈ kinds (ts ++ us), k ∈ spelled :=
    spelled_of_derives h (by simp [Goal.program, Goal.Spelled])
  have hkinds := kinds_tokens_spell hspelled
  obtain ⟨fs₁, hd⟩ := h.retoken hkinds []
  obtain ⟨y, hy, -⟩ := reads_of_derives hd
  obtain ⟨n, -, -, hn⟩ := exists_isTreeOf_of_reads hy
  refine ⟨spell (kinds (ts ++ us)), ⟨failure?_lex_spell hspelled, n, hn⟩, ?_⟩
  rw [hkinds, kinds_append]
  exact List.prefix_append ..

theorem exists_derives_of_viable {ts : List Lexeme} (h : Viable (kinds ts)) :
    ∃ us fs', Derives Goal.program [.empty] (ts ++ us) fs' := by
  obtain ⟨program, ⟨-, n, hn⟩, more, hmore⟩ := h
  obtain ⟨outer, hd⟩ := derives_of_isTreeOf hn [.empty]
  have hkinds : kinds (ts ++ more.map .ofKind) = kinds (tokens program) := by simp [hmore]
  obtain ⟨fs', hd⟩ := hd.retoken hkinds [.empty]
  exact ⟨_, fs', hd⟩

/-! ## Readings and what they continue -/

theorem exists_mem_firstReadings : ∃ r, r ∈ firstReadings := by
  obtain ⟨ts, fs', hd⟩ := exists_derives (fun g (_ : g ∈ Goal.program) => productive g) [.empty]
  obtain ⟨r, hr, -⟩ := live_firstReadings hd
  exact ⟨r, hr⟩

theorem exists_mem_readTokens : ∀ {ts : List Lexeme} {rs later : List Reading},
    (∃ r, r ∈ rs) → readTokens rs ts = .ok later → ∃ r, r ∈ later
  | [], _, _, hrs, h => by
      cases h
      exact hrs
  | t :: ts, rs, later, _, h => by
      unfold readTokens at h
      split at h
      · cases h
      · next hne =>
        exact exists_mem_readTokens (List.exists_mem_of_ne_nil _ hne) h

/-- Tokens that have been read can be continued to a program. -/
theorem exists_derives_of_readTokens {ts : List Lexeme} {later : List Reading}
    (h : readTokens firstReadings ts = .ok later) :
    ∃ us fs', Derives Goal.program [.empty] (ts ++ us) fs' := by
  obtain ⟨r, hr⟩ := exists_mem_readTokens exists_mem_firstReadings h
  obtain ⟨us, fs', hd⟩ := exists_derives (fun g (_ : g ∈ r.goals) => productive g) r.frames
  exact ⟨us, fs', derives_of_mem_readTokens h hr hd⟩

/-- A token that leaves no reading continues no program that begins like this. -/
theorem not_viable_of_takeToken {ts : List Lexeme} {later : List Reading} {t : Lexeme}
    (hread : readTokens firstReadings ts = .ok later) (hnil : takeToken later t = []) :
    ¬Viable (kinds ts ++ [t.kind]) := by
  intro h
  have hkinds : kinds (ts ++ [t]) = kinds ts ++ [t.kind] := kinds_append ..
  obtain ⟨us, fs', hd⟩ := exists_derives_of_viable (hkinds ▸ h)
  have hlive := live_firstReadings hd
  rw [List.append_assoc] at hlive
  obtain ⟨later', hread', hlive⟩ := readTokens_of_live hlive
  obtain ⟨r, hr, -⟩ := hlive.takeToken
  cases hread.symm.trans hread'
  rw [hnil] at hr
  cases hr

/-- The first token that leaves no reading. -/
theorem exists_token_of_readTokens {e : SyntaxError} : ∀ {ts : List Lexeme} {rs : List Reading},
    readTokens rs ts = .error e → ∃ before t after later, ts = before ++ t :: after ∧
      readTokens rs before = .ok later ∧ takeToken later t = [] ∧
      e = .unexpectedToken t.kind t.text t.pos
  | [], _, h => by cases h
  | t :: ts, rs, h => by
      unfold readTokens at h
      split at h
      · next hnil =>
        cases h
        exact ⟨[], t, ts, rs, rfl, rfl, hnil, rfl⟩
      · next hne =>
        obtain ⟨before, t', after, later, rfl, hread, hnil, rfl⟩ := exists_token_of_readTokens h
        refine ⟨t :: before, t', after, later, rfl, ?_, hnil, rfl⟩
        unfold readTokens
        split
        · next hnil => exact absurd hnil hne
        · exact hread

/-! ## Errors -/

/-- What each error says of a text. -/
inductive SyntaxError.Explains (source : String) : SyntaxError → Prop
  /-- The tokens before it begin a program, and none goes on with a token of its kind. -/
  | token {before after : List Lexeme} {t : Lexeme} (h : tokens source = before ++ t :: after)
      (hbefore : Viable (kinds before)) (hnot : ¬Viable (kinds before ++ [t.kind])) :
      Explains source (.unexpectedToken t.kind t.text t.pos)
  /-- No text of a terminal stands here, and the tokens before it begin a program. -/
  | character {c : Char} {rest : List Char}
      (h : source.toList = texts (lex source).lexemes ++ c :: rest)
      (hnot : ∀ k w, IsText k w → ¬w <+: c :: rest) (hbefore : Viable (kinds (tokens source))) :
      Explains source (.unexpectedCharacter c (Pos.start.after (texts (lex source).lexemes)))
  /-- Programs that begin with the tokens have more of them. -/
  | ending {k : TokenKind} (hlex : (lex source).failure? = none) (hnot : ¬IsProgram source)
      (hbefore : Viable (kinds (tokens source) ++ [k])) : Explains source .unexpectedEnd

theorem parse_eq (source : String) : parse source =
    (readTokens firstReadings (tokens source)).bind fun readings =>
      match (lex source).failure? with
      | some f => .error (.unexpectedCharacter f.char f.pos)
      | none =>
        match readings.findSome? Reading.tree? with
        | some tree => .ok tree
        | none => .error .unexpectedEnd := rfl

theorem isProgram_of_parse {source : String} {tree : Node} (h : parse source = .ok tree) :
    IsProgram source := by
  have hlex : (lex source).failure? = none := by
    rw [parse_eq] at h
    cases hread : readTokens firstReadings (tokens source) with
    | error e => rw [hread] at h; cases h
    | ok later =>
        rw [hread] at h
        dsimp only [Except.bind] at h
        split at h
        · cases h
        · assumption
  obtain ⟨n, hn, -⟩ := isTreeOf_of_parse hlex h
  exact ⟨hlex, n, hn⟩

theorem isProgram_of_derives {source : String} (hlex : (lex source).failure? = none)
    {fs' : List Frame} (h : Derives Goal.program [.empty] (tokens source) fs') :
    IsProgram source := by
  obtain ⟨y, hy, -⟩ := reads_of_derives h
  obtain ⟨n, -, -, hn⟩ := exists_isTreeOf_of_reads hy
  exact ⟨hlex, n, hn⟩

theorem parse_eq_ok_iff {source : String} {tree : Node} : parse source = .ok tree ↔
    (lex source).failure? = none ∧ ∃ later,
      readTokens firstReadings (tokens source) = .ok later ∧
        later.findSome? Reading.tree? = some tree := by
  constructor
  · intro h
    have hlex := (isProgram_of_parse h).1
    refine ⟨hlex, ?_⟩
    rw [parse_eq, hlex] at h
    cases hread : readTokens firstReadings (tokens source) with
    | error e =>
        rw [hread] at h
        cases h
    | ok later =>
        rw [hread] at h
        dsimp only [Except.bind] at h
        split at h
        · next tree' htree =>
          cases h
          exact ⟨later, rfl, htree⟩
        · cases h
  · rintro ⟨hlex, later, hread, htree⟩
    rw [parse_eq, hread, hlex]
    dsimp only [Except.bind]
    rw [htree]

theorem exists_parse_of_isProgram {source : String} (h : IsProgram source) :
    ∃ tree, parse source = .ok tree := by
  obtain ⟨hlex, n, hn⟩ := h
  exact exists_parse_of_isTreeOf hlex hn

theorem explains_of_readTokens {source : String} {e : SyntaxError}
    (h : readTokens firstReadings (tokens source) = .error e) : e.Explains source := by
  obtain ⟨before, t, after, later, htokens, hread, hnil, rfl⟩ := exists_token_of_readTokens h
  obtain ⟨us, fs', hd⟩ := exists_derives_of_readTokens hread
  exact .token htokens (viable_of_derives hd) (not_viable_of_takeToken hread hnil)

theorem explains_of_failure? {source : String} {f : LexFailure} {later : List Reading}
    (hread : readTokens firstReadings (tokens source) = .ok later)
    (hf : (lex source).failure? = some f) :
    (SyntaxError.unexpectedCharacter f.char f.pos).Explains source := by
  obtain ⟨us, fs', hd⟩ := exists_derives_of_readTokens hread
  obtain ⟨rest, hsource, hpos, hnone⟩ := lexFrom_failure hf
  rw [hpos]
  exact .character hsource (fun k w => not_isText_of_longestMatch? hnone) (viable_of_derives hd)

theorem explains_end {source : String} {later : List Reading}
    (hread : readTokens firstReadings (tokens source) = .ok later)
    (hlex : (lex source).failure? = none) (hnot : ¬IsProgram source) :
    SyntaxError.unexpectedEnd.Explains source := by
  obtain ⟨us, fs', hd⟩ := exists_derives_of_readTokens hread
  cases us with
  | nil =>
      rw [List.append_nil] at hd
      exact absurd (isProgram_of_derives hlex hd) hnot
  | cons u us =>
      rw [List.append_cons] at hd
      have hviable := viable_of_derives hd
      rw [kinds_append] at hviable
      exact .ending hlex hnot hviable

theorem explains_of_parse {source : String} {e : SyntaxError} (h : parse source = .error e) :
    e.Explains source := by
  have hnot : ¬IsProgram source := by
    intro hprogram
    obtain ⟨tree, htree⟩ := exists_parse_of_isProgram hprogram
    rw [htree] at h
    cases h
  rw [parse_eq] at h
  cases hread : readTokens firstReadings (tokens source) with
  | error e' =>
      rw [hread] at h
      cases h
      exact explains_of_readTokens hread
  | ok later =>
      rw [hread] at h
      dsimp only [Except.bind] at h
      split at h
      · next f hf =>
        cases h
        exact explains_of_failure? hread hf
      · next hlex =>
        split at h
        · cases h
        · cases h
          exact explains_end hread hlex hnot

/-! ## Only one error explains a text -/

/-- The token that no program has at its place comes after all that some program begins with. -/
theorem prefix_of_viable {before after ts us : List Lexeme} {t : Lexeme}
    (h : before ++ t :: after = ts ++ us) (hts : Viable (kinds ts))
    (hnot : ¬Viable (kinds before ++ [t.kind])) : ts <+: before := by
  rcases List.append_eq_append_iff.mp h with ⟨more, rfl, hmore⟩ | ⟨more, rfl, -⟩
  · cases more with
    | nil => simp
    | cons u more =>
        cases hmore
        refine absurd (hts.of_prefix ?_) hnot
        simp
  · exact List.prefix_append ..

theorem not_viable_of_token {source : String} {before after : List Lexeme} {t : Lexeme}
    (h : tokens source = before ++ t :: after) (hnot : ¬Viable (kinds before ++ [t.kind])) :
    ¬Viable (kinds (tokens source)) := by
  rw [h]
  exact fun hviable => hnot (hviable.of_prefix (by simp))

theorem failure?_ne_none {source : String} {c : Char} {rest : List Char}
    (h : source.toList = texts (lex source).lexemes ++ c :: rest) :
    (lex source).failure? ≠ none := by
  intro hlex
  have htexts : texts (lex source).lexemes = source.toList :=
    texts_lexFrom (Nat.le_refl _) hlex
  rw [htexts] at h
  simp at h

theorem SyntaxError.Explains.not_isProgram {source : String} {e : SyntaxError}
    (h : e.Explains source) : ¬IsProgram source := by
  cases h with
  | token h _ hnot => exact fun hprogram => not_viable_of_token h hnot hprogram.viable
  | character h _ _ => exact fun hprogram => failure?_ne_none h hprogram.1
  | ending _ hnot _ => exact hnot

theorem SyntaxError.Explains.unique {source : String} {e e' : SyntaxError}
    (h : e.Explains source) (h' : e'.Explains source) : e = e' := by
  cases h with
  | @token before after t h hbefore hnot =>
      cases h' with
      | @token before' after' t' h' hbefore' hnot' =>
          have heq := h.symm.trans h'
          have hle := prefix_of_viable heq hbefore' hnot
          have hge := prefix_of_viable heq.symm hbefore hnot'
          cases hle.eq_of_length_le hge.length_le
          cases List.append_cancel_left heq
          rfl
      | character _ _ hviable => exact absurd hviable (not_viable_of_token h hnot)
      | ending _ _ hviable =>
          exact absurd (hviable.of_prefix (List.prefix_append ..)) (not_viable_of_token h hnot)
  | @character c rest h hnot hviable =>
      cases h' with
      | token h' _ hnot' => exact absurd hviable (not_viable_of_token h' hnot')
      | character h' _ _ =>
          cases List.append_cancel_left (h.symm.trans h')
          rfl
      | ending hlex _ _ => exact absurd hlex (failure?_ne_none h)
  | ending hlex _ hviable =>
      cases h' with
      | token h' _ hnot' =>
          exact absurd (hviable.of_prefix (List.prefix_append ..)) (not_viable_of_token h' hnot')
      | character h' _ _ => exact absurd hlex (failure?_ne_none h')
      | ending => rfl

/-- An error is reported of a text exactly if it is true of it. -/
theorem parse_eq_error_iff {source : String} {e : SyntaxError} :
    parse source = .error e ↔ e.Explains source := by
  constructor
  · exact explains_of_parse
  · intro h
    cases hparse : parse source with
    | ok tree => exact absurd (isProgram_of_parse hparse) h.not_isProgram
    | error e' => rw [(explains_of_parse hparse).unique h]

set_option maxRecDepth 2000 in
/-- The token is complained about, although a character further on starts no token. -/
example : parse "let 1 @" = .error (.unexpectedToken .number "1" ⟨1, 5⟩) := by rfl

end Tern
