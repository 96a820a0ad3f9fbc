import Tern.Proofs.Placement
import Tern.Proofs.Soundness
import Tern.Session.Draft

/-!
# Brackets

Whatever a rule reads closes the brackets that it opens, and except for statements themselves it
has semicolons only between brackets (`depth?_of_reads`). So a semicolon where no bracket is open
ends a statement, and no statement goes on after it: what statements read up to such a semicolon
and what they read after it are statements (`reads_statements_cut`), and statements that end in
a semicolon may be followed by others (`reads_statements_append`).
-/

namespace Tern

/-! ## Depth -/

/-- How many brackets are open after a token. One must be open for a closing bracket, and for a
semicolon where these are guarded. -/
def TokenKind.depth? (guarded : Bool) (d : Nat) (k : TokenKind) : Option Nat :=
  if guarded ∧ d = 0 ∧ k = .semicolon then none else (d + k.nesting).toNat?

/-- How many brackets are open after some tokens. -/
def depth? (guarded : Bool) : Nat → List Lexeme → Option Nat
  | d, [] => some d
  | d, t :: ts => (t.kind.depth? guarded d).bind (depth? guarded · ts)

theorem depth?_singleton (guarded : Bool) (t : Lexeme) (d : Nat) :
    depth? guarded d [t] = t.kind.depth? guarded d := by
  simp only [depth?, Option.bind_fun_some]

theorem depth?_append (guarded : Bool) (ts us : List Lexeme) : ∀ d : Nat,
    depth? guarded d (ts ++ us) = (depth? guarded d ts).bind (depth? guarded · us) := by
  induction ts with
  | nil => exact fun _ => rfl
  | cons t ts ih =>
      intro d
      rw [List.cons_append, depth?, depth?, Option.bind_assoc]
      exact Option.bind_congr fun e _ => ih e

theorem TokenKind.depth?_succ {d d' : Nat} {k : TokenKind} (guarded : Bool)
    (h : k.depth? false d = some d') : k.depth? guarded (d + 1) = some (d' + 1) := by
  simp only [depth?, Bool.false_eq_true, false_and, if_false, Nat.add_one_ne_zero, and_false]
    at h ⊢
  rw [Int.mem_toNat?] at h ⊢
  omega

theorem TokenKind.depth?_unguarded {d d' : Nat} {k : TokenKind}
    (h : k.depth? true d = some d') : k.depth? false d = some d' := by
  unfold depth? at h ⊢
  split at h
  · cases h
  · simpa using h

/-- With one more bracket open all semicolons are between brackets. -/
theorem depth?_succ (guarded : Bool) {ts : List Lexeme} : ∀ {d d' : Nat},
    depth? false d ts = some d' → depth? guarded (d + 1) ts = some (d' + 1) := by
  induction ts with
  | nil => exact fun h => congrArg (Option.map (· + 1)) h
  | cons t ts ih =>
      intro d d' h
      obtain ⟨e, hfirst, hrest⟩ := Option.bind_eq_some_iff.mp h
      exact Option.bind_eq_some_iff.mpr ⟨e + 1, TokenKind.depth?_succ guarded hfirst, ih hrest⟩

theorem depth?_unguarded {ts : List Lexeme} : ∀ {d d' : Nat},
    depth? true d ts = some d' → depth? false d ts = some d' := by
  induction ts with
  | nil => exact fun h => h
  | cons t ts ih =>
      intro d d' h
      obtain ⟨e, hfirst, hrest⟩ := Option.bind_eq_some_iff.mp h
      exact Option.bind_eq_some_iff.mpr ⟨e, TokenKind.depth?_unguarded hfirst, ih hrest⟩

theorem depth?_below {ts : List Lexeme} (h : depth? false 0 ts = some 0) :
    ∀ d : Nat, depth? false d ts = some d
  | 0 => h
  | d + 1 => depth?_succ false (depth?_below h d)

/-! ## What phrases do -/

/-- Rules whose semicolons are all between brackets. -/
def Nonterminal.isSealed : Nonterminal → Bool
  | program | statements => false
  | _ => true

/-- How many brackets are open after whatever a phrase reads, if that is always the same. -/
def Phrase.depth? (guarded : Bool) : Phrase → Nat → Option Nat
  | keep k, d | drop k, d => k.depth? guarded d
  | rule n, d => if guarded ∧ d = 0 ∧ n.isSealed = false then none else some d
  | nothing, d => some d
  | seq p q, d => (p.depth? guarded d).bind (q.depth? guarded)
  | either p q, d => if p.depth? guarded d = q.depth? guarded d then p.depth? guarded d else none
  | many p, d | optional p, d => if p.depth? guarded d = some d then some d else none

/-- All brackets are closed, and where a rule is sealed its semicolons are between them. -/
structure Nonterminal.Closes (n : Nonterminal) (ts : List Lexeme) (_ : Yield) : Prop where
  closed : Tern.depth? false 0 ts = some 0
  closedGuarded : n.isSealed → Tern.depth? true 0 ts = some 0

theorem Nonterminal.Closes.depth {n : Nonterminal} {ts : List Lexeme} {y : Yield}
    (h : n.Closes ts y) {guarded : Bool} :
    ∀ {d d' : Nat}, (Phrase.rule n).depth? guarded d = some d' →
    depth? guarded d ts = some d'
  | 0, d', hd => by
      unfold Phrase.depth? at hd
      split at hd
      · cases hd
      · next hsealed =>
        cases hd
        cases guarded with
        | false => exact h.closed
        | true => exact h.closedGuarded (by simpa using hsealed)
  | d + 1, d', hd => by
      simp only [Phrase.depth?, Nat.add_one_ne_zero, false_and, and_false, if_false] at hd
      rw [← Option.some.inj hd]
      exact depth?_succ guarded (depth?_below h.closed d)

/-- What a phrase reads leaves as many brackets open as the phrase does. -/
theorem depth?_of_takes {guarded : Bool} : ∀ {p : Phrase} {ts : List Lexeme} {y : Yield}
    {d d' : Nat}, p.Takes Nonterminal.Closes ts y → p.depth? guarded d = some d' →
    depth? guarded d ts = some d'
  | .keep _, _, _, _, _, ⟨t, rfl, rfl, _⟩, hd => (depth?_singleton guarded t _).trans hd
  | .drop _, _, _, _, _, ⟨t, rfl, rfl, _⟩, hd => (depth?_singleton guarded t _).trans hd
  | .rule _, _, _, _, _, h, hd => h.depth hd
  | .nothing, _, _, _, _, ⟨rfl, _⟩, hd => hd
  | .seq p q, _, _, _, _, ⟨ts, us, _, _, hp, hq, rfl, _⟩, hd => by
      obtain ⟨e, hfirst, hsecond⟩ := Option.bind_eq_some_iff.mp hd
      rw [depth?_append, depth?_of_takes hp hfirst]
      exact depth?_of_takes hq hsecond
  | .either p q, _, _, _, _, h, hd => by
      unfold Phrase.depth? at hd
      split at hd
      · next hsame => exact h.elim (depth?_of_takes · hd) (depth?_of_takes · (hsame ▸ hd))
      · cases hd
  | .many p, _, _, _, _, h, hd => by
      unfold Phrase.depth? at hd
      split at hd
      · next hsame =>
        cases hd
        induction h with
        | stop => rfl
        | again hfirst _ ih =>
            rw [depth?_append, depth?_of_takes hfirst hsame]
            exact ih
      · cases hd
  | .optional p, _, _, _, _, h, hd => by
      unfold Phrase.depth? at hd
      split at hd
      · next hsame =>
        cases hd
        obtain ⟨rfl, -⟩ | h := h
        · rfl
        · exact depth?_of_takes h hsame
      · cases hd

theorem depth?_alternatives (n : Nonterminal) : ∀ q ∈ n.alternatives,
    (Phrase.row q.1).depth? false 0 = some 0 ∧
      (n.isSealed → (Phrase.row q.1).depth? true 0 = some 0) := by
  cases n <;> decide

theorem closes_of_reads {convention : Convention} {n : Nonterminal} {ts : List Lexeme} {y : Yield}
    (h : (Phrase.rule n).Reads convention ts y) : n.Closes ts y := by
  have hall : (Phrase.rule n).Takes Nonterminal.Closes ts y := by
    refine h.takes fun n ps alias? ha ts y h => ?_
    obtain ⟨hclosed, hguarded⟩ := depth?_alternatives n _ ha
    exact ⟨depth?_of_takes h hclosed, fun hn => depth?_of_takes h (hguarded hn)⟩
  exact hall

theorem depth?_of_reads {convention : Convention} {p : Phrase} {ts : List Lexeme} {y : Yield}
    (h : p.Reads convention ts y) {guarded : Bool} {d d' : Nat}
    (hd : p.depth? guarded d = some d') : depth? guarded d ts = some d' :=
  depth?_of_takes ((Phrase.reads_iff_takes.mp h).mono fun _ _ _ h => closes_of_reads h) hd

/-! ## Where statements end -/

/-- No bracket is open at the end, and the last of the tokens is a semicolon. -/
structure EndsStatement (ts : List Lexeme) : Prop where
  closed : depth? false 0 ts = some 0
  last : ∀ t ∈ ts.getLast?, t.kind = .semicolon

/-- Tokens whose semicolons are between brackets do not begin with tokens that end a statement. -/
theorem EndsStatement.eq_nil {ts us : List Lexeme} (h : EndsStatement ts) {d : Nat}
    (hguarded : depth? true 0 (ts ++ us) = some d) : ts = [] := by
  cases hts : ts.getLast? with
  | none => exact List.getLast?_eq_none_iff.mp hts
  | some t =>
      have hkind := h.last t hts
      obtain ⟨before, rfl⟩ := List.getLast?_eq_some_iff.mp hts
      rw [depth?_append] at hguarded
      obtain ⟨e, hguarded, -⟩ := Option.bind_eq_some_iff.mp hguarded
      have hzero : e = 0 := Option.some.inj ((depth?_unguarded hguarded).symm.trans h.closed)
      rw [depth?_append] at hguarded
      obtain ⟨e', -, hlast⟩ := Option.bind_eq_some_iff.mp hguarded
      rw [depth?_singleton, hkind, hzero] at hlast
      cases e' with
      | zero => cases hlast
      | succ e' => cases hlast

theorem EndsStatement.of_append {ts us : List Lexeme} (h : EndsStatement (ts ++ us))
    (hts : depth? false 0 ts = some 0) : EndsStatement us := by
  have hclosed := h.closed
  rw [depth?_append, hts] at hclosed
  refine ⟨hclosed, fun t ht => h.last t ?_⟩
  rw [List.getLast?_append, Option.mem_def.mp ht]
  rfl

/-- A statement with what separates it from the next: at most one token after brackets are closed
and semicolons are between them. -/
theorem exists_sealed_of_separable {ts : List Lexeme} {y : Yield}
    (h : separable.Reads .lowered ts y) :
    ∃ ws us, ts = ws ++ us ∧ depth? true 0 ws = some 0 ∧ us.length ≤ 1 := by
  obtain h | h := Phrase.reads_iff_takes.mp h
  · obtain ⟨ws, _, _, _, hitem, ⟨us, _, _, _, hsemicolon, ⟨rfl, rfl⟩, rfl, rfl⟩, rfl, rfl⟩ := h
    refine ⟨ws, us, by simp, (closes_of_reads hitem).closedGuarded rfl, ?_⟩
    obtain ⟨rfl, -⟩ | ⟨t, -, rfl, -⟩ := hsemicolon <;> simp
  · obtain ⟨ws, _, _, _, hsimple, ⟨_, _, _, _, ⟨t, -, rfl, -⟩, ⟨rfl, rfl⟩, rfl, rfl⟩, rfl, rfl⟩ := h
    exact ⟨ws, [t], by simp, (closes_of_reads hsimple).closedGuarded rfl, by simp⟩

/-- What ends a statement before a statement has been read to its end has not begun it. -/
theorem EndsStatement.eq_nil_of_separable {ts us : List Lexeme} (h : EndsStatement ts) {y : Yield}
    (hread : separable.Reads .lowered (ts ++ us) y) (hus : us ≠ []) : ts = [] := by
  obtain ⟨ws, vs, hsplit, hguarded, hlen⟩ := exists_sealed_of_separable hread
  rcases List.append_eq_append_iff.mp hsplit with ⟨rest, rfl, -⟩ | ⟨rest, rfl, rfl⟩
  · exact h.eq_nil hguarded
  · -- There is one token at most after the brackets are closed, and that is in `us`.
    obtain rfl : rest = [] := by
      have hpos := List.length_pos_iff.mpr hus
      rw [List.length_append] at hlen
      exact List.length_eq_zero_iff.mp (by omega)
    have hguarded : depth? true 0 ((ws ++ []) ++ []) = some 0 := by simpa using hguarded
    exact h.eq_nil hguarded

/-- What ends a statement has not begun one that nothing separates from what comes after it. -/
theorem EndsStatement.eq_nil_of_simple {ts us : List Lexeme} (h : EndsStatement ts) {y : Yield}
    (hread : (Phrase.optional (.rule .simple)).Reads .lowered (ts ++ us) y) : ts = [] := by
  obtain ⟨hnil, -⟩ | hsimple := Phrase.reads_iff_takes.mp hread
  · exact (List.append_eq_nil_iff.mp hnil).1
  · exact h.eq_nil ((closes_of_reads hsimple).closedGuarded rfl)

/-- Statements are some that are separated, and perhaps a last one. -/
@[elab_as_elim]
theorem statements_rec
    {motive : ∀ (ts : List Lexeme) (y : Yield), Nonterminal.statements.Reads ts y → Prop}
    (last : ∀ {ts : List Lexeme} {y : Yield}
      (_ : (Phrase.optional (.rule .simple)).Reads .lowered ts y) hread, motive ts y hread)
    (again : ∀ {ts us : List Lexeme} {y z : Yield} (_ : separable.Reads .lowered ts y)
      (hrest : Nonterminal.statements.Reads us z) hread, motive us z hrest →
      motive (ts ++ us) (y ++ z) hread)
    {ts : List Lexeme} {y : Yield} (h : Nonterminal.statements.Reads ts y) : motive ts y h := by
  obtain ⟨ts, us, y, z, hmany, hlast, rfl, rfl⟩ := reads_statements_iff.mp h
  have hrepeats : Repeats (separable.Takes _) ts y := Phrase.reads_iff_takes.mp hmany
  clear hmany
  induction hrepeats with
  | stop => exact last hlast h
  | again hfirst hmany ih =>
      have hfirst := Phrase.reads_of_takes hfirst
      have hrest := reads_statements (Phrase.reads_of_takes (p := .many separable) hmany) hlast
      revert h
      rw [List.append_assoc, Yield.append_assoc]
      exact fun h => again hfirst hrest h (ih hrest)

/-- Where a semicolon stands outside of brackets, statements can be cut. -/
theorem reads_statements_cut {ts us : List Lexeme} {y : Yield}
    (h : Nonterminal.statements.Reads (ts ++ us) y) (hts : EndsStatement ts) :
    ∃ y₁ y₂, Nonterminal.statements.Reads ts y₁ ∧ Nonterminal.statements.Reads us y₂ ∧
      y = y₁ ++ y₂ := by
  generalize hall : ts ++ us = all at h
  induction h using statements_rec generalizing ts with
  | @last all y hlast hread =>
      subst hall
      obtain rfl := hts.eq_nil_of_simple hlast
      exact ⟨.nothing, y, reads_statements_nil, hread, rfl⟩
  | @again cs ds y z hfirst hrest hread ih =>
      rcases List.append_eq_append_iff.mp hall with ⟨rest, rfl, rfl⟩ | ⟨rest, rfl, rfl⟩
      · by_cases hnil : rest = []
        · subst hnil
          rw [List.append_nil] at hfirst
          have hts := reads_statements_again hfirst reads_statements_nil
          rw [List.append_nil, Yield.append_nothing] at hts
          exact ⟨y, z, hts, hrest, rfl⟩
        · obtain rfl := hts.eq_nil_of_separable hfirst hnil
          exact ⟨.nothing, y ++ z, reads_statements_nil, hread, rfl⟩
      · obtain ⟨y₁, y₂, hy₁, hy₂, rfl⟩ :=
          ih (hts.of_append (depth?_of_reads hfirst (by decide))) rfl
        exact ⟨y ++ y₁, y₂, reads_statements_again hfirst hy₁, hy₂, (Yield.append_assoc ..).symm⟩

/-- After a semicolon there may be more statements. -/
theorem reads_statements_append {ts us : List Lexeme} {y z : Yield}
    (h : Nonterminal.statements.Reads ts y) (hts : EndsStatement ts)
    (hus : Nonterminal.statements.Reads us z) :
    Nonterminal.statements.Reads (ts ++ us) (y ++ z) := by
  induction h using statements_rec with
  | @last ts y hlast hread =>
      have hall := hlast
      rw [← List.append_nil ts] at hall
      obtain rfl := hts.eq_nil_of_simple hall
      obtain ⟨-, rfl⟩ | hsimple := Phrase.reads_iff_takes.mp hlast
      · rwa [List.nil_append, Yield.nothing_append]
      · exact absurd rfl (ne_nil_of_reads hsimple rfl)
  | @again cs ds y y' hfirst hds hread ih =>
      rw [List.append_assoc, Yield.append_assoc]
      exact reads_statements_again hfirst
        (ih (hts.of_append (depth?_of_reads hfirst (by decide))))

end Tern
