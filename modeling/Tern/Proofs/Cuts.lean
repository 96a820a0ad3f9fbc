import Tern.Proofs.Matches

/-!
# How a text is cut

The lexemes of a text follow each other from its start to its end, or to the first place where
no terminal matches, and each stands in the text where it says it does: its characters are those
between its start and its stop, its line and column count what comes before it, and no text of
any terminal that stands there is longer (`lex_cuts`). One statement about the cutting from any
place in a text carries all of this along the recursion (`cuts_lexFrom`).
-/

namespace Tern

open Text

/-! ## Places in a text -/

/-- A line and a column say where the text after `before` begins: newlines start lines, and the
column counts from the last of them. -/
structure Pos.Locates (before : List Char) (p : Pos) : Prop where
  line : p.line = 1 + before.count '\n'
  column : p.column = 1 + (before.reverse.takeWhile (· ≠ '\n')).length

theorem Pos.locates_start : Pos.start.Locates [] := ⟨rfl, rfl⟩

theorem Pos.Locates.next {before : List Char} {p : Pos} (h : p.Locates before) (c : Char) :
    (p.next c).Locates (before ++ [c]) := by
  by_cases hc : c = '\n'
  · subst hc
    exact ⟨by simp [Pos.next, h.line, Nat.add_assoc], by simp [Pos.next]⟩
  · exact ⟨by simp [Pos.next, hc, h.line], by simp [Pos.next, hc, h.column, Nat.add_assoc]⟩

theorem Pos.Locates.after {before : List Char} : ∀ {p : Pos} (_ : p.Locates before)
    (cs : List Char), (p.after cs).Locates (before ++ cs)
  | _, h, [] => by rwa [List.append_nil]
  | _, h, c :: cs => by
      rw [List.append_cons]
      exact (h.next c).after cs

/-- A lexeme stands in a text at its start and its position: it is the longest text of any
terminal there, and where it is spelled like a reserved word it is that word. -/
structure Lexeme.Stands (cs : List Char) (l : Lexeme) : Prop where
  slice : (cs.drop l.start).take l.text.length = l.text.toList
  place : l.pos.Locates (cs.take l.start)
  text : IsText l.kind l.text.toList
  longest : ∀ {k : TokenKind} {w : List Char}, IsText k w → w <+: cs.drop l.start →
    w.length ≤ l.text.length
  reserved : ∀ {k : TokenKind}, (l.text, k) ∈ keywords → l.kind = k

/-- Lexemes that follow each other from one offset to another. -/
def Adjoin : Nat → List Lexeme → Nat → Prop
  | first, [], last => first = last
  | first, l :: ls, last => l.start = first ∧ Adjoin l.stop ls last

/-- Where the cutting of a text ends: at its end, or at a character where no terminal matches. -/
def Lexed.Ends (cs : List Char) (last : Nat) (lexed : Lexed) : Prop :=
  match lexed.failure? with
  | none => last = cs.length
  | some f => f.offset = last ∧ cs[last]? = some f.char ∧ f.pos.Locates (cs.take last) ∧
      ∀ {k : TokenKind} {w : List Char}, IsText k w → ¬w <+: cs.drop last

/-! ## Cutting from a place -/

/-- The lexeme of the longest match stands where the rest of the text begins. -/
theorem stands_of_longestMatch? {before rest : List Char} {kind : TokenKind} {n : Nat}
    (h : longestMatch? rest = some (kind, n)) {text : String} (htext : text.toList = rest.take n)
    {p : Pos} (hp : p.Locates before) :
    Lexeme.Stands (before ++ rest) ⟨reserve kind text, text, p, before.length⟩ := by
  have hlen : text.length = n := by
    rw [← String.length_toList, htext, length_take_of_longestMatch? h]
  constructor
  · rw [List.drop_left, hlen, htext]
  · rwa [List.take_left]
  · refine isText_reserve ?_
    rw [htext]
    exact isText_of_longestMatch? h
  · intro k w hw hinit
    rw [List.drop_left] at hinit
    rw [hlen]
    exact length_le_of_longestMatch? h hw hinit
  · exact reserve_of_mem_keywords h htext.symm

/-- What comes before the place where the cutting starts is only counted. -/
theorem cuts_lexFrom {rounds : Nat} {p : Pos} {offset : Nat} {rest before : List Char}
    (hrounds : rest.length ≤ rounds) (hoffset : offset = before.length) (hp : p.Locates before) :
    ∃ last, Adjoin offset (lexFrom rounds p offset rest).lexemes last ∧
      (∀ l ∈ (lexFrom rounds p offset rest).lexemes, l.Stands (before ++ rest)) ∧
      (lexFrom rounds p offset rest).Ends (before ++ rest) last := by
  fun_induction lexFrom rounds p offset rest generalizing before with
  | case1 =>
      subst hoffset
      refine ⟨before.length, rfl, List.forall_mem_nil _, ?_⟩
      rw [List.append_nil]
      rfl
  | case2 => exact absurd (Nat.le_zero.mp hrounds) (by simpa using ‹_›)
  | case3 rounds p offset c rest hmatch =>
      subst hoffset
      refine ⟨before.length, rfl, List.forall_mem_nil _, rfl, by simp, by rwa [List.take_left], ?_⟩
      intro k w hw
      rw [List.drop_left]
      exact not_isText_of_longestMatch? hmatch hw
  | case4 rounds p offset c rest kind n hmatch taken text later =>
      rename_i ih
      subst hoffset
      have htext : text.toList = (c :: rest).take n := String.toList_ofList
      have hn : ((c :: rest).take n).length = n := length_take_of_longestMatch? hmatch
      have hlen : ((c :: rest).drop n).length ≤ rounds :=
        (length_drop_of_longestMatch? hmatch).trans (Nat.le_of_succ_le_succ hrounds)
      obtain ⟨last, hadjoin, hstands, hends⟩ :=
        ih hlen (by rw [List.length_append, hn]) (hp.after ((c :: rest).take n))
      rw [List.append_assoc, List.take_append_drop] at hstands hends
      have hfirst := stands_of_longestMatch? hmatch htext hp
      refine ⟨last, ⟨rfl, ?_⟩, List.forall_mem_cons.mpr ⟨hfirst, hstands⟩, hends⟩
      rw [Lexeme.stop, ← String.length_toList, htext, hn]
      exact hadjoin

/-- The lexemes of a text adjoin each other from its start up to its end, or up to the first
place where no terminal matches, and each of them stands in the text. -/
theorem lex_cuts (source : String) :
    ∃ last, Adjoin 0 (lex source).lexemes last ∧
      (∀ l ∈ (lex source).lexemes, l.Stands source.toList) ∧
      (lex source).Ends source.toList last :=
  cuts_lexFrom (Nat.le_refl _) rfl Pos.locates_start

end Tern
