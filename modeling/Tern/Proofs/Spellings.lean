import Tern.Proofs.Readings
import Tern.Proofs.Scanning

/-!
# Texts of given tokens

Every kind of token that a rule mentions has a spelling, and the spellings of some kinds, with a
blank after each, are cut into tokens of just these kinds (`kinds_tokens_spell`). So what can be
read at all can be read from a text.
-/

namespace Tern

open Text

/-- The kinds of token that rules may mention. -/
def spelled : List TokenKind := TokenKind.known.filter (!·.isIgnored)

/-- A text of some kind of token. -/
def spelling : TokenKind → String
  | .number => "0"
  | .string => "\"\""
  | .ident => "x"
  | k => (((fixedTexts.lookup k).bind (·.head?)).or ((keywords.find? (·.2 = k)).map (·.1))).getD ""

/-- The characters of spellings, each with a blank after it. -/
def spellingChars : List TokenKind → List Char
  | [] => []
  | k :: ks => (spelling k).toList ++ ' ' :: spellingChars ks

def spell (ks : List TokenKind) : String := String.ofList (spellingChars ks)

/-! ## One token -/

/-- The kind of a spelling before it is looked up among the reserved words. -/
def TokenKind.matched (k : TokenKind) : TokenKind := if keywords.any (·.2 = k) then .ident else k

theorem reserve_matched {k : TokenKind} (hk : k ∈ spelled) :
    reserve k.matched (spelling k) = k := by
  revert k
  decide +kernel

theorem isIgnored_matched {k : TokenKind} (hk : k ∈ spelled) : k.matched.isIgnored = false := by
  rw [← isIgnored_reserve k.matched (spelling k), reserve_matched hk]
  simpa using (List.mem_filter.mp hk).2

theorem longestMatch?_spelling_nil :
    ∀ k ∈ spelled, longestMatch? ((spelling k).toList ++ []) =
      some (k.matched, (spelling k).toList.length) := by
  decide +kernel

/-- Before a blank the longest match is the whole spelling. -/
theorem longestMatch?_spelling {k : TokenKind} (hk : k ∈ spelled) (rest : List Char) :
    longestMatch? ((spelling k).toList ++ ' ' :: rest) =
      some (k.matched, (spelling k).toList.length) :=
  longestMatch?_ahead (isIgnored_matched hk) (longestMatch?_spelling_nil k hk)
    (.inl (clear_cons rfl _))

/-! ## All tokens -/

theorem scans_spellingChars : ∀ {ks : List TokenKind}, (∀ k ∈ ks, k ∈ spelled) →
    ∀ (p : Pos) (offset : Nat), ∃ ts, Scans p offset (spellingChars ks) ts ∧ kinds ts = ks
  | [], _, _, _ => ⟨[], .done, rfl⟩
  | k :: ks, hks, p, offset => by
      obtain ⟨hk, hks⟩ := List.forall_mem_cons.mp hks
      obtain ⟨ts, hscans, hkinds⟩ := scans_spellingChars hks _ _
      refine ⟨_, .token (longestMatch?_spelling hk _) (isIgnored_matched hk)
        (.blank rfl hscans), ?_⟩
      rw [String.ofList_toList, reserve_matched hk]
      exact congrArg (k :: ·) hkinds

/-- What is scanned in a whole text. -/
theorem tokens_of_scans {source : String} {ts : List Lexeme}
    (h : Scans .start 0 source.toList ts) :
    tokens source = ts ∧ (lex source).failure? = none :=
  lexFrom_of_scans h (Nat.le_refl _)

theorem scans_tokens {source : String} (h : (lex source).failure? = none) :
    Scans .start 0 source.toList (tokens source) :=
  scans_lexFrom (Nat.le_refl _) h

theorem exists_scans_spell {ks : List TokenKind} (hks : ∀ k ∈ ks, k ∈ spelled) :
    ∃ ts, Scans .start 0 (spell ks).toList ts ∧ kinds ts = ks := by
  rw [spell, String.toList_ofList]
  exact scans_spellingChars hks _ _

theorem failure?_lex_spell {ks : List TokenKind} (hks : ∀ k ∈ ks, k ∈ spelled) :
    (lex (spell ks)).failure? = none := by
  obtain ⟨ts, hscans, -⟩ := exists_scans_spell hks
  exact (tokens_of_scans hscans).2

theorem kinds_tokens_spell {ks : List TokenKind} (hks : ∀ k ∈ ks, k ∈ spelled) :
    kinds (tokens (spell ks)) = ks := by
  obtain ⟨ts, hscans, hkinds⟩ := exists_scans_spell hks
  rw [(tokens_of_scans hscans).1, hkinds]

end Tern
