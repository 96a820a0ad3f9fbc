import Tern.Program
import Tern.Proofs.Matches

/-!
# Literals

A text that some terminal covers from end to end is cut into one lexeme (`lex_of_isText`). If it is
a number or a string, then it is a program, and what the token evaluates to is all that the program
comes to (`submit_literal`). A text between quotes is such a text whatever it holds: each quote and
each backslash inside has a backslash before it, so that the first quote without one is the last
character. Hence what is quoted can be read again as a program (`submit_quote`).
-/

namespace Tern

open Text

/-! ## Texts of one lexeme -/

/-- A text that a terminal covers is cut into one lexeme. -/
theorem lex_of_isText {source : String} {k : TokenKind} (hk : k ∈ terminals.map (·.1))
    (hname : k ≠ .ident) (h : IsText k source.toList) :
    lex source = ⟨[⟨k, source, .start, 0⟩], none⟩ := by
  have hmatch : longestMatch? (source.toList ++ []) = some (k, source.toList.length) := by
    refine longestMatch?_eq_some_iff.mpr ⟨hk, h, fun _ v _ hv => ?_⟩
    rw [List.append_nil] at hv
    exact hv.length_le
  have hfirst := lexFrom_of_longestMatch? (Nat.le_refl _) hmatch .start 0
  rw [List.append_nil, String.ofList_toList, reserve_of_ne hname] at hfirst
  rw [lex, hfirst]
  cases source.toList.length <;> rfl

/-- The kinds of token that are programs and have values of their own. -/
def literalKinds : List TokenKind := [.number, .string]

/-- The program of a single token. -/
def Node.ofLiteral (kind : TokenKind) (text : String) : Node :=
  .tree .block [.token kind text (some .start)] (some .start)

theorem parse_literal {source : String} {k : TokenKind} (hk : k ∈ literalKinds)
    (h : IsText k source.toList) : parse source = .ok (.ofLiteral k source) := by
  simp only [literalKinds, List.mem_cons, List.not_mem_nil, or_false] at hk
  rcases hk with rfl | rfl
  · rw [parse, lex_of_isText (k := .number) (by decide) (by decide) h]
    rfl
  · rw [parse, lex_of_isText (k := .string) (by decide) (by decide) h]
    rfl

section Evaluation

variable {kind : TokenKind} {text : String} {env : LayerId} {v : Value} {s : Store}
  (h : Eval.token kind text env s = (.ok v, s))

include h

/-- A token's value does not depend on where it stands. -/
theorem evalNode_token (limit depth : Nat) (pos : Option Pos) :
    Eval.evalNode limit (depth + 1) (.token kind text pos) env s = (.ok v, s) := by
  show Eval.located (.token kind text pos) (Eval.token kind text env) s = _
  rw [Eval.located, h]

theorem evaluate_ofLiteral : evaluate (.ofLiteral kind text) env s = (.ok v, s) := by
  have htoken := evalNode_token h turnLimit 998 (some .start)
  show Eval.located (.ofLiteral kind text) (Eval.block (Eval.evalNode turnLimit 999) env .nothing
    [.token kind text (some .start)]) s = _
  rw [Eval.located, Eval.block, Eval.bind_apply, htoken]
  rfl

end Evaluation

/-- The program of a literal comes to the value of its token, and leaves the store as it is. -/
theorem submit_literal {source : String} {k : TokenKind} (hk : k ∈ literalKinds)
    (h : IsText k source.toList) {env : LayerId} {v : Value} {s : Store}
    (hv : Eval.token k source env s = (.ok v, s)) : submit source env s = (.ok v, s) := by
  rw [submit, parse_literal hk h]
  dsimp only
  rw [evaluate_ofLiteral hv]

/-! ## Quoted texts -/

/-- The inside of a literal and the closing quote. No character is written as a newline after a
backslash. -/
theorem isStringRest_escapeChars : ∀ cs : List Char, IsStringRest (escapeChars cs ++ ['"'])
  | [] => .close
  | c :: cs => by
      have hrest := isStringRest_escapeChars cs
      rw [escapeChars]
      split
      · next letter hletter =>
        refine .escaped ?_ hrest
        rintro rfl
        cases escaped?_of_escapeLetter? hletter
      · next hplain =>
        refine .plain ?_ (ne_backslash_of_escapeLetter? hplain) hrest
        rintro rfl
        cases hplain

theorem isText_quote (text : String) : IsText .string (quote text).toList := by
  rw [quote, String.toList_ofList]
  exact .string (isStringRest_escapeChars text.toList)

theorem token_quote (text : String) (env : LayerId) (s : Store) :
    Eval.token .string (quote text) env s = (.ok (.string text), s) := by
  rw [Eval.token, unquote_quote]
  rfl

/-- A quoted text is one string token, which is a program, and the value of both is the text. -/
theorem submit_quote (text : String) :
    lex (quote text) = ⟨[⟨.string, quote text, .start, 0⟩], none⟩ ∧
      parse (quote text) = .ok (.ofLiteral .string (quote text)) ∧
      (∀ pos env s, evaluate (.token .string (quote text) pos) env s = (.ok (.string text), s)) ∧
      (∀ env s, submit (quote text) env s = (.ok (.string text), s)) ∧
      unquote (quote text) = text := by
  have htext := isText_quote text
  have hkind : TokenKind.string ∈ literalKinds := by decide
  exact ⟨lex_of_isText (by decide) (by decide) htext, parse_literal hkind htext,
    fun pos env s => evalNode_token (token_quote text env s) turnLimit 999 pos,
    fun env s => submit_literal hkind htext (token_quote text env s), unquote_quote text⟩

end Tern
