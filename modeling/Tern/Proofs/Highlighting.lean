import Mathlib.Data.List.Forall2
import Tern.Proofs.Cuts
import Tern.Session.Highlight

/-!
# What a highlighted line shows

The fragments of a line spell out the line. For the lexemes of a line adjoin each other from its
start, so that nothing is left before any of them (`paint_of_adjoin`), and what is left after the
last of them is what follows the place where lexing fails, or nothing (`leftover_of_ends`). Every
lexeme has its fragment, and none of these is marked as an error.
-/

namespace Tern

/-! ## Fragments of lexemes -/

/-- A fragment shows a lexeme: with its text, and with the style of its kind unless it is a name,
which may be shown as what it declares or calls. -/
structure Fragment.Shows (f : Fragment) (l : Lexeme) : Prop where
  text : f.text = l.text
  style : f.style = l.kind.style ∨ l.kind = .ident ∧ f.style ∈ [Style.type, .function, .plain]

theorem TokenKind.style_ne_error (k : TokenKind) : k.style ≠ .error := by
  cases k <;> nofun

theorem Fragment.Shows.ne_error {f : Fragment} {l : Lexeme} (h : f.Shows l) : f.style ≠ .error := by
  intro herror
  rcases h.style with hkind | ⟨-, hname⟩
  · exact l.kind.style_ne_error (hkind.symm.trans herror)
  · rw [herror] at hname
    exact absurd hname (by decide)

theorem nameStyle_mem (before : Option TokenKind) (after : List Lexeme) :
    nameStyle before after ∈ [Style.type, .function, .plain] := by
  have hdeclares {k : TokenKind} {style : Style} (h : k.declares? = some style) :
      style ∈ [Style.type, .function, .plain] := by
    cases k <;> cases h <;> decide
  unfold nameStyle
  split
  · next hsome =>
    obtain ⟨k, -, hk⟩ := Option.bind_eq_some_iff.mp hsome
    exact hdeclares hk
  · split <;> decide

theorem shows_of_lexeme (before : Option TokenKind) (l : Lexeme) (rest : List Lexeme) :
    Fragment.Shows ⟨if l.kind = .ident then nameStyle before rest else l.kind.style, l.text⟩ l := by
  refine ⟨rfl, ?_⟩
  dsimp only
  split
  · next hname => exact .inr ⟨hname, nameStyle_mem before rest⟩
  · exact .inl rfl

/-- The fragments that show lexemes have their characters. -/
theorem flatMap_text_of_shows {shown : List Fragment} {ls : List Lexeme}
    (h : List.Forall₂ Fragment.Shows shown ls) :
    shown.flatMap (·.text.toList) = texts ls := by
  induction h with
  | nil => rfl
  | cons hfirst _ ih => rw [List.flatMap_cons, ih, hfirst.text, texts_cons]

/-! ## Painting -/

/-- Lexemes that adjoin each other end where their characters do. -/
theorem Adjoin.last_eq {first last : Nat} {ls : List Lexeme} (h : Adjoin first ls last) :
    last = first + (texts ls).length := by
  induction ls generalizing first with
  | nil => exact h.symm
  | cons l rest ih =>
      rw [ih h.2, Lexeme.stop, h.1, texts_cons, List.length_append, String.length_toList,
        Nat.add_assoc]

/-- Nothing is left of a line before any of the lexemes. -/
theorem paint_of_adjoin (line : List Char) {offset last : Nat} {ls : List Lexeme}
    (h : Adjoin offset ls last) (before : Option TokenKind) :
    ∃ shown, List.Forall₂ Fragment.Shows shown ls ∧
      paint line before offset ls = shown ++ leftover line last := by
  induction ls generalizing offset before with
  | nil => exact ⟨[], .nil, by rw [paint, show offset = last from h, List.nil_append]⟩
  | cons l rest ih =>
      obtain ⟨shown, hshown, hpaint⟩ := ih h.2 (if l.kind = .blank then before else some l.kind)
      refine ⟨_ :: shown, .cons (shows_of_lexeme before l rest) hshown, ?_⟩
      rw [paint, gap, if_neg (by rw [h.1]; exact Nat.lt_irrefl _), hpaint]
      rfl

theorem flatMap_text_leftover (line : List Char) (offset : Nat) :
    (leftover line offset).flatMap (·.text.toList) = line.drop offset := by
  unfold leftover
  split
  · simp
  · next hle => exact (List.drop_eq_nil_of_le (Nat.le_of_not_lt hle)).symm

/-- The rest of a line from the place where lexing fails. -/
def errorTail (line : String) : Option LexFailure → List Fragment
  | none => []
  | some f => [⟨.error, String.ofList (line.toList.drop f.offset)⟩]

theorem leftover_of_ends {line : String} {last : Nat} {lexed : Lexed}
    (h : lexed.Ends line.toList last) :
    leftover line.toList last = errorTail line lexed.failure? := by
  unfold Lexed.Ends at h
  unfold leftover
  split at h
  · next hnone => rw [hnone, h, if_neg (Nat.lt_irrefl _), errorTail]
  · next f hsome =>
    obtain ⟨hoffset, hchar, -⟩ := h
    have hlt : last < line.toList.length := (List.getElem?_eq_some_iff.mp hchar).1
    rw [hsome, if_pos hlt, errorTail, hoffset]

/-! ## Lines -/

/-- The lexemes of a line make up its beginning. -/
theorem texts_prefix_of_lex (line : String) : texts (lex line).lexemes <+: line.toList := by
  cases hfailure : (lex line).failure? with
  | none =>
      have hall : texts (lex line).lexemes = line.toList :=
        texts_lexFrom (Nat.le_refl _) hfailure
      exact ⟨[], (List.append_nil _).trans hall⟩
  | some f =>
      obtain ⟨rest, hline, -⟩ := lexFrom_failure hfailure
      exact ⟨f.char :: rest, hline.symm⟩

/-- Something of a line that is not empty is painted: a lexeme, or all that is left. -/
theorem paint_ne_nil {line : List Char} (hline : line ≠ []) (before : Option TokenKind)
    (ls : List Lexeme) : paint line before 0 ls ≠ [] := by
  cases ls with
  | nil => simp [paint, leftover, List.length_pos_iff.mpr hline]
  | cons l rest => simp [paint]

/-- The fragments of a line that is not empty spell it out. They are one for each lexeme, none of
them an error, and where lexing fails one more for the rest of the line. -/
theorem highlightLine_spells {line : String} (hline : line ≠ "") :
    String.join ((highlightLine line).map (·.text)) = line ∧
    ∃ shown, List.Forall₂ Fragment.Shows shown (lex line).lexemes ∧
      (∀ f ∈ shown, f.style ≠ .error) ∧
      highlightLine line = shown ++ errorTail line (lex line).failure? := by
  obtain ⟨last, hadjoin, -, hends⟩ :=
    cuts_lexFrom (Nat.le_refl line.toList.length) rfl Pos.locates_start
  obtain ⟨shown, hshown, hpaint⟩ := paint_of_adjoin line.toList hadjoin none
  have hhighlight : highlightLine line = shown ++ leftover line.toList last := by
    have hne : paint line.toList none 0 (lex line).lexemes ≠ [] :=
      paint_ne_nil (mt String.toList_eq_nil_iff.mp hline) none _
    rw [highlightLine, if_neg hline, ← hpaint]
    split
    · next hnil => exact absurd hnil hne
    · rfl
  refine ⟨?_, shown, hshown, ?_, ?_⟩
  · have hlast : last = (texts (lex line).lexemes).length :=
      hadjoin.last_eq.trans (Nat.zero_add _)
    rw [hhighlight, ← String.toList_inj, String.toList_join, List.flatMap_map, List.flatMap_append,
      flatMap_text_of_shows hshown, flatMap_text_leftover, hlast]
    exact List.prefix_iff_eq_append.mp (texts_prefix_of_lex line)
  · have hstyles := hshown.imp fun _ _ h => And.intro h.ne_error h
    exact ((List.forall₂_and_left ..).mp hstyles).1
  · rw [hhighlight, leftover_of_ends hends]
    rfl

/-- A call in a line that breaks off within a string. -/
theorem highlightLine_spells_call :
    "f(\"x" ≠ "" ∧ String.join ((highlightLine "f(\"x").map (·.text)) = "f(\"x" ∧
    highlightLine "f(\"x" = [⟨.function, "f"⟩, ⟨.plain, "("⟩, ⟨.error, "\"x"⟩] := by
  have hline : "f(\"x" ≠ "" := by decide
  exact ⟨hline, (highlightLine_spells hline).1, by decide +kernel⟩

end Tern
