import Tern.Proofs.Scanning
import Tern.Proofs.Unambiguous

/-!
# Neighbours

Two texts of tokens that touch each other need not be cut where they touch. They are, unless a word
goes on into the second text or the kinds clash, such as those of a number and a point
(`longestMatch?_beside`). In a program no token's kind clashes with that of the next one, wherever
the two stand (`noClash_of_parse`): that is a check over the productions, each with what may come
after it. So the words are all that has to be kept apart.
-/

namespace Tern

open Text TokenKind

/-! ## Texts that touch -/

/-- The kinds that clash with one before them: where the texts touch, they may be cut elsewhere.
That a word goes on into what it touches is left out. -/
def TokenKind.clashing : TokenKind → List TokenKind
  | number => [number, dot]
  | dot => [dot, dots]
  | addOp | mulOp | compareOp | equal => [equal, compareOp, arrow]
  | _ => []

/-- A first text is a word and goes on into the second if they touch. -/
def runsOn (cs ds : List Char) : Bool := cs.head?.any isNameStart && ds.head?.any isNamePart

theorem mem_clashing_of_mem_fixedTexts : ∀ q ∈ fixedTexts, ∀ text ∈ q.2,
    ∀ q₁ ∈ fixedTexts, ∀ first ∈ q₁.2, first.toList = text.toList.dropLast →
    ∀ q₂ ∈ fixedTexts, ∀ next ∈ q₂.2, next.toList.head? = text.toList.getLast? →
      q₂.1 ∈ q₁.1.clashing := by
  decide +kernel

theorem family_chars_fixedTexts :
    ∀ q ∈ fixedTexts, ∀ text ∈ q.2, ∀ c ∈ text.toList, family c = .sign := by
  have hall : ∀ q ∈ fixedTexts, ∀ text ∈ q.2, text.toList.all (family · = .sign) := by
    decide +kernel
  intro q hq text ht c hc
  simpa using List.all_eq_true.mp (hall q hq text ht) c hc

/-- A numeral has a digit after its point. -/
theorem isDigit_of_isPlainNumeral {w u : List Char} (h : IsPlainNumeral isDigit (w ++ '.' :: u)) :
    ∃ d u', u = d :: u' ∧ isDigit d := by
  generalize hv : w ++ '.' :: u = v at h
  cases h with
  | whole _ hd =>
      have := hd '.' (by simp [← hv])
      cases this
  | @pointed ds fs _ hd hf hfs =>
      have hpoint : ∀ {cs : List Char}, (∀ c ∈ cs, isDigit c) → '.' ∉ cs :=
        fun hcs hmem => absurd (hcs _ hmem) (by decide)
      obtain ⟨-, -, rfl⟩ :=
        (List.append_cons_inj_of_notMem (hpoint hd) (hpoint hfs)).mp hv.symm
      obtain ⟨d, u, rfl⟩ := List.exists_cons_of_ne_nil hf
      exact ⟨d, u, rfl, hfs d (List.mem_cons_self ..)⟩

theorem eq_number_of_isText {k : TokenKind} {w : List Char} (h : IsText k w)
    (hdigit : k.family = .digit) : k = number := by
  have hsign : ∀ q ∈ fixedTexts, q.1.family = .sign := by decide +kernel
  cases h with
  | number => rfl
  | fixed hk =>
      rw [hsign _ hk] at hdigit
      cases hdigit
  | reserved hk =>
      rw [family_keywords _ hk] at hdigit
      cases hdigit
  | string | ident | comment | blank => cases hdigit

section Beside

variable {k : TokenKind} {w u v more : List Char} {x : Char} (hv : IsText k (x :: v))

include hv

/-- Neither a digit nor a point with a digit after it comes after a number. -/
theorem not_digit_beside (hcalm : k ∉ number.clashing) (hu : u <+: v ++ more) :
    ¬Family.digit.Covers (w ++ x :: u) := by
  intro hlong
  rcases hlong.mem (List.mem_append_right w (List.mem_cons_self ..)) with hx | rfl
  · have hkind := eq_number_of_isText hv ((family_of_isText hv).symm.trans (if_pos hx))
    subst hkind
    exact hcalm (by decide)
  · obtain ⟨d, u, rfl, hd⟩ := isDigit_of_isPlainNumeral hlong
    obtain ⟨_, text, hmem, ht, heq⟩ := mem_fixedTexts_of_isText hv (family_of_isText hv).symm
    have hpoints : ∀ q ∈ fixedTexts, ∀ text ∈ q.2, text.toList.head? = some '.' →
        q.1 = dot ∨ text.toList.tail.head? = some '.' := by decide +kernel
    rcases hpoints _ hmem text ht (by rw [← heq]; rfl) with rfl | hpoint
    · exact hcalm (by decide)
    · rw [← heq] at hpoint
      obtain ⟨v, rfl⟩ := List.head?_eq_some_iff.mp hpoint
      obtain ⟨rfl, -⟩ := List.cons_prefix_cons.mp hu
      cases hd

/-- An operator and the start of the next text are not spelled like another operator. -/
theorem not_sign_beside {k' : TokenKind} (hw : IsText k' w) (hsign : k'.family = .sign)
    (hcalm : k ∉ k'.clashing) : ¬Family.sign.Covers (w ++ x :: u) := by
  rintro ⟨q, hq, text, ht, hlong⟩
  have hx : family x = .sign := family_chars_fixedTexts q hq text ht x (by simp [← hlong])
  obtain ⟨_, first, hfirst, hfirstText, rfl⟩ := mem_fixedTexts_of_isText hw hsign
  obtain ⟨_, next, hnext, hnextText, heq⟩ :=
    mem_fixedTexts_of_isText hv ((family_of_isText hv).symm.trans hx)
  have hu : u = [] := by
    have hlen := length_fixedTexts q hq text ht
    have hpos := List.length_pos_iff.mpr hw.ne_nil
    rw [← hlong, List.length_append, List.length_cons] at hlen
    exact List.length_eq_zero_iff.mp (by omega)
  subst hu
  exact hcalm (mem_clashing_of_mem_fixedTexts q hq text ht _ hfirst first hfirstText
    (by rw [← hlong, List.dropLast_concat]) _ hnext next hnextText
    (by rw [← hlong, ← heq, List.getLast?_concat]; rfl))

/-- A text is cut where it ends, if its kind does not clash with that of the text after it and it
is no word that goes on into that. -/
theorem longestMatch?_beside {k' : TokenKind} (hterminal : k' ∈ terminals.map (·.1))
    (hkept : k'.isIgnored = false) (hw : IsText k' w) (hcalm : k ∉ k'.clashing)
    (hword : runsOn w (x :: v) = false) :
    longestMatch? (w ++ (x :: v ++ more)) = some (k', w.length) := by
  refine longestMatch?_eq_some_iff.mpr ⟨hterminal, hw, fun k₁ t ht hinit => ?_⟩
  by_contra hlt
  obtain ⟨y, u, rfl, hu⟩ := exists_cons_of_longer hinit (Nat.lt_of_not_le hlt)
  obtain ⟨rfl, hrest⟩ := List.cons_prefix_cons.mp hu
  have hlong := covers_of_isText ht
  rw [family_of_initial hw ht hinit] at hlong
  have hshort := covers_of_isText hw
  have hsolid := solid_of_isIgnored k' hterminal hkept
  cases hfamily : k'.family with
  | digit =>
      rw [hfamily] at hlong
      rw [eq_number_of_isText hw hfamily] at hcalm
      exact not_digit_beside hv hcalm hrest hlong
  | quote =>
      rw [hfamily] at hlong hshort
      cases eq_nil_of_covers_quote hshort hlong
  | letter =>
      rw [hfamily] at hlong hshort
      obtain ⟨c, w, rfl, hc, -⟩ := hshort
      obtain ⟨_, _, heq, -, hparts⟩ := hlong
      cases heq
      have hx := hparts y (by simp)
      simp [runsOn, hc, hx] at hword
  | sign =>
      rw [hfamily] at hlong
      exact not_sign_beside hv hw hfamily hcalm hlong
  | hash | blank =>
      rw [hfamily] at hsolid
      rcases hsolid with h | h <;> cases h

end Beside

/-! ## Goals whose tokens do not clash -/

namespace Goal

/-- The token that a goal is, if it is one. -/
def kind? : Goal → Option TokenKind
  | keep k | drop k => some k
  | _ => none

/-- No token that may come after the goal clashes with it. -/
def calm (contexts : List (List Goal)) (g : Goal) (rest : List Goal) : Bool :=
  g.kind?.all fun k => k.clashing = [] || (openings rest).all fun o =>
    (if o = [] then contexts else [o]).all fun c =>
      (firstToken? c).any fun (k', _) => k' ∉ k.clashing

/-- Goals of which none clashes with what may come after it. -/
def allCalm (contexts : List (List Goal)) : List Goal → Bool
  | [] => true
  | g :: rest => g.calm contexts rest && allCalm contexts rest

end Goal

/-- Goals of which no token clashes with the one that is read after it. -/
inductive Calm : List Goal → Prop
  | nil : Calm []
  | cons {g : Goal} {rest : List Goal}
      (hcalm : ∀ k ∈ g.kind?, ∀ ks, Matches rest ks → ∀ k' ∈ ks.head?, k' ∉ k.clashing)
      (hrest : Calm rest) : Calm (g :: rest)

theorem allCalm_of_mem_productions :
    ∀ g ∈ Goal.nonterminals, ∀ p ∈ g.productions, Goal.allCalm g.follow p := by
  decide +kernel

theorem Calm.append {contexts : List (List Goal)} {rest : List Goal}
    (hfollow : Follows contexts rest) (hrest : Calm rest) :
    ∀ {gs : List Goal}, Goal.allCalm contexts gs → Calm (gs ++ rest)
  | [], _ => hrest
  | g :: gs, h => by
      obtain ⟨hcalm, hgs⟩ := Bool.and_eq_true_iff.mp h
      refine .cons (fun k hk ks hks k' hk' => ?_) (hrest.append hfollow hgs)
      rw [Goal.calm, Option.mem_def.mp hk, Option.all_some] at hcalm
      rcases Bool.or_eq_true_iff.mp hcalm with hnone | hall
      · rw [of_decide_eq_true hnone]
        exact List.not_mem_nil
      · obtain ⟨o, ho, c, hc, more, hmore⟩ := hfollow.exists_context hks
        have hany := List.all_eq_true.mp (List.all_eq_true.mp hall o ho) c hc
        cases hfirst : firstToken? c with
        | none =>
            rw [hfirst] at hany
            cases hany
        | some first =>
            rw [hfirst] at hany
            obtain ⟨ls, rfl, -⟩ := hmore.of_firstToken? hfirst
            cases hk'
            exact of_decide_eq_true hany

theorem Calm.expand {g : Goal} {p rest : List Goal} (h : Calm (g :: rest))
    (hsuited : Suited (g :: rest)) (hp : p ∈ g.productions) : Calm (p ++ rest) := by
  obtain ⟨hg, -⟩ := hsuited.expand hp
  cases h with
  | cons _ hrest =>
    cases hsuited with
    | cons _ _ hfollow _ => exact hrest.append hfollow (allCalm_of_mem_productions g hg p hp)

theorem calm_program : Calm (Goal.program ++ [.drop Goal.finish]) := by
  have hall : Goal.allCalm [[]] (Goal.program ++ [.drop Goal.finish]) := by decide
  have h := Calm.nil.append follows_nil hall
  rwa [List.append_nil] at h

/-! ## Programs -/

/-- No kind clashes with the one before it. -/
def NoClash (ks : List TokenKind) : Prop := ks.IsChain fun k k' => k' ∉ k.clashing

theorem Derives.noClash {gs : List Goal} {fs fs' : List Frame} {ts : List Lexeme}
    (h : Derives gs fs ts fs') : Suited gs → Calm gs → NoClash (kinds ts) := by
  induction h with
  | done => exact fun _ _ => .nil
  | keep t h ih | drop t h ih =>
      rintro (_ | ⟨-, -, -, hsuited⟩) (_ | ⟨hcalm, hrest⟩)
      refine List.isChain_cons.mpr ⟨?_, ih hsuited hrest⟩
      exact hcalm _ rfl _ h.matches
  | enter _ ih | leave _ _ ih =>
      rintro (_ | ⟨-, -, -, hsuited⟩) (_ | ⟨-, hrest⟩)
      exact ih hsuited hrest
  | expand hp _ ih => exact fun hsuited hcalm => ih (hsuited.expand hp).2 (hcalm.expand hsuited hp)

/-- In a program no kind clashes with the one before it. -/
theorem noClash_of_parse {source : String} {tree : Node} (h : parse source = .ok tree) :
    NoClash (kinds (tokens source)) := by
  obtain ⟨_, _, _, _, hd⟩ := derives_of_parse h
  obtain ⟨_, ts, _, hd, hkinds⟩ := matches_append_finish hd
  have hchain := hd.noClash suited_program calm_program
  rw [hkinds] at hchain
  exact hchain.left_of_append

end Tern
