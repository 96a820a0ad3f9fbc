import Mathlib.Data.List.TakeWhile
import Tern.Config
import Tern.Proofs.Layers

/-!
# Values of environment variables

A variable's value is read without regard to the case of Latin letters and to blanks around it. So
values that are spelled alike (`Text.Respells`) make the same word, and whether an environment is
accepted and which configuration it gives depends on the words and the level alone; what else is in
a value shows in complaints only (`toOption_ofEnviron_congr`). A value of blanks makes no word, like
a variable that is not set, and then not even the complaints differ (`ofEnviron_congr`).

The level of the log takes its default before the blanks go. So of all values of blanks only the
empty one counts as missing, and any other is no level (`levelIn_blank`).
-/

namespace Tern

/-! ## Spelling -/

namespace Text

/-- Blanks alone. -/
def AllBlank (cs : List Char) : Prop := ∀ c ∈ cs, isBlank c

instance (cs : List Char) : Decidable (AllBlank cs) :=
  decidable_of_iff (cs.all isBlank) List.all_eq_true

/-- The second text is the first with blanks around it and Latin letters in another case. -/
def Respells (text other : String) : Prop :=
  ∃ front cs back, other.toList = front ++ cs ++ back ∧ AllBlank front ∧ AllBlank back ∧
    cs.map Char.toLower = text.toList.map Char.toLower

/-- Latin letters are looked at one by one, and all else stays as it is. -/
theorem eq_toLower_of_latin {α : Type} {f : Char → α}
    (h : ∀ n < 128, f (Char.ofNat n).toLower = f (Char.ofNat n)) (c : Char) :
    f c.toLower = f c := by
  by_cases hc : c.toNat < 128
  · simpa using h c.toNat hc
  · have hlarge : ¬(c.val ≥ 'A'.val ∧ c.val ≤ 'Z'.val) := fun hle =>
      hc (Nat.lt_of_le_of_lt (UInt32.le_iff_toNat_le.mp hle.2) (by decide))
    exact congrArg f (dif_neg hlarge)

theorem isBlank_toLower : ∀ c : Char, isBlank c.toLower = isBlank c :=
  eq_toLower_of_latin (by decide)

theorem upperChar_toLower : ∀ c : Char, upperChar c.toLower = upperChar c :=
  eq_toLower_of_latin (by decide)

theorem lowerChar_toLower : ∀ c : Char, lowerChar c.toLower = lowerChar c :=
  eq_toLower_of_latin (by decide)

/-! ### Blanks at the ends -/

theorem trimStart_append_of_allBlank {front : List Char} (h : AllBlank front) (cs : List Char) :
    trimStart (front ++ cs) = trimStart cs := List.dropWhile_append_of_pos h

theorem trimStart_of_allBlank {cs : List Char} (h : AllBlank cs) : trimStart cs = [] :=
  List.dropWhile_eq_nil_iff.mpr h

theorem trimChars_of_allBlank {cs : List Char} (h : AllBlank cs) : trimChars cs = [] := by
  rw [trimChars, trimStart_of_allBlank h]
  rfl

theorem trimStart_append (cs : List Char) {back : List Char} (h : AllBlank back) :
    trimStart (cs ++ back) = if trimStart cs = [] then [] else trimStart cs ++ back := by
  have hback : back.dropWhile isBlank = [] := trimStart_of_allBlank h
  rw [trimStart, List.dropWhile_append, hback]
  exact if_congr List.isEmpty_iff rfl rfl

theorem trimChars_surround {front back : List Char} (hfront : AllBlank front)
    (hback : AllBlank back) (cs : List Char) : trimChars (front ++ cs ++ back) = trimChars cs := by
  rw [trimChars, List.append_assoc, trimStart_append_of_allBlank hfront,
    trimStart_append cs hback, trimChars]
  split
  · next hnil => rw [hnil]
  · have hreverse : AllBlank back.reverse := fun c hc => hback c (List.mem_reverse.mp hc)
    rw [List.reverse_append, trimStart_append_of_allBlank hreverse]

theorem trimStart_map_toLower (cs : List Char) :
    trimStart (cs.map Char.toLower) = (trimStart cs).map Char.toLower := by
  rw [trimStart, List.dropWhile_map, show isBlank ∘ Char.toLower = isBlank from
    funext isBlank_toLower, trimStart]

theorem trimChars_map_toLower (cs : List Char) :
    trimChars (cs.map Char.toLower) = (trimChars cs).map Char.toLower := by
  simp only [trimChars, trimStart_map_toLower, ← List.map_reverse]

namespace Respells

variable {text other : String} (h : Respells text other)

include h

/-- Without the blanks nothing but the case is left to differ in. -/
theorem trim : (Text.trim other).toList.map Char.toLower =
    (Text.trim text).toList.map Char.toLower := by
  obtain ⟨front, cs, back, hother, hfront, hback, hcase⟩ := h
  simp only [Text.trim, String.toList_ofList, ← trimChars_map_toLower]
  rw [hother, List.map_append, List.map_append, hcase]
  have hmap {bs : List Char} (hbs : AllBlank bs) : AllBlank (bs.map Char.toLower) :=
    List.forall_mem_map.mpr fun c hc => by rw [isBlank_toLower]; exact hbs c hc
  exact trimChars_surround (hmap hfront) (hmap hback) _

theorem upper : Text.upper (Text.trim other) = Text.upper (Text.trim text) := by
  have hmap (cs : List Char) : (cs.map Char.toLower).flatMap upperChar = cs.flatMap upperChar := by
    simp only [List.flatMap_map, upperChar_toLower]
  rw [Text.upper, ← hmap, h.trim, hmap, Text.upper]

theorem lower : Text.lower (Text.trim other) = Text.lower (Text.trim text) := by
  have hmap (cs : List Char) : (cs.map Char.toLower).flatMap lowerChar = cs.flatMap lowerChar := by
    simp only [List.flatMap_map, lowerChar_toLower]
  rw [Text.lower, ← hmap, h.trim, hmap, Text.lower]

/-- Nothing is taken away. -/
theorem eq_empty (hempty : other = "") : text = "" := by
  obtain ⟨front, cs, back, hother, -, -, hcase⟩ := h
  rw [hempty] at hother
  obtain ⟨hfront, -⟩ := List.append_eq_nil_iff.mp hother.symm
  rw [(List.append_eq_nil_iff.mp hfront).2] at hcase
  exact String.toList_eq_nil_iff.mp (List.map_eq_nil_iff.mp hcase.symm)

theorem trim_eq_empty : Text.trim other = "" ↔ Text.trim text = "" := by
  rw [← String.toList_eq_nil_iff, ← String.toList_eq_nil_iff, ← List.map_eq_nil_iff, h.trim,
    List.map_eq_nil_iff]

end Respells

end Text

/-! ## Variables -/

namespace Environ

open Text

/-- Without a variable. -/
def unset (env : Environ) (var : String) : Environ := env.filter (·.1 != var)

/-- With a value for a variable. -/
def set (env : Environ) (var value : String) : Environ := (var, value) :: env.unset var

theorem lookup_unset (env : Environ) (var other : String) :
    (env.unset var).lookup other = if other = var then none else env.lookup other := by
  rw [unset, Bindings.lookup_filter_key (· != var)]
  by_cases h : other = var <;> simp [h]

theorem lookup_set (env : Environ) (var value other : String) :
    (env.set var value).lookup other = if other = var then some value else env.lookup other := by
  by_cases h : other = var
  · rw [h, set, List.lookup_cons_self, if_pos rfl]
  · rw [set, List.lookup_cons, beq_eq_false_iff_ne.mpr h, if_neg h]
    exact (env.lookup_unset var other).trans (if_neg h)

/-- The word in a value. -/
def wordIn (value : String) : Option String :=
  if Text.trim value = "" then none else some (Text.lower (Text.trim value))

/-- What is read of a variable, but for complaints about it. -/
def word (env : Environ) (var : String) : Option String := (env.word? var).map (·.2)

theorem word_eq (env : Environ) (var : String) :
    env.word var = (env.lookup var).bind wordIn := by
  unfold word word?
  cases env.lookup var with
  | none => rfl
  | some value => exact apply_ite (Option.map Prod.snd) ..

/-- The level that a value names. -/
def levelIn (value : String) : Except ConfigError String :=
  let level := Text.upper (Text.trim (if value = "" then "WARNING" else value))
  if (logLevels.lookup level).isSome then .ok level else .error (.unknownLevel level)

theorem level_eq (env : Environ) :
    env.level = levelIn ((env.lookup "TERN_LOG_LEVEL").getD "") := rfl

/-! ## What a configuration depends on -/

section Congr

variable {env env' : Environ}

theorem boolean_congr {var : String} (h : env'.word? var = env.word? var) (default : Bool) :
    env'.boolean var default = env.boolean var default := by
  rw [boolean, h, boolean]

theorem choice_congr {α : Type} {var : String} (h : env'.word? var = env.word? var)
    (choices : List α) (nameOf : α → String) (default : α) :
    env'.choice var choices nameOf default = env.choice var choices nameOf default := by
  rw [choice, h, choice]

theorem toOption_boolean_congr {var : String} (h : env'.word var = env.word var) (default : Bool) :
    (env'.boolean var default).toOption = (env.boolean var default).toOption := by
  have hboolean (e : Environ) : (e.boolean var default).toOption =
      (e.word var).elim (some default) fun word =>
        if word ∈ trueWords then some true else if word ∈ falseWords then some false else none := by
    unfold boolean word
    rcases e.word? var with _ | ⟨raw, word⟩
    · rfl
    · dsimp only [Option.map_some, Option.elim_some]
      split
      · rfl
      · split <;> rfl
  rw [hboolean, hboolean, h]

theorem toOption_choice_congr {α : Type} {var : String} (h : env'.word var = env.word var)
    (choices : List α) (nameOf : α → String) (default : α) :
    (env'.choice var choices nameOf default).toOption =
      (env.choice var choices nameOf default).toOption := by
  have hchoice (e : Environ) : (e.choice var choices nameOf default).toOption =
      (e.word var).elim (some default) fun word => choices.find? (nameOf · == word) := by
    unfold choice word
    rcases e.word? var with _ | ⟨raw, word⟩
    · rfl
    · dsimp only [Option.map_some, Option.elim_some]
      cases choices.find? (nameOf · == word) <;> rfl
  rw [hchoice, hchoice, h]

/-- Environments with the same values that count, and the same level, are read alike, also where
they are complained about. -/
theorem ofEnviron_congr (hlevel : env'.level = env.level)
    (h : ∀ var, env'.word? var = env.word? var) :
    Config.ofEnviron env' = Config.ofEnviron env := by
  simp only [Config.ofEnviron, hlevel, boolean_congr (h _), choice_congr (h _)]

theorem toOption_bind {ε α β : Type} (x : Except ε α) (f : α → Except ε β) :
    (x >>= f).toOption = x.toOption.bind fun a => (f a).toOption := by
  cases x <;> rfl

/-- Environments with the same words and the same level are accepted alike and give the same
configuration. -/
theorem toOption_ofEnviron_congr (hlevel : env'.level.toOption = env.level.toOption)
    (h : ∀ var, env'.word var = env.word var) :
    (Config.ofEnviron env').toOption = (Config.ofEnviron env).toOption := by
  simp only [Config.ofEnviron, toOption_bind, hlevel, toOption_boolean_congr (h _),
    toOption_choice_congr (h _)]

end Congr

/-! ## Blank values and other spellings -/

section Values

variable (env : Environ) {var value : String}

theorem word?_set_blank (h : AllBlank value.toList) (other : String) :
    (env.set var value).word? other = (env.unset var).word? other := by
  have htrim : Text.trim value = "" := congrArg String.ofList (trimChars_of_allBlank h)
  rw [word?, word?, lookup_set, lookup_unset]
  by_cases hother : other = var
  · rw [if_pos hother, if_pos hother]
    exact if_pos htrim
  · rw [if_neg hother, if_neg hother]

/-- Of the values of blanks the empty one names the default, and all others no level. -/
theorem levelIn_blank (h : AllBlank value.toList) :
    levelIn value = if value = "" then .ok "WARNING" else .error (.unknownLevel "") := by
  unfold levelIn
  split
  · rfl
  · have htrim : Text.trim value = "" := congrArg String.ofList (trimChars_of_allBlank h)
    rw [htrim]
    rfl

theorem level_set_blank (hvar : var = "TERN_LOG_LEVEL" → value = "") :
    (env.set var value).level = (env.unset var).level := by
  rw [level_eq, level_eq, lookup_set, lookup_unset]
  split
  · next hlevel => rw [hvar hlevel.symm]; rfl
  · rfl

theorem wordIn_respelled {other : String} (h : Text.Respells value other) :
    wordIn other = wordIn value := by
  rw [wordIn, wordIn, h.lower, if_congr h.trim_eq_empty rfl rfl]

theorem word_set_respelled {other : String} (h : Text.Respells value other) (x : String) :
    (env.set var other).word x = (env.set var value).word x := by
  rw [word_eq, word_eq, lookup_set, lookup_set]
  split
  · exact wordIn_respelled h
  · rfl

theorem levelIn_respelled {other : String} (h : Text.Respells value other)
    (hempty : value = "" → other = "") : levelIn other = levelIn value := by
  by_cases hvalue : value = ""
  · rw [hvalue, hempty hvalue]
  · by_cases hother : other = ""
    · exact absurd (h.eq_empty hother) hvalue
    · rw [levelIn, levelIn, if_neg hvalue, if_neg hother, h.upper]

theorem level_set_respelled {other : String} (h : Text.Respells value other)
    (hempty : var = "TERN_LOG_LEVEL" → value = "" → other = "") :
    (env.set var other).level = (env.set var value).level := by
  rw [level_eq, level_eq, lookup_set, lookup_set]
  split
  · next hvar => exact levelIn_respelled h (hempty hvar.symm)
  · rfl

end Values

end Environ

/-! ## Configurations -/

open Environ Text in
/-- For a variable, whichever it is, a value of blanks is the same as none, and another spelling of
a value is accepted alike and gives the same configuration; but a level of blanks is never accepted
unless it is empty. -/
theorem ofEnviron_respelled (env : Environ) (var value : String) :
    (AllBlank value.toList → (var = "TERN_LOG_LEVEL" → value = "") →
      Config.ofEnviron (env.set var value) = Config.ofEnviron (env.unset var)) ∧
    (∀ other, Text.Respells value other → (var = "TERN_LOG_LEVEL" → value = "" → other = "") →
      (Config.ofEnviron (env.set var other)).toOption =
        (Config.ofEnviron (env.set var value)).toOption) ∧
    (AllBlank value.toList → value ≠ "" →
      Config.ofEnviron (env.set "TERN_LOG_LEVEL" value) = .error (.unknownLevel "")) := by
  refine ⟨fun hblank hlevel => ?_, fun other hother hlevel => ?_, fun hblank hne => ?_⟩
  · exact ofEnviron_congr (level_set_blank env hlevel) (word?_set_blank env hblank)
  · exact toOption_ofEnviron_congr
      (congrArg Except.toOption (level_set_respelled env hother hlevel))
      (word_set_respelled env hother)
  · have hlevel : (env.set "TERN_LOG_LEVEL" value).level = .error (.unknownLevel "") := by
      rw [level_eq, lookup_set, if_pos rfl]
      exact (levelIn_blank hblank).trans (if_neg hne)
    rw [Config.ofEnviron, hlevel]
    rfl

/-- A mode in capitals between blanks, and modes and levels of blanks alone. -/
theorem ofEnviron_respelled_first :
    Text.Respells "First" "  fIRST\t" ∧
    (Config.ofEnviron (Environ.set [("TERN_STRICT_WHILE", "1")] "TERN_MATCH_MODE"
      "  fIRST\t")).toOption = some { matchMode := .first, strictWhile := true } ∧
    Config.ofEnviron (Environ.set [("TERN_MATCH_MODE", "first")] "TERN_MATCH_MODE" " ") = .ok {} ∧
    Config.ofEnviron (Environ.set [] "TERN_LOG_LEVEL" " ") = .error (.unknownLevel "") := by
  have hother : Text.Respells "First" "  fIRST\t" :=
    ⟨"  ".toList, "fIRST".toList, ['\t'], by decide, by decide, by decide, by decide⟩
  refine ⟨hother, ?_, ?_, ?_⟩
  · exact ((ofEnviron_respelled [("TERN_STRICT_WHILE", "1")] "TERN_MATCH_MODE" "First").2.1 _
      hother (by decide)).trans (by rfl)
  · exact ((ofEnviron_respelled [("TERN_MATCH_MODE", "first")] "TERN_MATCH_MODE" " ").1
      (by decide) (by decide)).trans (by rfl)
  · exact (ofEnviron_respelled [] "" " ").2.2 (by decide) (by decide)

/-- A level of blanks is no level, while without a level the default is taken. -/
theorem ofEnviron_blankLevel :
    Config.ofEnviron [("TERN_LOG_LEVEL", "  ")] = .error (.unknownLevel "") ∧
    Config.ofEnviron (Environ.unset [("TERN_LOG_LEVEL", "  ")] "TERN_LOG_LEVEL") = .ok {} := by
  constructor <;> rfl

end Tern
