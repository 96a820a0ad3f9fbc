import Mathlib.Data.List.Lex
import Tern.Eval.Calls
import Tern.Program
import Tern.Proofs.Echoes

/-!
# What has no printed text

Structs, instances, enums and their variants have no printed text (`Value.Textless`), and neither
has a list with one of them in it, however deep in lists within lists. Where a value stands is a
path of indices (`Value.at?`), and the order of paths is that of reading: from left to right, and
into a list before on to what stands after it. Printing goes in this order and stops at the first
value without a text, so that this is the one which the error is about (`display_first`).

An operand of a failed operation is shown all the same. Its printed text is all or nothing: with
one value in it that has none, the whole operand is echoed. Only when something in it is too long to
be written is there no echo either.
-/

namespace Tern

namespace Value

/-! ## Values in lists -/

/-- The values that have no printed text themselves. -/
inductive Textless : Value → Prop
  | struct (s : StructRef) : Textless (.struct s)
  | object (name : String) (fields : List (String × Value)) : Textless (.object name fields)
  | enum (variants : List String) : Textless (.enum variants)
  | variant (owner name : String) : Textless (.variant owner name)

/-- What stands in a value at a path: the value itself, or what stands in an item of a list. -/
def at? : Value → List Nat → Option Value
  | v, [] => some v
  | .list items, i :: path =>
    match items[i]? with
    | some v => v.at? path
    | none => none
  | _, _ :: _ => none

/-- A value without a text stands in another, which has no text then either. -/
def Bars (w v : Value) : Prop := ∃ path, v.at? path = some w ∧ w.Textless

/-- The value without a text that is read first in another, and its place. -/
structure First (v : Value) (path : List Nat) (w : Value) : Prop where
  found : v.at? path = some w
  textless : w.Textless
  least : ∀ {path' w'}, v.at? path' = some w' → w'.Textless →
    path' = path ∨ List.Lex (· < ·) path path'

variable {v w : Value} {rest : List Value} {path : List Nat}

/-- There is one value that is read first. -/
theorem First.unique {path' : List Nat} {w' : Value} (h : v.First path w)
    (h' : v.First path' w') : path = path' ∧ w = w' := by
  obtain rfl : path = path' := by
    obtain heq | hlt := h.least h'.found h'.textless
    · exact heq.symm
    · obtain heq | hgt := h'.least h.found h.textless
      · exact heq
      · exact (Std.Asymm.asymm _ _ hlt hgt).elim
  exact ⟨rfl, Option.some.inj (h.found.symm.trans h'.found)⟩

/-- A value without a text stands in a list where it stands in the first item, or in the rest. -/
theorem bars_cons : Bars w (list (v :: rest)) ↔ Bars w v ∨ Bars w (list rest) := by
  constructor
  · rintro ⟨path, hfound, hw⟩
    match path with
    | [] =>
      cases hfound
      cases hw
    | 0 :: path => exact .inl ⟨path, hfound, hw⟩
    | (i + 1) :: path => exact .inr ⟨i :: path, hfound, hw⟩
  · rintro (⟨path, hfound, hw⟩ | ⟨path, hfound, hw⟩)
    · exact ⟨0 :: path, hfound, hw⟩
    · cases path with
      | nil =>
        cases hfound
        cases hw
      | cons i path => exact ⟨(i + 1) :: path, hfound, hw⟩

/-- What is read first in the first item is read first in the list. -/
theorem First.head (h : v.First path w) (rest : List Value) :
    (list (v :: rest)).First (0 :: path) w where
  found := h.found
  textless := h.textless
  least {path' w'} hfound hw := by
    match path' with
    | [] =>
      cases hfound
      cases hw
    | 0 :: path' => exact (h.least hfound hw).imp (congrArg (0 :: ·)) .cons
    | (i + 1) :: path' => exact .inr (.rel i.succ_pos)

/-- What is read first in the rest of a list is read first in the list if the first item has
nothing without a text in it. -/
theorem First.tail {i : Nat} (h : (list rest).First (i :: path) w) (hv : ∀ u, ¬Bars u v) :
    (list (v :: rest)).First ((i + 1) :: path) w where
  found := h.found
  textless := h.textless
  least {path' w'} hfound hw := by
    match path' with
    | [] =>
      cases hfound
      cases hw
    | 0 :: path' => exact (hv w' ⟨path', hfound, hw⟩).elim
    | (j + 1) :: path' =>
      have hrest : (list rest).at? (j :: path') = some w' := hfound
      obtain heq | hlt := h.least hrest hw
      · cases heq
        exact .inl rfl
      · cases hlt with
        | cons hlt => exact .inr (.cons hlt)
        | rel hij => exact .inr (.rel (Nat.succ_lt_succ hij))

theorem Textless.first (h : v.Textless) : v.First [] v where
  found := rfl
  textless := h
  least {path' w'} _ _ := by
    cases path' with
    | nil => exact .inl rfl
    | cons i path' => exact .inr .nil

/-! ## Printing -/

/-- A printing of a value comes to its end if nothing without a text stands in the value; else it
stops at the first. -/
def Settles {α : Type} (v : Value) : Except ValueType α → Prop
  | .ok _ => ∀ w, ¬Bars w v
  | .error type => ∃ path w, v.First path w ∧ w.type = type

theorem Settles.map {α β : Type} {r : Except ValueType α} (h : v.Settles r) (f : α → β) :
    v.Settles (r.map f) := by
  cases r <;> exact h

/-- A value that is no list has at most itself in it. -/
theorem settles_ok {α : Type} (hlist : ∀ items, v ≠ .list items) (htext : ¬v.Textless) (a : α) :
    v.Settles (.ok a) := by
  rintro w ⟨path, hfound, hw⟩
  cases path with
  | nil =>
    cases hfound
    exact htext hw
  | cons i path =>
    cases v with
    | list items => exact hlist items rfl
    | _ => cases hfound

theorem settles_textless {α : Type} (h : v.Textless) :
    v.Settles (.error v.type : Except ValueType α) := ⟨[], v, h.first, rfl⟩

mutual

theorem settles_display : ∀ v : Value, v.Settles v.display
  | .nothing | .number _ | .string _ | .bool _ | .function _ | .range _ _ =>
    settles_ok (by rintro _ ⟨⟩) (by rintro ⟨⟩) _
  | .list items => by
    rw [display]
    exact (settles_displayItems items).map _
  | .struct s => settles_textless (.struct s)
  | .object name fields => settles_textless (.object name fields)
  | .enum variants => settles_textless (.enum variants)
  | .variant owner name => settles_textless (.variant owner name)

theorem settles_displayItems : ∀ items : List Value, (list items).Settles (displayItems items)
  | [] => by
    rintro w ⟨path, hfound, hw⟩
    cases path with
    | nil =>
      cases hfound
      cases hw
    | cons i path => cases hfound
  | v :: rest => by
    have hv := settles_display v
    have hrest := settles_displayItems rest
    rw [displayItems]
    cases hd : v.display with
    | error type =>
      rw [hd] at hv
      obtain ⟨path, w, hfirst, htype⟩ := hv
      exact ⟨0 :: path, w, hfirst.head rest, htype⟩
    | ok text =>
      rw [hd] at hv
      refine Settles.map ?_ _
      cases hr : displayItems rest with
      | ok texts =>
        rw [hr] at hrest
        exact fun w hw => (bars_cons.mp hw).elim (hv w) (hrest w)
      | error type =>
        rw [hr] at hrest
        obtain ⟨path, w, hfirst, htype⟩ := hrest
        cases path with
        | nil =>
          cases hfirst.found
          cases hfirst.textless
        | cons i path => exact ⟨(i + 1) :: path, w, hfirst.tail hv, htype⟩

end

theorem exists_first_of_display {type : ValueType} (h : v.display = .error type) :
    ∃ path w, v.First path w ∧ w.type = type := by
  have hsettles := v.settles_display
  rwa [h] at hsettles

theorem bars_of_display {type : ValueType} (h : v.display = .error type) : ∃ w, Bars w v := by
  obtain ⟨path, w, hfirst, -⟩ := exists_first_of_display h
  exact ⟨w, path, hfirst.found, hfirst.textless⟩

theorem exists_type_of_bars (hw : ∃ w, Bars w v) : ∃ type, v.display = .error type := by
  cases h : v.display with
  | ok text =>
    have hsettles := v.settles_display
    rw [h] at hsettles
    obtain ⟨w, hw⟩ := hw
    exact (hsettles w hw).elim
  | error type => exact ⟨type, rfl⟩

theorem First.display (h : v.First path w) : v.display = .error w.type := by
  obtain ⟨type, htype⟩ := exists_type_of_bars ⟨w, path, h.found, h.textless⟩
  obtain ⟨path', w', h', rfl⟩ := exists_first_of_display htype
  rw [htype, (h.unique h').2]

/-! ## Operands -/

theorem operandText_of_display {text : String} (h : v.display = .ok text) :
    v.operandText = .ok text := by
  rw [operandText, h]

theorem operandText_of_bars (hw : ∃ w, Bars w v) : v.operandText = v.echo := by
  obtain ⟨type, h⟩ := exists_type_of_bars hw
  rw [operandText, h]

/-- Only the echo can fail, and only what has no printed text is echoed. -/
theorem operandText_eq_error_iff :
    (∃ i, v.operandText = .error i) ↔ (∃ w, Bars w v) ∧ ∃ i, v.Overlong i := by
  constructor
  · rintro ⟨i, hi⟩
    refine ⟨?_, i, overlong_of_operandText hi⟩
    cases h : v.display with
    | error type => exact bars_of_display h
    | ok text => cases (operandText_of_display h).symm.trans hi
  · rintro ⟨hw, hlong⟩
    rw [operandText_of_bars hw]
    exact v.echo_eq_error_iff.mpr hlong

end Value

open Value

/-- Printing a value fails exactly if a struct, an instance, an enum or a variant stands in it, or
is it, through lists alone; the error is then about the type of the one that is read first. An
operand is shown by its printed text if it has one, else by the echo of all of it. That fails
exactly if there is no printed text and the value has a range in it with an end that is too long;
what it fails at is such an end. -/
theorem display_first (v : Value) :
    ((∃ type, v.display = .error type) ↔ ∃ w, Bars w v) ∧
    (∀ type, v.display = .error type ↔ ∃ path w, v.First path w ∧ w.type = type) ∧
    (∀ path w, v.First path w → ∀ b s,
      Eval.runBuiltin b [v] s = (.error (.undisplayable w.type), s) ∧
      (Failure.undisplayable w.type).message =
        "display is not implemented for " ++ w.type.text) ∧
    (∀ text, v.display = .ok text → v.operandText = .ok text) ∧
    ((∃ w, Bars w v) → v.operandText = v.echo) ∧
    ((∃ i, v.operandText = .error i) ↔ (∃ w, Bars w v) ∧ ∃ i, v.Overlong i) ∧
    ∀ i, v.operandText = .error i → v.Overlong i := by
  refine ⟨⟨fun ⟨type, h⟩ => bars_of_display h, exists_type_of_bars⟩,
    fun type => ⟨exists_first_of_display, ?_⟩, fun path w h b s => ⟨?_, rfl⟩,
    fun text => operandText_of_display, operandText_of_bars, operandText_eq_error_iff,
    fun i => overlong_of_operandText⟩
  · rintro ⟨path, w, h, rfl⟩
    exact h.display
  · simp only [Eval.runBuiltin, displayItems, h.display, Eval.fail]

/-- An instance that stands two lists deep, before a struct. -/
def objectBeforeStruct : Value :=
  .list [.bool true, .list [.nothing, .list [.object "P" []]], .struct ⟨0, "Q", ["x"]⟩]

/-- The error is about the instance. As an operand all of the list is echoed. -/
theorem display_objectBeforeStruct :
    (∃ path w, objectBeforeStruct.First path w ∧ w.type = ⟨.object, some "P"⟩) ∧
    objectBeforeStruct.operandText =
      .ok "[true, [None, [P \x7b\x7d]], <struct Q \x7b x \x7d>]" := by
  obtain ⟨-, herror, -, -, hecho, -⟩ := display_first objectBeforeStruct
  exact ⟨(herror _).mp rfl, (hecho ⟨_, [1, 1, 0], rfl, .object ..⟩).trans (by rfl)⟩

/-- A range that starts too far out, before a struct. -/
def overlongBeforeStruct : Value :=
  .list [.range Number.pastWritten 0, .struct ⟨0, "Q", ["x"]⟩]

/-- The list has neither a printed text nor an echo. -/
theorem operandText_overlongBeforeStruct :
    overlongBeforeStruct.display = .error ⟨.struct, some "Q"⟩ ∧
    overlongBeforeStruct.operandText = .error Number.pastWritten := by
  have hlong := Number.inFull_of_le Number.le_natAbs_pastWritten
  have hdisplay : overlongBeforeStruct.display = .error ⟨.struct, some "Q"⟩ := rfl
  refine ⟨hdisplay, ?_⟩
  rw [operandText, hdisplay]
  simp only [overlongBeforeStruct, echo, echoItems, hlong, Except.map]

end Tern
