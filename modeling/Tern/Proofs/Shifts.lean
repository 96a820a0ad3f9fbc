import Mathlib.Logic.Basic
import Tern.Operators
import Tern.Store

/-!
# Shifted numbers

Layers, struct definitions and registries are known by their numbers alone. Behind others they have
greater numbers, and then the frames of functions and the structs in values are *shifted*
(`Value.shift`). Of the numbers nothing shows: a shifted value has the type and the texts of the
value, matches what it matches, and operators make the same of it.
-/

namespace Tern

/-! ## Shifting values -/

/-- How many layers, structs and registries there are already. -/
structure Offset where
  layers : Nat
  structs : Nat
  registries : Nat

variable (o : Offset)

/-- The function in a frame that has been shifted. -/
def Function.shift (f : Function) : Function := { f with frame := f.frame.map (· + o.layers) }

def StructRef.shift (r : StructRef) : StructRef := { r with id := r.id + o.structs }

@[simp] theorem Function.name_shift (f : Function) : (f.shift o).name = f.name := rfl

@[simp] theorem Function.params_shift (f : Function) : (f.shift o).params = f.params := rfl

@[simp] theorem StructRef.name_shift (r : StructRef) : (r.shift o).name = r.name := rfl

mutual

/-- A value with the frames and structs in it shifted. -/
def Value.shift : Value → Value
  | .list items => .list (Value.shiftItems items)
  | .function f => .function (f.shift o)
  | .struct r => .struct (r.shift o)
  | .object name fields => .object name (Value.shiftFields fields)
  | v => v

def Value.shiftItems : List Value → List Value
  | [] => []
  | v :: rest => v.shift :: Value.shiftItems rest

def Value.shiftFields : List (String × Value) → List (String × Value)
  | [] => []
  | (x, v) :: rest => (x, v.shift) :: Value.shiftFields rest

end

def Layer.shift (l : Layer) : Layer where
  parent := l.parent.map (· + o.layers)
  bindings := l.bindings.map (Prod.map id (Value.shift o))
  registry := l.registry + o.registries
  config := l.config

namespace Value

theorem shiftItems_eq_map (items : List Value) : shiftItems o items = items.map (shift o) := by
  induction items with
  | nil => rfl
  | cons v rest ih => rw [shiftItems, ih, List.map_cons]

theorem shiftFields_eq_map (fields : List (String × Value)) :
    shiftFields o fields = fields.map (Prod.map id (shift o)) := by
  induction fields with
  | nil => rfl
  | cons p rest ih =>
    obtain ⟨x, v⟩ := p
    rw [shiftFields, ih, List.map_cons]
    rfl

theorem shift_list (items : List Value) :
    (list items).shift o = list (items.map (shift o)) := by
  rw [shift, shiftItems_eq_map]

theorem shift_object (name : String) (fields : List (String × Value)) :
    (object name fields).shift o = object name (fields.map (Prod.map id (shift o))) := by
  rw [shift, shiftFields_eq_map]

/-! ### What does not show -/

theorem type_shift (v : Value) : (v.shift o).type = v.type := by
  cases v <;> rfl

mutual

theorem display_shift : ∀ v : Value, (v.shift o).display = v.display
  | .list items => by rw [shift, display, display, displayItems_shift items]
  | .nothing | .number _ | .string _ | .bool _ | .range _ _ | .function _ => rfl
  | .struct _ | .object _ _ | .enum _ | .variant _ _ => rfl

theorem displayItems_shift : ∀ items : List Value,
    displayItems (shiftItems o items) = displayItems items
  | [] => rfl
  | v :: rest => by
    rw [shiftItems, displayItems, displayItems, display_shift v, displayItems_shift rest]

end

mutual

theorem echo_shift : ∀ v : Value, (v.shift o).echo = v.echo
  | .list items => by rw [shift, echo, echo, echoItems_shift items]
  | .object _ [] => rfl
  | .object name ((x, v) :: rest) =>
    congrArg (Except.map fun texts => name ++ " \x7b " ++ ", ".intercalate texts ++ " \x7d")
      (echoFields_shift ((x, v) :: rest))
  | .nothing | .number _ | .string _ | .bool _ | .range _ _ | .function _ => rfl
  | .struct _ | .enum _ | .variant _ _ => rfl

theorem echoItems_shift : ∀ items : List Value, echoItems (shiftItems o items) = echoItems items
  | [] => rfl
  | v :: rest => by
    rw [shiftItems, echoItems, echoItems, echo_shift v, echoItems_shift rest]

theorem echoFields_shift : ∀ fields : List (String × Value),
    echoFields (shiftFields o fields) = echoFields fields
  | [] => rfl
  | (x, v) :: rest => by
    rw [shiftFields, echoFields, echoFields, echo_shift v, echoFields_shift rest]

end

theorem operandText_shift (v : Value) : (v.shift o).operandText = v.operandText := by
  rw [operandText, operandText, display_shift, echo_shift]

theorem matching_shift (v w : Value) : (v.shift o).matching (w.shift o) = v.matching w := by
  cases v <;> cases w <;> rfl

/-! ### Values that do not change -/

/-- Values that stand for nothing in a store and have nothing in them. -/
inductive Inert : Value → Prop
  | nothing : Inert .nothing
  | number (x : Float) : Inert (.number x)
  | string (s : String) : Inert (.string s)
  | bool (b : Bool) : Inert (.bool b)
  | range (start stop : Int) : Inert (.range start stop)

theorem Inert.shift {v : Value} (h : v.Inert) : v.shift o = v := by
  cases h <;> rfl

end Value

theorem Operator.value?_shift (op : Operator) (v w : Value) :
    op.value? (v.shift o) (w.shift o) = op.value? v w := by
  cases op <;> cases v <;> first | rfl | (cases w <;> rfl)

theorem Operator.inert_of_value? {op : Operator} {v w u : Value} (h : op.value? v w = some u) :
    u.Inert := by
  unfold Operator.value? at h
  split at h
  · cases h
    exact .number _
  · obtain ⟨b, -, rfl⟩ := Option.map_eq_some_iff.mp h
    exact .bool _
  · obtain ⟨b, -, rfl⟩ := Option.map_eq_some_iff.mp h
    exact .bool _
  · cases h
    exact .bool _
  · cases h
    exact .bool _
  · cases h
    exact .bool _
  · cases h

/-- Operators read no numbers of layers or structs. -/
theorem applyOperator_shift (op : String) (v w : Value) :
    applyOperator op (v.shift o) (w.shift o) = applyOperator op v w := by
  unfold applyOperator Operator.apply Operator.refusal
  simp only [Operator.value?_shift, Value.operandText_shift]

theorem inert_of_applyOperator {op : String} {v w u : Value} (h : applyOperator op v w = .ok u) :
    u.Inert := by
  unfold applyOperator at h
  split at h
  · unfold Operator.apply at h
    split at h
    · next hvalue =>
      cases h
      exact Operator.inert_of_value? hvalue
    · cases h
  · cases h

/-! ### Bindings -/

namespace Bindings

variable {α β : Type} (g : α → β)

theorem get?_map (b : Bindings α) (name : String) :
    get? (b.map (Prod.map id g)) name = (b.get? name).map g := by
  induction b with
  | nil => rfl
  | cons p rest ih =>
    obtain ⟨x, v⟩ := p
    show get? ((x, g v) :: rest.map (Prod.map id g)) name = _
    rw [get?_cons, get?_cons, ih, apply_ite (Option.map g)]
    rfl

theorem holds_map (b : Bindings α) (name : String) :
    holds (b.map (Prod.map id g)) name = b.holds name := by
  rw [holds, holds, get?_map, Option.isSome_map]

theorem put_map (b : Bindings α) (name : String) (v : α) :
    put (b.map (Prod.map id g)) name (g v) = (b.put name v).map (Prod.map id g) := by
  induction b with
  | nil => rfl
  | cons p rest ih =>
    obtain ⟨x, w⟩ := p
    show put ((x, g w) :: rest.map (Prod.map id g)) name (g v) = _
    unfold put
    rw [ih]
    split <;> rfl

end Bindings

end Tern
