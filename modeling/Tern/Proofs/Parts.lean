import Tern.Proofs.Layers

/-!
# What is inside values and stores

A list and an instance have values inside them, and a store has the values that its layers bind.
`Value.All` and `Store.All` say that a property holds of everything inside. A store has nothing
inside after an operation that was not there before or in the value that has been bound
(`Store.All.bind`), so what holds of all values that are made holds of all that are found.
-/

namespace Tern

namespace Value

/-- A value is part of another: the value itself, or part of an item or of a slot. -/
inductive Part (u : Value) : Value → Prop
  | self : Part u u
  | item {v : Value} {items : List Value} (hv : v ∈ items) (h : Part u v) :
      Part u (.list items)
  | slot {p : String × Value} {name : String} {fields : List (String × Value)}
      (hp : p ∈ fields) (h : Part u p.2) : Part u (.object name fields)

/-- All parts of a value have the property. -/
def All (p : Value → Prop) (v : Value) : Prop := ∀ u, u.Part v → p u

variable {p : Value → Prop}

theorem All.here {v : Value} (h : v.All p) : p v := h v .self

theorem All.item {items : List Value} (h : (Value.list items).All p) {v : Value}
    (hv : v ∈ items) : v.All p := fun u hu => h u (.item hv hu)

theorem All.slot {name : String} {fields : List (String × Value)}
    (h : (Value.object name fields).All p) {q : String × Value} (hq : q ∈ fields) :
    q.2.All p := fun u hu => h u (.slot hq hu)

theorem all_list {items : List Value} (h : p (.list items)) (hi : ∀ v ∈ items, v.All p) :
    (Value.list items).All p := by
  intro u hu
  cases hu with
  | self => exact h
  | item hv hu => exact hi _ hv u hu

theorem all_object {name : String} {fields : List (String × Value)}
    (h : p (.object name fields)) (hf : ∀ q ∈ fields, q.2.All p) :
    (Value.object name fields).All p := by
  intro u hu
  cases hu with
  | self => exact h
  | slot hq hu => exact hf _ hq u hu

/-- A value that is neither a list nor an instance has no part but itself. -/
theorem all_of_simple {v : Value} (hl : ∀ items, v ≠ .list items)
    (ho : ∀ name fields, v ≠ .object name fields) (h : p v) : v.All p := by
  intro u hu
  cases hu with
  | self => exact h
  | item hv _ => exact absurd rfl (hl _)
  | slot hq _ => exact absurd rfl (ho _ _)

end Value

namespace Store

/-- A value is part of what some layer binds. -/
def Holds (s : Store) (u : Value) : Prop := ∃ l, ∃ q ∈ s.bindings l, u.Part q.2

/-- All that the layers bind has the property, in all its parts. -/
def All (p : Value → Prop) (s : Store) : Prop := ∀ l, ∀ q ∈ s.bindings l, q.2.All p

variable {p : Value → Prop} {s : Store}

theorem all_iff_holds : s.All p ↔ ∀ u, s.Holds u → p u := by
  constructor
  · rintro h u ⟨l, q, hq, hu⟩
    exact h l q hq u hu
  · intro h l q hq u hu
    exact h u ⟨l, q, hq, hu⟩

theorem All.of_bindings {t : Store} (h : s.All p) (ht : ∀ l, t.bindings l = s.bindings l) :
    t.All p := by
  intro l q hq
  rw [ht] at hq
  exact h l q hq

theorem All.bind (h : s.All p) (e : LayerId) (name : String) {v : Value} (hv : v.All p) :
    (s.bind e name v).All p := by
  intro l q hq
  rcases s.bindings_bind e name v l with hb | ⟨-, hb⟩
  · rw [hb] at hq
    exact h l q hq
  · rw [hb] at hq
    rcases Bindings.mem_put hq with hq | rfl
    · exact h l q hq
    · exact hv

theorem All.spawn (h : s.All p) (e : LayerId) (parent : Option LayerId) :
    (s.spawn e parent).1.All p := h.of_bindings (s.bindings_spawn e parent)

theorem All.lookup? (h : s.All p) {e : LayerId} {name : String} {v : Value}
    (hv : s.lookup? e name = some v) : v.All p := by
  obtain ⟨l, -, hm⟩ := lookup?_mem hv
  exact h l _ hm

end Store

end Tern
