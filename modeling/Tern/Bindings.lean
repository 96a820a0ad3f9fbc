/-!
# Ordered bindings

Names with what they are bound to, in the order in which they were first bound: binding a name
again keeps its place. The view is `get?`; `get?_put` says what `put` does to it and
`names_put` what it does to the order.
-/

namespace Tern

abbrev Bindings (α : Type) := List (String × α)

namespace Bindings

variable {α : Type}

/-- What a name is bound to. -/
def get? : Bindings α → String → Option α
  | [], _ => none
  | (n, v) :: rest, name => if n = name then some v else get? rest name

def names (b : Bindings α) : List String := b.map (·.1)

def holds (b : Bindings α) (name : String) : Bool := (b.get? name).isSome

/-- Binds a name: in its place if it is bound, else at the end. -/
def put : Bindings α → String → α → Bindings α
  | [], name, value => [(name, value)]
  | (n, v) :: rest, name, value =>
    if n = name then (name, value) :: rest else (n, v) :: put rest name value

@[simp] theorem get?_nil (name : String) : get? ([] : Bindings α) name = none := rfl

theorem get?_cons (n : String) (v : α) (rest : Bindings α) (name : String) :
    get? ((n, v) :: rest) name = if n = name then some v else get? rest name := rfl

theorem get?_put (b : Bindings α) (name other : String) (value : α) :
    (b.put name value).get? other = if other = name then some value else b.get? other := by
  induction b with
  | nil => by_cases h : other = name <;> simp [put, get?_cons, h, Ne.symm]
  | cons p rest ih =>
    obtain ⟨n, v⟩ := p
    by_cases hn : n = name
    · subst hn
      by_cases h : n = other
      · subst h; simp [put, get?_cons]
      · simp [put, get?_cons, h, Ne.symm h]
    · by_cases h : n = other
      · subst h; simp [put, get?_cons, hn]
      · simp [put, get?_cons, hn, h, ih]

theorem names_put (b : Bindings α) (name : String) (value : α) :
    (b.put name value).names = if name ∈ b.names then b.names else b.names ++ [name] := by
  induction b with
  | nil => simp [put, names]
  | cons p rest ih =>
    obtain ⟨n, v⟩ := p
    simp only [names] at ih ⊢
    by_cases hn : n = name
    · simp [put, hn]
    · have hn' : ¬name = n := fun h => hn h.symm
      by_cases hmem : name ∈ rest.map (·.1)
      · simp [put, hn, ih, hmem]
      · simp [put, hn, hn', ih, hmem]

end Bindings

end Tern
