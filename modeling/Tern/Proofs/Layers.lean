import Mathlib.Data.List.Basic
import Tern.Store

/-!
# What the operations on the store change

The views of a layer - its parent, configuration, registry and bindings - under each operation.
Only `bind` changes the bindings of a layer and only `spawn` adds one; a layer that has been added
keeps its parent for good. `Store.Within` is the scope of a layer: itself and whatever lies
outward. Looking a name up and finding its owner stay within the scope
(`lookup?_mem`, `within_of_owner?`).
-/

namespace Tern

namespace Bindings

variable {α : Type}

theorem mem_of_get? : ∀ {b : Bindings α} {name : String} {v : α},
    b.get? name = some v → (name, v) ∈ b
  | [], _, _, h => by cases h
  | (n, u) :: rest, name, v, h => by
      rw [get?_cons] at h
      split at h
      · next hn =>
        subst hn
        cases h
        exact List.mem_cons_self ..
      · exact List.mem_cons_of_mem _ (mem_of_get? h)

theorem mem_put {b : Bindings α} {name : String} {v : α} {p : String × α}
    (h : p ∈ b.put name v) : p ∈ b ∨ p = (name, v) := by
  induction b with
  | nil => exact Or.inr (by simpa [put] using h)
  | cons q rest ih =>
      obtain ⟨n, u⟩ := q
      unfold put at h
      split at h
      · rcases List.mem_cons.mp h with h | h
        · exact Or.inr h
        · exact Or.inl (List.mem_cons_of_mem _ h)
      · rcases List.mem_cons.mp h with h | h
        · exact Or.inl (h ▸ List.mem_cons_self ..)
        · exact (ih h).imp (List.mem_cons_of_mem _) id

/-- A name is bound exactly when it is among the names. -/
theorem holds_iff_mem_names {b : Bindings α} {name : String} :
    b.holds name = true ↔ name ∈ b.names := by
  induction b with
  | nil => simp [holds, names]
  | cons p rest ih =>
      obtain ⟨n, v⟩ := p
      have ih' : (get? rest name).isSome = true ↔ name ∈ rest.map (·.1) := ih
      by_cases hn : n = name
      · simp [holds, names, get?_cons, hn]
      · have hn' : ¬name = n := fun h => hn h.symm
        simp only [holds, names, get?_cons, if_neg hn, List.map_cons, List.mem_cons, hn',
          false_or]
        exact ih'

/-- What is kept by its name is found under it. -/
theorem lookup_filter_key (p : String → Bool) (key : String) :
    ∀ entries : List (String × α),
      (entries.filter (p ·.1)).lookup key = if p key then entries.lookup key else none
  | [] => by simp
  | (k, v) :: rest => by
      have ih := lookup_filter_key p key rest
      by_cases hk : key = k
      · subst hk
        cases hp : p key <;> simp [hp, ih]
      · rw [List.lookup_cons, beq_eq_false_iff_ne.mpr hk, List.filter_cons]
        split
        · rw [List.lookup_cons, beq_eq_false_iff_ne.mpr hk]
          exact ih
        · exact ih

/-- Binds names to values, one after the other. -/
def putAll (b : Bindings α) (entries : List (String × α)) : Bindings α :=
  entries.foldl (fun b entry => b.put entry.1 entry.2) b

/-- Of two values for one name the later one counts. -/
theorem get?_putAll (x : String) : ∀ (b : Bindings α) (entries : List (String × α)),
    (b.putAll entries).get? x = (entries.reverse.lookup x).or (b.get? x)
  | _, [] => rfl
  | b, (y, v) :: rest => by
      have hrest : (b.putAll ((y, v) :: rest)).get? x = _ := get?_putAll x (b.put y v) rest
      rw [hrest, get?_put, List.reverse_cons, List.lookup_append, Option.or_assoc]
      congr 1
      by_cases hxy : x = y
      · rw [if_pos hxy, hxy, List.lookup_cons_self]
        rfl
      · rw [if_neg hxy, List.lookup_cons, beq_eq_false_iff_ne.mpr hxy]
        rfl

/-- New names come in the order in which they occur first. -/
theorem names_putAll : ∀ (b : Bindings α) (entries : List (String × α)),
    (b.putAll entries).names =
      b.names ++ ((entries.map (·.1)).filter (· ∉ b.names)).eraseDups
  | b, [] => by simp [putAll]
  | b, (y, v) :: rest => by
      have hrest : (b.putAll ((y, v) :: rest)).names = _ := names_putAll (b.put y v) rest
      rw [hrest, names_put]
      by_cases hy : y ∈ b.names
      · simp [hy]
      · simp [hy, List.eraseDups_cons, List.filter_filter, Bool.and_comm, beq_eq_decide]

theorem nodup_names_putAll {b : Bindings α} (h : b.names.Nodup) (entries : List (String × α)) :
    (b.putAll entries).names.Nodup := by
  induction entries generalizing b with
  | nil => exact h
  | cons entry rest ih =>
      refine ih (b := b.put entry.1 entry.2) ?_
      rw [names_put]
      split
      · exact h
      · next hnew =>
        refine List.nodup_append.mpr ⟨h, by simp, fun y hy z hz => ?_⟩
        rw [List.mem_singleton.mp hz]
        exact fun hyz => hnew (hyz ▸ hy)

end Bindings

namespace Store

variable (s : Store)

/-! ## Reading a layer -/

theorem layer_eq {s t : Store} {l : LayerId} (h : s.layers[l]? = t.layers[l]?) :
    s.layer l = t.layer l := by
  unfold layer
  rw [h]

theorem layer_of_layers {s t : Store} (h : t.layers = s.layers) (l : LayerId) :
    t.layer l = s.layer l :=
  layer_eq (by rw [h])

theorem bindings_of_layers {s t : Store} (h : t.layers = s.layers) (l : LayerId) :
    t.bindings l = s.bindings l :=
  congrArg Layer.bindings (layer_of_layers h l)

theorem bindings_eq_nil {l : LayerId} (h : s.layers.size ≤ l) : s.bindings l = [] := by
  unfold bindings layer
  rw [Array.getElem?_eq_none h]
  rfl

theorem parent?_eq_none {l : LayerId} (h : s.layers.size ≤ l) : s.parent? l = none := by
  unfold parent? layer
  rw [Array.getElem?_eq_none h]
  rfl

/-! ## Binding -/

section Bind

variable (e : LayerId) (name : String) (v : Value)

theorem getElem?_bind (l : LayerId) :
    (s.bind e name v).layers[l]? =
      if e = l then (s.layers[l]?).map fun y => { y with bindings := y.bindings.put name v }
      else s.layers[l]? := by
  unfold bind
  rw [Array.getElem?_modify]

theorem getElem?_bind_of_ne {l : LayerId} (h : e ≠ l) :
    (s.bind e name v).layers[l]? = s.layers[l]? := by
  rw [getElem?_bind, if_neg h]

@[simp] theorem size_bind : (s.bind e name v).layers.size = s.layers.size := by
  simp [bind]

theorem layer_bind (l : LayerId) :
    (s.bind e name v).layer l =
      if e = l ∧ l < s.layers.size then { s.layer l with bindings := (s.bindings l).put name v }
      else s.layer l := by
  unfold layer bindings layer
  rw [getElem?_bind]
  by_cases h : e = l
  · rw [if_pos h]
    by_cases hl : l < s.layers.size
    · rw [if_pos ⟨h, hl⟩, Array.getElem?_eq_getElem hl]
      rfl
    · rw [if_neg fun hand => hl hand.2, Array.getElem?_eq_none (Nat.le_of_not_lt hl)]
      rfl
  · rw [if_neg h, if_neg fun hand => h hand.1]

/-- What a binding leaves of a layer. -/
theorem layer_bind_or (l : LayerId) :
    (s.bind e name v).layer l = s.layer l ∨
      (l < s.layers.size ∧ e = l ∧
        (s.bind e name v).layer l =
          { s.layer l with bindings := (s.bindings l).put name v }) := by
  rw [layer_bind]
  split
  · next h => exact Or.inr ⟨h.2, h.1, rfl⟩
  · exact Or.inl rfl

@[simp] theorem parent?_bind (l : LayerId) : (s.bind e name v).parent? l = s.parent? l := by
  unfold parent?
  rcases s.layer_bind_or e name v l with h | ⟨-, -, h⟩ <;> rw [h]

@[simp] theorem config_bind (l : LayerId) : (s.bind e name v).config l = s.config l := by
  unfold config
  rcases s.layer_bind_or e name v l with h | ⟨-, -, h⟩ <;> rw [h]

@[simp] theorem registry_bind (l : LayerId) :
    ((s.bind e name v).layer l).registry = (s.layer l).registry := by
  rcases s.layer_bind_or e name v l with h | ⟨-, -, h⟩ <;> rw [h]

theorem bindings_bind_of_ne {l : LayerId} (h : e ≠ l) :
    (s.bind e name v).bindings l = s.bindings l := by
  unfold bindings
  rw [layer_eq (getElem?_bind_of_ne s e name v h)]

theorem bindings_bind_self {e : LayerId} (h : e < s.layers.size) :
    (s.bind e name v).bindings e = (s.bindings e).put name v := by
  rcases s.layer_bind_or e name v e with hl | ⟨-, -, hl⟩
  · unfold bindings layer at *
    rw [getElem?_bind, if_pos rfl, Array.getElem?_eq_getElem h]
    rfl
  · exact congrArg Layer.bindings hl

theorem holds_bind_self {e : LayerId} (h : e < s.layers.size) :
    ((s.bind e name v).bindings e).holds name = true := by
  rw [bindings_bind_self s name v h, Bindings.holds, Bindings.get?_put, if_pos rfl]
  rfl

/-- A layer's bindings after a binding: those before, perhaps with the new one. -/
theorem bindings_bind (l : LayerId) :
    (s.bind e name v).bindings l = s.bindings l ∨
      (e = l ∧ (s.bind e name v).bindings l = (s.bindings l).put name v) := by
  unfold bindings
  rcases s.layer_bind_or e name v l with h | ⟨-, he, h⟩
  · exact Or.inl (by rw [h])
  · exact Or.inr ⟨he, by rw [h]; rfl⟩

end Bind

/-! ## New layers -/

section Spawn

variable (e : LayerId) (p : Option LayerId)

@[simp] theorem size_spawn : (s.spawn e p).1.layers.size = s.layers.size + 1 := by
  simp [spawn, push]

theorem getElem?_spawn (l : LayerId) :
    (s.spawn e p).1.layers[l]? =
      if l = s.layers.size then some { s.layer e with parent := p, bindings := [] }
      else s.layers[l]? := by
  simp only [spawn, push]
  rw [Array.getElem?_push]

theorem layer_spawn (l : LayerId) :
    (s.spawn e p).1.layer l =
      if l = s.layers.size then { s.layer e with parent := p, bindings := [] }
      else s.layer l := by
  unfold layer
  rw [getElem?_spawn]
  split <;> rfl

theorem parent?_spawn (l : LayerId) :
    (s.spawn e p).1.parent? l = if l = s.layers.size then p else s.parent? l := by
  unfold parent?
  rw [layer_spawn]
  split <;> rfl

theorem config_spawn (l : LayerId) :
    (s.spawn e p).1.config l = if l = s.layers.size then s.config e else s.config l := by
  unfold config
  rw [layer_spawn]
  split <;> rfl

/-- A new layer binds nothing, like one that does not exist yet. -/
@[simp] theorem bindings_spawn (l : LayerId) :
    (s.spawn e p).1.bindings l = s.bindings l := by
  by_cases h : l = s.layers.size
  · rw [s.bindings_eq_nil (Nat.le_of_eq h.symm)]
    unfold bindings
    rw [layer_spawn, if_pos h]
  · unfold bindings
    rw [layer_spawn, if_neg h]

end Spawn

/-! ## Scope -/

/-- The layers that a layer sees: itself and, from each, its parent. -/
inductive Within (s : Store) (e : LayerId) : LayerId → Prop
  | self : Within s e e
  | outward {a b : LayerId} (ha : Within s e a) (hb : s.parent? a = some b) : Within s e b

theorem Within.trans {s : Store} {a b c : LayerId} (hab : s.Within a b) (hbc : s.Within b c) :
    s.Within a c := by
  induction hbc with
  | self => exact hab
  | outward _ hp ih => exact ih.outward hp

/-- A set of layers that holds a layer, and with each its parent, holds the scope. -/
theorem Within.mem_of_closed {s : Store} {V : LayerId → Prop} {e l : LayerId}
    (h : s.Within e l) (he : V e) (hV : ∀ a b, V a → s.parent? a = some b → V b) : V l := by
  induction h with
  | self => exact he
  | outward _ hp ih => exact hV _ _ ih hp

/-- The scope depends on the parents alone. -/
theorem Within.of_parent? {s t : Store} (hp : ∀ l, s.parent? l = t.parent? l) {e l : LayerId}
    (h : s.Within e l) : t.Within e l := by
  induction h with
  | self => exact .self
  | outward _ hb ih => exact ih.outward (by rw [← hp, hb])

/-- A layer without a parent sees itself alone. -/
theorem Within.eq_of_root {s : Store} {e l : LayerId} (h : s.Within e l)
    (hp : s.parent? e = none) : l = e := by
  refine h.mem_of_closed (V := (· = e)) rfl ?_
  rintro a b rfl hb
  rw [hp] at hb
  cases hb

theorem within_of_mem_outwardFrom {s : Store} : ∀ {n : Nat} {e l : LayerId},
    l ∈ s.outwardFrom n e → s.Within e l
  | 0, _, _, h => by cases h
  | n + 1, e, l, h => by
      unfold outwardFrom at h
      rcases List.mem_cons.mp h with rfl | h
      · exact .self
      · cases hp : s.parent? e with
        | none => rw [hp] at h; cases h
        | some p =>
            rw [hp] at h
            exact (Within.self.outward hp).trans (within_of_mem_outwardFrom h)

theorem within_of_mem_outward {s : Store} {e l : LayerId} (h : l ∈ s.outward e) :
    s.Within e l := within_of_mem_outwardFrom h

/-- Where parents are kept there is as much to see outward as before. -/
theorem prefix_outwardFrom {s t : Store} (h : ∀ a b, s.parent? a = some b → t.parent? a = some b) :
    ∀ (n : Nat) (e : LayerId), s.outwardFrom n e <+: t.outwardFrom n e
  | 0, _ => List.prefix_rfl
  | n + 1, e => by
      unfold outwardFrom
      refine List.prefix_cons_inj e |>.mpr ?_
      cases hp : s.parent? e with
      | none => exact List.nil_prefix
      | some p =>
          rw [h e p hp]
          exact prefix_outwardFrom h n p

/-- The owner of a name is within scope and binds it. -/
theorem within_of_owner? {s : Store} {e l : LayerId} {name : String}
    (h : s.owner? e name = some l) : s.Within e l ∧ (s.bindings l).holds name = true :=
  ⟨within_of_mem_outward (List.mem_of_find?_eq_some h),
   List.find?_some (p := fun l => (s.bindings l).holds name) h⟩

/-- What a name is looked up to is bound to it within scope. -/
theorem lookup?_mem {s : Store} {e : LayerId} {name : String} {v : Value}
    (h : s.lookup? e name = some v) :
    ∃ l, s.Within e l ∧ (name, v) ∈ s.bindings l := by
  obtain ⟨l, hl, hv⟩ := List.exists_of_findSome?_eq_some h
  exact ⟨l, within_of_mem_outward hl, Bindings.mem_of_get? hv⟩

section Congr

variable {s t : Store} {V : LayerId → Prop} (hV : ∀ a b, V a → s.parent? a = some b → V b)
  (h : ∀ l, V l → s.layer l = t.layer l)

include hV h

/-- The way outward is the same in stores that agree on the layers along it. -/
theorem outwardFrom_congr : ∀ (n : Nat) {e : LayerId}, V e → s.outwardFrom n e = t.outwardFrom n e
  | 0, _, _ => rfl
  | n + 1, e, he => by
      have hp : s.parent? e = t.parent? e := congrArg Layer.parent (h e he)
      unfold outwardFrom
      rw [← hp]
      cases hs : s.parent? e with
      | none => rfl
      | some p => exact congrArg (e :: ·) (outwardFrom_congr n (hV e p he hs))

theorem bindings_eq_of_mem_outward {e l : LayerId} (he : V e) (hl : l ∈ s.outward e) :
    s.bindings l = t.bindings l :=
  congrArg Layer.bindings (h l ((within_of_mem_outward hl).mem_of_closed he hV))

theorem lookup?_congr {e : LayerId} (he : V e) (name : String) :
    s.lookup? e name = t.lookup? e name := by
  unfold lookup?
  rw [show t.outward e = s.outward e from (outwardFrom_congr hV h _ he).symm]
  rw [← List.head?_filterMap, ← List.head?_filterMap]
  exact congrArg _ (List.filterMap_congr fun l hl => by rw [bindings_eq_of_mem_outward hV h he hl])

theorem owner?_congr {e : LayerId} (he : V e) (name : String) :
    s.owner? e name = t.owner? e name := by
  unfold owner?
  rw [show t.outward e = s.outward e from (outwardFrom_congr hV h _ he).symm]
  rw [← List.head?_filter, ← List.head?_filter]
  exact congrArg _ (List.filter_congr fun l hl => by rw [bindings_eq_of_mem_outward hV h he hl])

end Congr

/-- Nothing but the layers matters to what is looked up. -/
theorem lookup?_of_layers {s t : Store} (h : t.layers = s.layers) (e : LayerId) (name : String) :
    t.lookup? e name = s.lookup? e name :=
  lookup?_congr (V := fun _ => True) (fun _ _ _ _ => trivial) (fun l _ => layer_of_layers h l)
    trivial name

end Store

end Tern
