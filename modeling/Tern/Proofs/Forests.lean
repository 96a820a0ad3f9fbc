import Tern.Proofs.Writing

/-!
# Families of layers

Layers hang from one another in a `Store.Forest`: each is newer than the one it hangs from, and any
number may hang from the same. Of a write in one layer the others see something exactly if they
reach it before another layer that binds the name (`Store.Reaches`), and nobody sees anything else
of it; this is one induction, from the outermost layer inward, in which two ways outward need not
be told apart (`Forest.seenFrom_bind`). A write to a name as it is found from a layer is a write in
the nearest layer that binds it, so for this the layers that reach it are those that have the same
nearest layer (`Store.nearest_iff_reaches`).
-/

namespace Tern

open Eval

namespace Store

variable {s t : Store} {c d e l p : LayerId} {x y : String} {v : Value}

/-! ## Forests -/

/-- Each layer is newer than the one it hangs from. -/
structure Forest (s : Store) : Prop where
  older : ∀ {a b}, s.parent? a = some b → b < a

theorem lt_size_of_parent (h : s.parent? e = some p) : e < s.layers.size := by
  refine Nat.lt_of_not_le fun hle => ?_
  rw [s.parent?_eq_none hle] at h
  cases h

/-- A new root has no parent, like a layer that does not exist yet. -/
theorem parent?_addRoot (s : Store) (config : Config) (l : LayerId) :
    (s.addRoot config).1.parent? l = s.parent? l := by
  unfold parent? layer
  simp only [addRoot, push, Array.getElem?_push]
  by_cases h : l = s.layers.size
  · rw [if_pos h, Array.getElem?_eq_none (Nat.le_of_eq h.symm)]
    rfl
  · rw [if_neg h]

theorem forest_empty : empty.Forest where
  older h := nomatch h

namespace Forest

theorem of_parent? (h : s.Forest) (ht : ∀ l, t.parent? l = s.parent? l) : t.Forest where
  older hp := h.older ((ht _).symm.trans hp)

theorem addRoot (h : s.Forest) (config : Config) : (s.addRoot config).1.Forest :=
  h.of_parent? (s.parent?_addRoot config)

theorem bind (h : s.Forest) (e : LayerId) (x : String) (v : Value) : (s.bind e x v).Forest :=
  h.of_parent? (s.parent?_bind e x v)

/-- A new layer hangs from one that there is, or from nowhere. -/
theorem spawn (h : s.Forest) (source : LayerId) {parent : Option LayerId}
    (hp : ∀ q, parent = some q → q < s.layers.size) : (s.spawn source parent).1.Forest where
  older {a b} hab := by
    rw [parent?_spawn] at hab
    split at hab
    · next hnew => exact hnew ▸ hp b hab
    · exact h.older hab

theorem rooted (h : s.Forest) (he : e < s.layers.size) : s.Rooted e := ⟨he, fun _ => h.older⟩

end Forest

theorem forest_root (config : Config) : (root config).Forest := forest_empty.addRoot config

/-! ## What is seen from a layer -/

/-- A name has the value that the layer binds it to, or else the one it has from the parent. -/
theorem Forest.lookup?_eq (h : s.Forest) (e : LayerId) (x : String) :
    s.lookup? e x = ((s.bindings e).get? x).or ((s.parent? e).bind (s.lookup? · x)) := by
  cases hp : s.parent? e with
  | none =>
    rw [lookup?, outward_of_root hp, List.findSome?_cons, List.findSome?_nil]
    cases (s.bindings e).get? x <;> rfl
  | some p => exact (h.rooted (lt_size_of_parent hp)).lookup?_of_parent hp x

/-- Of layers that hold, with each that does not bind the name, its parent, it is enough to know
what they bind the name to. -/
theorem Forest.lookup?_congr (h : s.Forest) (ht : ∀ l, t.parent? l = s.parent? l)
    {V : LayerId → Prop}
    (hV : ∀ {a b}, V a → (s.bindings a).get? y = none → s.parent? a = some b → V b)
    (hget : ∀ {a}, V a → (t.bindings a).get? y = (s.bindings a).get? y) (hc : V c) :
    t.lookup? c y = s.lookup? c y := by
  induction c using Nat.strongRecOn with
  | ind c ih =>
    rw [h.lookup?_eq, (h.of_parent? ht).lookup?_eq, ht, hget hc]
    cases hy : (s.bindings c).get? y with
    | some w => rfl
    | none =>
      cases hp : s.parent? c with
      | none => rfl
      | some p => exact ih p (h.older hp) (hV hc hy hp)

/-- Outward from a layer another one is reached before any that binds the name. -/
inductive Reaches (s : Store) (x : String) (d : LayerId) : LayerId → Prop
  | here : Reaches s x d d
  | outward {e p : LayerId} (h : (s.bindings e).holds x = false) (hp : s.parent? e = some p)
      (hd : Reaches s x d p) : Reaches s x d e

theorem holds_eq_false : (s.bindings e).holds x = false ↔ (s.bindings e).get? x = none :=
  Option.isSome_eq_false_iff.trans Option.isNone_iff_eq_none

/-- The nearest layer that binds a name is one that binds it and is reached before any other. -/
theorem nearest_iff_reaches :
    s.Nearest x c l ↔ (s.bindings l).holds x = true ∧ s.Reaches x l c := by
  constructor
  · intro h
    induction h with
    | here he => exact ⟨he, .here⟩
    | outward he hp _ ih => exact ⟨ih.1, .outward he hp ih.2⟩
  · rintro ⟨hl, h⟩
    induction h with
    | here => exact .here hl
    | outward he hp _ ih => exact .outward he hp ih

theorem Nearest.unique {m : LayerId} (hl : s.Nearest x c l) (hm : s.Nearest x c m) : l = m := by
  induction hl with
  | here he =>
    cases hm with
    | here => rfl
    | outward he' => cases he.symm.trans he'
  | outward he hp _ ih =>
    cases hm with
    | here he' => cases he.symm.trans he'
    | outward _ hp' hm => exact ih (Option.some.inj (hp.symm.trans hp') ▸ hm)

/-- A set of layers sees a name's new value, and whatever else is looked up is what it was. -/
structure SeenFrom (s : Store) (V : LayerId → Prop) (x : String) (v : Value) (t : Store) :
    Prop where
  seen : ∀ c, V c → t.lookup? c x = some v
  kept : ∀ c y, ¬(V c ∧ y = x) → t.lookup? c y = s.lookup? c y

/-! ## Writes -/

/-- A layer that reaches the layer of a binding sees its value. -/
theorem Forest.lookup?_bind_of_reaches (h : s.Forest) (hd : d < s.layers.size)
    (hc : s.Reaches x d c) : (s.bind d x v).lookup? c x = some v := by
  have hself : (s.bind d x v).lookup? d x = some v := by
    rw [(h.bind d x v).lookup?_eq, s.bindings_bind_self x v hd, Bindings.get?_put, if_pos rfl]
    rfl
  induction hc with
  | here => exact hself
  | @outward e p he hp _ ih =>
    by_cases hde : d = e
    · exact hde ▸ hself
    · rw [(h.bind d x v).lookup?_eq, s.bindings_bind_of_ne d x v hde, holds_eq_false.mp he,
        parent?_bind, hp]
      exact ih

theorem Forest.lookup?_bind_of_not_reaches (h : s.Forest) (hc : ¬s.Reaches x d c) :
    (s.bind d x v).lookup? c x = s.lookup? c x := by
  refine h.lookup?_congr (s.parent?_bind d x v) (V := fun a => ¬s.Reaches x d a) ?_ ?_ hc
  · exact fun ha hnone hp hb => ha (.outward (holds_eq_false.mpr hnone) hp hb)
  · intro a ha
    have hne : d ≠ a := fun hda => ha (hda ▸ .here)
    rw [s.bindings_bind_of_ne d x v hne]

theorem Forest.lookup?_bind_of_ne (h : s.Forest) (hy : y ≠ x) :
    (s.bind d x v).lookup? c y = s.lookup? c y := by
  refine h.lookup?_congr (s.parent?_bind d x v) (V := fun _ => True) (fun _ _ _ => trivial) ?_
    trivial
  intro a _
  obtain hb | ⟨-, hb⟩ := s.bindings_bind d x v a
  · rw [hb]
  · rw [hb, Bindings.get?_put, if_neg hy]

/-- What a binding changes about the view from any layer. -/
theorem Forest.seenFrom_bind (h : s.Forest) (hd : d < s.layers.size) (x : String) (v : Value) :
    s.SeenFrom (s.Reaches x d) x v (s.bind d x v) where
  seen _ hc := h.lookup?_bind_of_reaches hd hc
  kept c y hne := by
    by_cases hy : y = x
    · subst hy
      exact h.lookup?_bind_of_not_reaches fun hc => hne ⟨hc, rfl⟩
    · exact h.lookup?_bind_of_ne hy

/-- What is written to a name in a layer that binds it is seen by the layers for which that is the
nearest. -/
theorem Forest.seenFrom_bind_of_holds (h : s.Forest) (hl : (s.bindings l).holds x = true)
    (v : Value) : s.SeenFrom (s.Nearest x · l) x v (s.bind l x v) := by
  have hsets : (s.Nearest x · l) = s.Reaches x l :=
    funext fun c => propext (nearest_iff_reaches.trans (and_iff_right hl))
  rw [hsets]
  exact h.seenFrom_bind (lt_size_of_holds hl) x v

/-- A layer that sees whatever is written to a name is one for which the write was the nearest. -/
theorem Forest.nearest_iff (h : s.Forest) (hl : (s.bindings l).holds x = true) :
    s.Nearest x c l ↔ ∀ w, (s.bind l x w).lookup? c x = some w := by
  refine ⟨fun hc w => (h.seenFrom_bind_of_holds hl w).seen c hc, fun hall => ?_⟩
  by_contra hc
  have hbefore (w : Value) : s.lookup? c x = some w :=
    ((h.seenFrom_bind_of_holds hl w).kept c x fun hand => hc hand.1).symm.trans (hall w)
  cases (hbefore .nothing).symm.trans (hbefore (.bool true))

theorem isSome_lookup?_iff : (s.lookup? e x).isSome = true ↔ ∃ l, s.owner? e x = some l := by
  refine ⟨fun h => ?_, fun ⟨l, hl⟩ => isSome_lookup?_of_owner? hl⟩
  obtain ⟨v, hv⟩ := Option.isSome_iff_exists.mp h
  exact (exists_owner?_of_lookup? hv).imp fun _ => And.left

end Store

/-- A write to a name goes through exactly if the name is found from the layer, and then changes
one binding, that of the nearest layer that binds the name; what it wrote is seen from just those
layers that have the same nearest layer, and no other lookup changes. A name that is not found is
an error and nothing has changed. A binding in a layer itself is seen from just those layers that
reach it before another layer that binds the name. -/
theorem setName_forest {s : Store} (h : s.Forest) (d : LayerId) (x : String) (v : Value) :
    ((s.lookup? d x).isSome = true → ∃ l, s.Nearest x d l ∧
      setName d x v s = (.ok (), s.bind l x v) ∧ s.Rebinds l x v (s.bind l x v) ∧
      s.SeenFrom (s.Nearest x · l) x v (s.bind l x v) ∧
      ∀ c, s.Nearest x c l ↔ ∀ w, (s.bind l x w).lookup? c x = some w) ∧
    ((s.lookup? d x).isSome = false →
      setName d x v s = (.error (.raised ⟨.variableNotFound x, none⟩), s)) ∧
    (d < s.layers.size → s.SeenFrom (s.Reaches x d) x v (s.bind d x v)) := by
  refine ⟨fun hfound => ?_, fun hmissing => ?_, fun hd => h.seenFrom_bind hd x v⟩
  · obtain ⟨l, hl⟩ := Store.isSome_lookup?_iff.mp hfound
    have hholds := (Store.within_of_owner? hl).2
    exact ⟨l, Store.nearest_of_owner? hl, setName_of_owner? hl v, Store.rebinds_bind hholds v,
      h.seenFrom_bind_of_holds hholds v, fun _ => h.nearest_iff hholds⟩
  · cases howner : s.owner? d x with
    | some l =>
      rw [Store.isSome_lookup?_of_owner? howner] at hmissing
      cases hmissing
    | none => rw [setName, howner]

/-- A root that binds `x`, two layers that hang from it, the second with an `x` of its own, and a
layer that hangs from the first. -/
def twoBranches : Store :=
  let s := (Store.root {}).bind 0 "x" (.number 1)
  let s := ((s.spawn 0 (some 0)).1.spawn 0 (some 0)).1.bind 2 "x" (.number 2)
  (s.spawn 0 (some 1)).1

theorem forest_twoBranches : twoBranches.Forest := by
  refine Store.Forest.spawn (.bind (.spawn (.spawn (.bind (Store.forest_root {}) ..) _ ?_) _ ?_) ..)
    _ ?_ <;> rintro q ⟨⟩ <;> decide

/-- From the layer furthest in the `x` of the root is written. The first layer sees it, the second
does not. -/
theorem setName_twoBranches : twoBranches.Forest ∧ ∃ t,
    setName 3 "x" (.number 5) twoBranches = (.ok (), t) ∧ t.lookup? 1 "x" = some (.number 5) ∧
      t.lookup? 2 "x" = some (.number 2) := by
  refine ⟨forest_twoBranches, ?_⟩
  have hthird : twoBranches.Nearest "x" 3 0 := .outward rfl rfl (.outward rfl rfl (.here rfl))
  have hfirst : twoBranches.Nearest "x" 1 0 := .outward rfl rfl (.here rfl)
  have hsecond : twoBranches.Nearest "x" 2 2 := .here rfl
  obtain ⟨l, hl, hset, -, hseen, -⟩ := (setName_forest forest_twoBranches 3 "x" (.number 5)).1 rfl
  obtain rfl := hl.unique hthird
  refine ⟨_, hset, hseen.seen 1 hfirst, (hseen.kept 2 "x" fun hand => ?_).trans rfl⟩
  cases hand.1.unique hsecond

end Tern
