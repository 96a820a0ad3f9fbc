import Tern.Proofs.Bodies

/-!
# Looking outward

Outward from a layer that is `Rooted` each layer is older than the one before, as the layers are
made, and so the way outward ends before the numbers do. A name is looked up in the layer itself
and then from its parent on (`Rooted.owner?_of_parent`, `Rooted.lookup?_of_parent`). A layer that is
rooted stays so (`Rooted.of_links`), and as long as the layers outward from it gain no name, each
name keeps its owner (`Rooted.owner?_eq`).
-/

namespace Tern

namespace Store

/-- A layer that there is, and outward from it each layer is older than the one before. -/
structure Rooted (s : Store) (e : LayerId) : Prop where
  lt : e < s.layers.size
  older : ∀ {a b}, s.Within e a → s.parent? a = some b → b < a

variable {s t : Store} {e l p : LayerId}

theorem rooted_root (config : Config) : (root config).Rooted 0 where
  lt := Nat.zero_lt_one
  older ha hb := by
    rw [ha.eq_of_root rfl] at hb
    cases hb

namespace Rooted

theorem le_of_within (h : s.Rooted e) (hl : s.Within e l) : l ≤ e := by
  induction hl with
  | self => exact Nat.le_refl e
  | outward ha hb ih => exact Nat.le_trans (Nat.le_of_lt (h.older ha hb)) ih

theorem lt_of_parent (h : s.Rooted e) (hp : s.parent? e = some p) : p < e := h.older .self hp

theorem parent (h : s.Rooted e) (hp : s.parent? e = some p) : s.Rooted p where
  lt := Nat.lt_trans (h.lt_of_parent hp) h.lt
  older ha hb := h.older ((Within.self.outward hp).trans ha) hb

/-- Layers are for good. -/
theorem of_links (h : s.Rooted e) (ht : s.Links t) : t.Rooted e := by
  have hparent {a : LayerId} (ha : s.Within e a) : t.parent? a = s.parent? a :=
    ht.parent a (Nat.lt_of_le_of_lt (h.le_of_within ha) h.lt)
  have hwithin {a : LayerId} (ha : t.Within e a) : s.Within e a := by
    induction ha with
    | self => exact .self
    | outward _ hb ih => exact ih.outward ((hparent ih).symm.trans hb)
  exact ⟨Nat.lt_of_lt_of_le h.lt ht.size, fun ha hb =>
    h.older (hwithin ha) ((hparent (hwithin ha)).symm.trans hb)⟩

/-- A new layer is rooted when it hangs from one that is, or from nowhere. -/
theorem spawn (source : LayerId) {p : Option LayerId} (hp : ∀ q, p = some q → s.Rooted q) :
    (s.spawn source p).1.Rooted s.layers.size := by
  have hlinks := s.links_spawn source p
  refine ⟨by simp, fun {a b} ha hb => ?_⟩
  -- Outward from the new layer lies, beside itself, what lies outward from its parent.
  have hwithin : a = s.layers.size ∨ ∃ q, p = some q ∧ (s.spawn source p).1.Within q a := by
    clear hb
    induction ha with
    | self => exact .inl rfl
    | outward _ hc ih =>
        obtain rfl | ⟨q, hq, hwithin⟩ := ih
        · rw [parent?_spawn, if_pos rfl] at hc
          exact .inr ⟨_, hc, .self⟩
        · exact .inr ⟨q, hq, hwithin.outward hc⟩
  obtain rfl | ⟨q, hq, hwithin⟩ := hwithin
  · rw [parent?_spawn, if_pos rfl] at hb
    exact (hp b hb).lt
  · exact ((hp q hq).of_links hlinks).older hwithin hb

/-! ## The way outward -/

/-- A way that is long enough is the whole way. -/
theorem outwardFrom_eq : ∀ {m n : Nat} {e : LayerId}, s.Rooted e → e < m → e < n →
    s.outwardFrom m e = s.outwardFrom n e
  | m + 1, n + 1, e, h, hm, hn => by
      unfold outwardFrom
      cases hp : s.parent? e with
      | none => rfl
      | some p =>
          have hlt := h.lt_of_parent hp
          exact congrArg (e :: ·) (outwardFrom_eq (h.parent hp)
            (Nat.lt_of_lt_of_le hlt (Nat.le_of_lt_succ hm))
            (Nat.lt_of_lt_of_le hlt (Nat.le_of_lt_succ hn)))

theorem outward_of_parent (h : s.Rooted e) (hp : s.parent? e = some p) :
    s.outward e = e :: s.outward p := by
  rw [outward, outwardFrom, hp]
  exact congrArg (e :: ·) ((h.parent hp).outwardFrom_eq (h.lt_of_parent hp) (Nat.lt_succ_self p))

/-- A name is the layer's own if the layer binds it. Else it is looked for outward. -/
theorem owner?_of_parent (h : s.Rooted e) (hp : s.parent? e = some p) (x : String) :
    s.owner? e x = if (s.bindings e).holds x then some e else s.owner? p x := by
  rw [owner?, h.outward_of_parent hp, List.find?_cons]
  cases (s.bindings e).holds x <;> rfl

theorem lookup?_of_parent (h : s.Rooted e) (hp : s.parent? e = some p) (x : String) :
    s.lookup? e x = ((s.bindings e).get? x).or (s.lookup? p x) := by
  rw [lookup?, h.outward_of_parent hp, List.findSome?_cons]
  cases (s.bindings e).get? x <;> rfl

end Rooted

/-! ## Owners -/

theorem outward_of_root (hp : s.parent? e = none) : s.outward e = [e] := by
  rw [outward, outwardFrom, hp]

theorem owner?_of_holds {x : String} (h : (s.bindings e).holds x = true) :
    s.owner? e x = some e := by
  rw [owner?, outward, outwardFrom, List.find?_cons, h]

/-- A name has the value that its owner binds it to. -/
theorem lookup?_of_owner? {x : String} (h : s.owner? e x = some l) :
    s.lookup? e x = (s.bindings l).get? x := by
  unfold owner? at h
  unfold lookup?
  generalize s.outward e = ls at h ⊢
  induction ls with
  | nil => cases h
  | cons a rest ih =>
      rw [List.find?_cons] at h
      rw [List.findSome?_cons]
      cases ha : (s.bindings a).get? x with
      | some v =>
          rw [Bindings.holds, ha] at h
          cases h
          exact ha.symm
      | none =>
          rw [Bindings.holds, ha] at h
          exact ih h

theorem isSome_lookup?_of_owner? {x : String} (h : s.owner? e x = some l) :
    (s.lookup? e x).isSome = true := by
  rw [lookup?_of_owner? h]
  exact (within_of_owner? h).2

theorem owner?_of_root (hp : s.parent? e = none) (x : String) :
    s.owner? e x = if (s.bindings e).holds x then some e else none := by
  rw [owner?, outward_of_root hp, List.find?_cons]
  cases (s.bindings e).holds x <;> rfl

/-- A name that has a value has an owner, which binds it to the value. -/
theorem exists_owner?_of_lookup? {x : String} {v : Value} (h : s.lookup? e x = some v) :
    ∃ l, s.owner? e x = some l ∧ (s.bindings l).get? x = some v := by
  obtain ⟨k, hk, hv⟩ := List.exists_of_findSome?_eq_some h
  have hholds : (s.bindings k).holds x = true := by rw [Bindings.holds, hv]; rfl
  have hsome : (s.owner? e x).isSome = true :=
    (List.find?_isSome (p := fun k => (s.bindings k).holds x)).mpr ⟨k, hk, hholds⟩
  obtain ⟨l, hl⟩ := Option.isSome_iff_exists.mp hsome
  exact ⟨l, hl, (lookup?_of_owner? hl).symm.trans h⟩

/-- Outward from a layer, the first that binds the name. -/
inductive Nearest (s : Store) (x : String) : LayerId → LayerId → Prop
  | here {e : LayerId} (h : (s.bindings e).holds x = true) : Nearest s x e e
  | outward {e p l : LayerId} (h : (s.bindings e).holds x = false) (hp : s.parent? e = some p)
      (hl : Nearest s x p l) : Nearest s x e l

theorem nearest_of_find? {x : String} : ∀ {n : Nat} {e : LayerId},
    (s.outwardFrom n e).find? (fun k => (s.bindings k).holds x) = some l → s.Nearest x e l
  | n + 1, e, h => by
      unfold outwardFrom at h
      rw [List.find?_cons] at h
      cases he : (s.bindings e).holds x with
      | true =>
          rw [he] at h
          cases h
          exact .here he
      | false =>
          rw [he] at h
          cases hp : s.parent? e with
          | none => rw [hp] at h; cases h
          | some p => rw [hp] at h; exact .outward he hp (nearest_of_find? h)

/-- The owner of a name is the nearest layer that binds it. -/
theorem nearest_of_owner? {x : String} (h : s.owner? e x = some l) : s.Nearest x e l :=
  nearest_of_find? h

/-- Names have the same owners where the layers outward are the same and have the same names. -/
theorem Rooted.owner?_eq (h : s.Rooted e) (ht : s.Links t)
    (hnames : ∀ l, l ≤ e → (t.bindings l).names = (s.bindings l).names) (x : String) :
    t.owner? e x = s.owner? e x := by
  induction e using Nat.strongRecOn with
  | ind e ih =>
      have hholds : (t.bindings e).holds x = (s.bindings e).holds x := by
        rw [Bool.eq_iff_iff, Bindings.holds_iff_mem_names, Bindings.holds_iff_mem_names,
          hnames e (Nat.le_refl e)]
      have hparent := ht.parent e h.lt
      cases hp : s.parent? e with
      | none => rw [owner?_of_root hp, owner?_of_root (hparent.trans hp), hholds]
      | some p =>
          have hlt := h.lt_of_parent hp
          rw [h.owner?_of_parent hp, (h.of_links ht).owner?_of_parent (hparent.trans hp), hholds,
            ih p hlt (h.parent hp) fun l hl => hnames l (Nat.le_trans hl (Nat.le_of_lt hlt))]

end Store

end Tern
