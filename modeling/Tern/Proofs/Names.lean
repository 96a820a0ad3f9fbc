import Tern.Proofs.Policy

/-!
# Names are for good

Bindings are added and replaced but never taken away, and a name keeps its place among the names
of its layer. An evaluation adds names to its own layer and to new ones only: writing further
outward needs a name that is bound there already (`Grown`). The definitions of structs keep what
is known of them, and their tables of methods grow in the same way.

`Store.Later` goes beyond one evaluation: whatever a run does with the layers from now on, a name
that is bound stays bound (`holds_later`), so that its definition fails ever after (`let_fails`).
-/

namespace Tern

open Eval

namespace Bindings

variable {α : Type}

theorem names_prefix_put (b : Bindings α) (name : String) (v : α) :
    b.names <+: (b.put name v).names := by
  rw [names_put]
  split
  · exact List.prefix_refl _
  · exact List.prefix_append ..

theorem names_put_of_holds {b : Bindings α} {name : String} (h : b.holds name = true) (v : α) :
    (b.put name v).names = b.names := by
  rw [names_put, if_pos (holds_iff_mem_names.mp h)]

end Bindings

/-! ## One evaluation -/

/-- A struct definition from before is one that is known already, by its name and fields. -/
def Store.Older (s₀ : Store) : Value → Prop
  | .struct r => r.id < s₀.methods.size → s₀.Holds (.struct r)
  | _ => True

/-- What an evaluation in `e` has done to the names of `s₀`. -/
structure Store.Grown (s₀ : Store) (e : LayerId) (s : Store) : Prop where
  size : s₀.layers.size ≤ s.layers.size
  others : ∀ l, l < s₀.layers.size → l ≠ e → (s.bindings l).names = (s₀.bindings l).names
  own : (s₀.bindings e).names <+: (s.bindings e).names
  structs : s₀.methods.size ≤ s.methods.size
  methods : ∀ r, (s₀.methodsOf r).names <+: (s.methodsOf r).names

namespace Store

variable {s₀ s : Store} {e : LayerId}

theorem grown_refl (s : Store) (e : LayerId) : s.Grown e s :=
  ⟨Nat.le_refl _, fun _ _ _ => rfl, List.prefix_refl _, Nat.le_refl _,
    fun _ => List.prefix_refl _⟩

theorem Grown.bind (h : s₀.Grown e s) {a : LayerId} (ha : a = e ∨ s₀.layers.size ≤ a)
    (name : String) (v : Value) : s₀.Grown e (s.bind a name v) := by
  refine ⟨?_, fun l hl hne => ?_, ?_, h.structs, h.methods⟩
  · rw [size_bind]
    exact h.size
  · have hal : a ≠ l := by
      rintro rfl
      rcases ha with rfl | ha
      · exact hne rfl
      · exact Nat.not_le.mpr hl ha
    rw [bindings_bind_of_ne s a name v hal]
    exact h.others l hl hne
  · rcases s.bindings_bind a name v e with hb | ⟨-, hb⟩
    · rw [hb]
      exact h.own
    · rw [hb]
      exact h.own.trans (Bindings.names_prefix_put ..)

/-- Binding a name again where it is bound changes no names. -/
theorem Grown.rebind (h : s₀.Grown e s) {l : LayerId} {name : String}
    (hl : (s.bindings l).holds name = true) (v : Value) : s₀.Grown e (s.bind l name v) := by
  have hsame : ∀ a, ((s.bind l name v).bindings a).names = (s.bindings a).names := by
    intro a
    rcases s.bindings_bind l name v a with hb | ⟨rfl, hb⟩
    · rw [hb]
    · rw [hb, Bindings.names_put_of_holds hl]
  refine ⟨?_, fun a ha hne => ?_, ?_, h.structs, h.methods⟩
  · rw [size_bind]
    exact h.size
  · rw [hsame]
    exact h.others a ha hne
  · rw [hsame]
    exact h.own

theorem Grown.spawn (h : s₀.Grown e s) (a : LayerId) (p : Option LayerId) :
    s₀.Grown e (s.spawn a p).1 := by
  refine ⟨?_, fun l hl hne => ?_, ?_, h.structs, h.methods⟩
  · rw [size_spawn]
    exact Nat.le_succ_of_le h.size
  · rw [bindings_spawn]
    exact h.others l hl hne
  · rw [bindings_spawn]
    exact h.own

theorem names_methodsOf_addStruct (s : Store) (name : String) (fields : List String)
    (r : StructRef) :
    (s.methodsOf r).names <+: ((s.addStruct name fields []).1.methodsOf r).names := by
  by_cases hr : r.id < s.methods.size
  · have hsame : (s.addStruct name fields []).1.methodsOf r = s.methodsOf r := by
      unfold methodsOf addStruct
      rw [Array.getElem?_push_lt hr, Array.getElem?_eq_getElem hr]
    exact hsame ▸ List.prefix_refl _
  · have hnone : (s.methodsOf r).names = [] := by
      unfold methodsOf
      rw [Array.getElem?_eq_none (Nat.le_of_not_lt hr)]
      rfl
    rw [hnone]
    exact List.nil_prefix

theorem names_methodsOf_putMethod (s : Store) (r' : StructRef) (name : String) (f : Function)
    (r : StructRef) :
    (s.methodsOf r).names <+: ((s.putMethod r' name f).methodsOf r).names := by
  unfold methodsOf putMethod
  rw [Array.getElem?_modify]
  split
  · cases s.methods[r.id]? with
    | none => exact List.prefix_refl _
    | some table => exact Bindings.names_prefix_put ..
  · exact List.prefix_refl _

end Store

namespace Policy

/-- Nothing but the own layer and new ones gets new names. -/
def names (s₀ : Store) (e : LayerId) : Policy where
  layer l := l = e ∨ s₀.layers.size ≤ l
  keeps := s₀.Grown e
  part := s₀.Older
  failure _ := True
  shaped := False

theorem lawful_names (s₀ : Store) (e : LayerId) : (names s₀ e).Lawful where
  domain :=
    { plain := by rintro (_ | _) _ <;> trivial
      define := fun _ _ _ _ => trivial
      body := fun _ => False.elim
      range := fun _ _ => trivial
      ranged := fun _ _ => trivial
      documented := fun _ => trivial
      located := fun _ _ => trivial
      unshaped := fun _ _ => trivial }
  bind name v hs he := hs.keeps.bind he name v
  rebind v hs _ hl := hs.keeps.rebind (Store.within_of_owner? hl).2 v
  spawn hs _ _ _ := ⟨hs.keeps.spawn _ _, Or.inr hs.keeps.size⟩
  addStruct name fields hs := by
    obtain ⟨h1, h2, h3, h4, h5⟩ := hs.keeps
    refine ⟨⟨h1, h2, h3, ?_, fun r => ?_⟩, fun hlt => ?_⟩
    · simp only [Store.addStruct, Array.size_push]
      exact Nat.le_succ_of_le h4
    · exact (h5 r).trans (Store.names_methodsOf_addStruct ..)
    · exact absurd h4 (Nat.not_le.mpr hlt)
  putMethod r name f hs := by
    obtain ⟨h1, h2, h3, h4, h5⟩ := hs.keeps
    refine ⟨h1, h2, h3, ?_, fun r' => ?_⟩
    · simp only [Store.putMethod, Array.size_modify]
      exact h4
    · exact (h5 r').trans (Store.names_methodsOf_putMethod ..)
  write _ hs := ⟨hs.keeps.1, hs.keeps.2, hs.keeps.3, hs.keeps.4, hs.keeps.5⟩
  record _ hs := ⟨hs.keeps.1, hs.keeps.2, hs.keeps.3, hs.keeps.4, hs.keeps.5⟩
  builtin? _ _ _ := trivial

theorem admits_names (s : Store) (e : LayerId) : (names s e).Admits s := by
  refine ⟨Store.grown_refl s e, Store.all_iff_holds.mpr fun u hu => ?_, fun _ _ _ _ => False.elim⟩
  cases u with
  | struct r => exact fun _ => hu
  | _ => trivial

theorem names_admitted (limit depth : Nat) (n : Node) (e : LayerId) (s : Store) :
    (names s e).Ends (names s e).value (evalNode limit depth n e s).1 ∧
      (names s e).Admits (evalNode limit depth n e s).2 :=
  have h := safe_evalNode (lawful_names s e) limit depth ⟨Or.inl rfl, False.elim⟩ False.elim s
    (admits_names s e).at
  ⟨h.1, h.2.toAdmits⟩

end Policy

/-! ## A run -/

/-- A store that a run may have come to from another, as far as the layers go: between two
evaluations, or in the middle of one. -/
inductive Store.Later (s : Store) : Store → Prop
  | refl : Later s s
  | bind {t : Store} (h : Later s t) (e : LayerId) (name : String) (v : Value) :
      Later s (t.bind e name v)
  | spawn {t : Store} (h : Later s t) (e : LayerId) (p : Option LayerId) :
      Later s (t.spawn e p).1
  | other {t u : Store} (h : Later s t) (hu : u.layers = t.layers) : Later s u

theorem Policy.lawful_later (s : Store) : (onLayers (fun _ => True) s.Later).Lawful :=
  lawful_onLayers (fun _ _ ht h => h.other ht) (fun _ e name v h _ => h.bind e name v)
    (fun _ _ l name v h _ _ => h.bind l name v) (fun _ e p h _ _ => ⟨h.spawn e p, trivial⟩)

/-- Every evaluation leads to a later store. -/
theorem later_evalNode (limit depth : Nat) (n : Node) (e : LayerId) (s : Store) :
    s.Later (evalNode limit depth n e s).2 :=
  Policy.keeps_evalNode (Policy.lawful_later s) limit depth n trivial .refl

theorem Store.Later.names_prefix {s t : Store} (h : s.Later t) (l : LayerId) :
    (s.bindings l).names <+: (t.bindings l).names := by
  induction h with
  | refl => exact List.prefix_refl _
  | @bind t _ e name v ih =>
      rcases t.bindings_bind e name v l with hb | ⟨-, hb⟩
      · rw [hb]
        exact ih
      · rw [hb]
        exact ih.trans (Bindings.names_prefix_put ..)
  | spawn _ e p ih =>
      rw [bindings_spawn]
      exact ih
  | @other t u _ hu ih =>
      rw [bindings_of_layers hu]
      exact ih

theorem Store.Later.holds {s t : Store} (h : s.Later t) {l : LayerId} {name : String}
    (hs : (s.bindings l).holds name = true) : (t.bindings l).holds name = true :=
  Bindings.holds_iff_mem_names.mpr
    ((h.names_prefix l).subset (Bindings.holds_iff_mem_names.mp hs))

/-- `let name = value`. -/
def Node.letOf (name : String) (value : Node) (pos posName : Option Pos) : Node :=
  .tree .assign [.token .ident name posName, value] pos

/-- A definition of a bound name fails once its value is known. -/
theorem let_of_value {limit depth : Nat} {l : LayerId} {name : String} {value : Node}
    {pos posName : Option Pos} {s t : Store} {v : Value}
    (hs : (s.bindings l).holds name = true)
    (hv : evalNode limit depth value l s = (.ok v, t)) :
    evalNode limit (depth + 1) (.letOf name value pos posName) l s =
      (.error (.raised ⟨.variableDefined name, (Node.letOf name value pos posName).position?⟩),
        t) := by
  have ht : (t.bindings l).holds name = true := by
    have := (later_evalNode limit depth value l s).holds hs
    rwa [hv] at this
  simp only [evalNode, located, Node.letOf, step, tree, assign, expectIdent, Node.identName?,
    bind_apply, pure_apply, hv, view, ht, if_true]
  rfl

/-- A definition of a bound name fails. -/
theorem let_fails (limit depth : Nat) {l : LayerId} {name : String} (value : Node)
    (pos posName : Option Pos) {s : Store} (hs : (s.bindings l).holds name = true) :
    ∃ f, (evalNode limit depth (.letOf name value pos posName) l s).1 = .error f := by
  cases depth with
  | zero => exact ⟨.tooDeep, rfl⟩
  | succ depth =>
      rcases hv : evalNode limit depth value l s with ⟨f | v, t⟩
      · simp only [evalNode, located, Node.letOf, step, tree, assign, expectIdent,
          Node.identName?, bind_apply, pure_apply, hv]
        cases f <;> exact ⟨_, rfl⟩
      · rw [let_of_value hs hv]
        exact ⟨_, rfl⟩

/-- Whatever becomes of an evaluation, every layer keeps its names in their order, and only its
own layer and new ones get more; what is known of the struct definitions from before is what was
known, and their tables of methods keep their names in order. A name that is bound in a layer is
bound there in all later stores, and defining it there fails. -/
theorem names_evalNode (limit depth : Nat) (n : Node) (e : LayerId) (s : Store) :
    (∀ l, (s.bindings l).names <+: ((evalNode limit depth n e s).2.bindings l).names) ∧
    (∀ l, l < s.layers.size → l ≠ e →
      ((evalNode limit depth n e s).2.bindings l).names = (s.bindings l).names) ∧
    (∀ r, r.id < s.methods.size →
      (evalNode limit depth n e s).2.Holds (.struct r) → s.Holds (.struct r)) ∧
    (∀ r v, r.id < s.methods.size → (evalNode limit depth n e s).1 = .ok v →
      (Value.struct r).Part v → s.Holds (.struct r)) ∧
    (∀ r, (s.methodsOf r).names <+: ((evalNode limit depth n e s).2.methodsOf r).names) ∧
    s.Later (evalNode limit depth n e s).2 ∧
    ∀ t l name, s.Later t → (s.bindings l).holds name = true →
      (t.bindings l).holds name = true ∧
      (∀ limit depth value pos posName,
        ∃ f, (evalNode limit depth (.letOf name value pos posName) l t).1 = .error f) ∧
      ∀ limit depth value pos posName v u, evalNode limit depth value l t = (.ok v, u) →
        evalNode limit (depth + 1) (.letOf name value pos posName) l t =
          (.error (.raised
            ⟨.variableDefined name, (Node.letOf name value pos posName).position?⟩), u) := by
  have hlater := later_evalNode limit depth n e s
  obtain ⟨hvalue, hadmits⟩ := Policy.names_admitted limit depth n e s
  have hgrown : s.Grown e _ := hadmits.keeps
  refine ⟨hlater.names_prefix, hgrown.others, fun r hr hold => ?_, fun r v hr hv hpart => ?_,
    hgrown.methods, hlater, fun t l name ht hs => ?_⟩
  · exact Store.all_iff_holds.mp hadmits.values _ hold hr
  · rw [hv] at hvalue
    exact hvalue _ hpart hr
  · have hbound := ht.holds hs
    exact ⟨hbound, fun limit depth value pos posName => let_fails limit depth value pos posName
      hbound, fun _ _ _ _ _ _ _ hv => let_of_value hbound hv⟩

end Tern
