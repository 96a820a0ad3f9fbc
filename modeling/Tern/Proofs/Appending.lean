import Tern.Proofs.Forests
import Tern.Proofs.Shifts

/-!
# Stores behind stores

Behind all that a store has, another store can be put whole, with the numbers in it shifted by what
is there already (`Store.append`). What is looked up in the layers that have been put there is what
was looked up before, shifted (`Grounded.lookup?_append`), and an operation on them is the operation
on the store before it was put there (`Store.append_bind` and the like).

For this the store must not refer to what it does not have, which would be something else behind
another store. It is `Store.Grounded` when each layer is newer than its parent and the frames of all
functions, in whatever values and tables of methods they are, are layers that there are. No
operation takes this away, as long as what is bound and defined is `Framed`.
-/

namespace Tern

/-! ## Frames -/

/-- The function's frame is one of the first so many layers. -/
def Function.Framed (n : Nat) (f : Function) : Prop := ∃ l, f.frame = some l ∧ l < n

theorem Function.Framed.mono {m n : Nat} {f : Function} (h : f.Framed m) (hmn : m ≤ n) :
    f.Framed n := by
  obtain ⟨l, hl, hlt⟩ := h
  exact ⟨l, hl, Nat.lt_of_lt_of_le hlt hmn⟩

namespace Value

/-- The value is no function, or one whose frame is there. -/
def InFrame (n : Nat) (v : Value) : Prop := ∀ f, v = .function f → f.Framed n

/-- The frames of all functions in the value are among the first so many layers. -/
def Framed (n : Nat) (v : Value) : Prop := v.All (InFrame n)

variable {m n : Nat} {v : Value}

theorem Framed.mono (h : v.Framed m) (hmn : m ≤ n) : v.Framed n :=
  fun u hu f hf => (h u hu f hf).mono hmn

theorem framed_function {f : Function} (h : f.Framed n) : (function f).Framed n :=
  all_of_simple (by rintro _ ⟨⟩) (by rintro _ _ ⟨⟩) (by rintro _ ⟨⟩; exact h)

theorem Framed.function {f : Function} (h : (Value.function f).Framed n) : f.Framed n :=
  h.here f rfl

theorem framed_struct (r : StructRef) : (struct r).Framed n :=
  all_of_simple (by rintro _ ⟨⟩) (by rintro _ _ ⟨⟩) (by rintro _ ⟨⟩)

theorem framed_list {items : List Value} (h : ∀ v ∈ items, v.Framed n) : (list items).Framed n :=
  all_list (by rintro _ ⟨⟩) h

theorem framed_object {name : String} {fields : List (String × Value)}
    (h : ∀ q ∈ fields, q.2.Framed n) : (object name fields).Framed n :=
  all_object (by rintro _ ⟨⟩) h

theorem Inert.framed (h : v.Inert) : v.Framed n := by
  cases h <;> exact all_of_simple (by rintro _ ⟨⟩) (by rintro _ _ ⟨⟩) (by rintro _ ⟨⟩)

end Value

namespace Store

variable {s t : Store} {e l : LayerId} {v : Value}

/-! ## Grounded stores -/

/-- Nothing refers to a layer that is not there, and a parent is older than its children. -/
structure Grounded (s : Store) : Prop extends s.Forest where
  values : s.All (Value.InFrame s.layers.size)
  methods : ∀ (i : Nat) (table : Bindings Function), s.methods[i]? = some table →
    ∀ q ∈ table, q.2.Framed s.layers.size

theorem grounded_root (config : Config) : (root config).Grounded where
  toForest := forest_root config
  values l q hq := by cases l <;> cases hq
  methods i table h := by cases h

theorem All.inFrame_mono {m n : Nat} (h : s.All (Value.InFrame m)) (hmn : m ≤ n) :
    s.All (Value.InFrame n) :=
  fun l q hq => Value.Framed.mono (h l q hq) hmn

namespace Grounded

variable (h : s.Grounded)

include h

theorem framed_of_lookup? {x : String} (hv : s.lookup? e x = some v) :
    v.Framed s.layers.size := h.values.lookup? hv

theorem framed_of_method? {r : StructRef} {x : String} {f : Function}
    (hf : (s.methodsOf r).get? x = some f) : f.Framed s.layers.size := by
  unfold methodsOf at hf
  cases htable : s.methods[r.id]? with
  | none =>
    rw [htable] at hf
    cases hf
  | some table =>
    rw [htable] at hf
    exact h.methods r.id table htable _ (Bindings.mem_of_get? hf)

/-- Only layers and methods matter. -/
theorem of_layers (hlayers : t.layers = s.layers) (hmethods : t.methods = s.methods) :
    t.Grounded := by
  obtain ⟨layers, methods, registries, written, log⟩ := t
  obtain rfl := hlayers
  obtain rfl := hmethods
  exact ⟨⟨h.older⟩, h.values, h.methods⟩

theorem bind (e : LayerId) (x : String) (hv : v.Framed s.layers.size) :
    (s.bind e x v).Grounded where
  toForest := h.toForest.bind e x v
  values := by
    rw [size_bind]
    exact h.values.bind e x hv
  methods := by
    rw [size_bind]
    exact h.methods

theorem spawn (source : LayerId) {parent : Option LayerId}
    (hp : ∀ q, parent = some q → q < s.layers.size) : (s.spawn source parent).1.Grounded where
  toForest := h.toForest.spawn source hp
  values := by
    rw [size_spawn]
    exact (h.values.spawn source parent).inFrame_mono (Nat.le_succ _)
  methods i table htable q hq := by
    rw [size_spawn]
    exact (h.methods i table htable q hq).mono (Nat.le_succ _)

theorem addStruct (name : String) (fields : List String) :
    (s.addStruct name fields []).1.Grounded where
  older := h.older
  values := h.values
  methods i table htable := by
    simp only [Store.addStruct, Array.getElem?_push] at htable
    split at htable
    · cases htable
      exact List.forall_mem_nil _
    · exact h.methods i table htable

theorem putMethod (r : StructRef) (x : String) {f : Function} (hf : f.Framed s.layers.size) :
    (s.putMethod r x f).Grounded where
  older := h.older
  values := h.values
  methods i table htable q hq := by
    simp only [Store.putMethod, Array.getElem?_modify] at htable
    split at htable
    · obtain ⟨old, hold, rfl⟩ := Option.map_eq_some_iff.mp htable
      obtain hq | rfl := Bindings.mem_put hq
      · exact h.methods i old hold q hq
      · exact hf
    · exact h.methods i table htable q hq

end Grounded

/-! ## Appending -/

/-- What is there already. -/
def offset (s : Store) : Offset := ⟨s.layers.size, s.methods.size, s.registries.size⟩

/-- A store with all that another has behind what it has itself. What has been written and recorded
is the other's. -/
def append (base s : Store) : Store where
  layers := base.layers ++ s.layers.map (Layer.shift base.offset)
  methods := base.methods ++ s.methods.map (List.map (Prod.map id (Function.shift base.offset)))
  registries := base.registries ++ s.registries
  written := s.written
  log := s.log

variable (base : Store)

theorem size_append (s : Store) :
    (base.append s).layers.size = s.layers.size + base.layers.size := by
  rw [append, Array.size_append, Array.size_map, Nat.add_comm]

theorem getElem?_append_add {α : Type} (xs ys : Array α) (i : Nat) :
    (xs ++ ys)[i + xs.size]? = ys[i]? := by
  rw [Array.getElem?_append_right (Nat.le_add_left ..), Nat.add_sub_cancel]

theorem modify_append_add {α : Type} (xs ys : Array α) (i : Nat) (f : α → α) :
    (xs ++ ys).modify (i + xs.size) f = xs ++ ys.modify i f := by
  refine Array.ext_getElem? fun j => ?_
  rw [Array.getElem?_modify, Array.getElem?_append, Array.getElem?_append, Array.getElem?_modify]
  by_cases hj : j < xs.size
  · rw [if_pos hj, if_neg (by omega), if_pos hj]
  · have hsame : i + xs.size = j ↔ i = j - xs.size := by omega
    rw [if_neg hj, if_neg hj]
    exact if_congr hsame rfl rfl

/-- Changing an item before or after all items have been changed. -/
theorem modify_map {α β : Type} (xs : Array α) (i : Nat) {g : α → β} {f : α → α} {f' : β → β}
    (hf : ∀ a, f' (g a) = g (f a)) : (xs.map g).modify i f' = (xs.modify i f).map g := by
  refine Array.ext_getElem? fun j => ?_
  rw [Array.getElem?_modify, Array.getElem?_map, Array.getElem?_map, Array.getElem?_modify]
  split
  · cases xs[j]? with
    | none => rfl
    | some a => exact congrArg some (hf a)
  · rfl

theorem layer_append (h : e < s.layers.size) :
    (base.append s).layer (e + base.layers.size) = (s.layer e).shift base.offset := by
  unfold layer append
  rw [getElem?_append_add, Array.getElem?_map, Array.getElem?_eq_getElem h]
  rfl

theorem parent?_append (s : Store) (e : LayerId) :
    (base.append s).parent? (e + base.layers.size) =
      (s.parent? e).map (· + base.layers.size) := by
  unfold parent? layer append
  rw [getElem?_append_add, Array.getElem?_map]
  cases s.layers[e]? <;> rfl

theorem bindings_append (s : Store) (e : LayerId) :
    (base.append s).bindings (e + base.layers.size) =
      (s.bindings e).map (Prod.map id (Value.shift base.offset)) := by
  unfold bindings layer append
  rw [getElem?_append_add, Array.getElem?_map]
  cases s.layers[e]? <;> rfl

theorem config_append (s : Store) (e : LayerId) :
    (base.append s).config (e + base.layers.size) = s.config e := by
  unfold config layer append
  rw [getElem?_append_add, Array.getElem?_map]
  cases s.layers[e]? <;> rfl

theorem builtin?_append (h : e < s.layers.size) (x : String) :
    (base.append s).builtin? (e + base.layers.size) x = s.builtin? e x := by
  unfold builtin? builtins
  rw [layer_append base h]
  congr 2
  exact getElem?_append_add base.registries s.registries _

theorem methodsOf_append (s : Store) (r : StructRef) :
    (base.append s).methodsOf (r.shift base.offset) =
      (s.methodsOf r).map (Prod.map id (Function.shift base.offset)) := by
  unfold methodsOf append
  show ((_ ++ _)[r.id + base.methods.size]?).getD [] = _
  rw [getElem?_append_add, Array.getElem?_map]
  cases s.methods[r.id]? <;> rfl

/-! ### Looking outward -/

theorem outwardFrom_append (s : Store) : ∀ (n : Nat) (e : LayerId),
    (base.append s).outwardFrom n (e + base.layers.size) =
      (s.outwardFrom n e).map (· + base.layers.size)
  | 0, _ => rfl
  | n + 1, e => by
    unfold outwardFrom
    rw [parent?_append, List.map_cons]
    cases s.parent? e with
    | none => rfl
    | some p => exact congrArg (_ :: ·) (outwardFrom_append s n p)

theorem Forest.outward_append (hs : s.Forest) (h : e < s.layers.size) :
    (base.append s).outward (e + base.layers.size) =
      (s.outward e).map (· + base.layers.size) := by
  have hlong : s.outwardFrom (e + base.layers.size + 1) e = s.outwardFrom (e + 1) e :=
    (hs.rooted h).outwardFrom_eq (Nat.lt_succ_of_le (Nat.le_add_right ..)) (Nat.lt_succ_self e)
  rw [outward, outwardFrom_append, hlong]
  rfl

theorem Forest.owner?_append (hs : s.Forest) (h : e < s.layers.size) (x : String) :
    (base.append s).owner? (e + base.layers.size) x =
      (s.owner? e x).map (· + base.layers.size) := by
  unfold owner?
  rw [hs.outward_append base h, List.find?_map]
  congr 2
  funext l
  rw [Function.comp_apply, bindings_append, Bindings.holds_map]

theorem Forest.lookup?_append (hs : s.Forest) (h : e < s.layers.size) (x : String) :
    (base.append s).lookup? (e + base.layers.size) x =
      (s.lookup? e x).map (Value.shift base.offset) := by
  unfold lookup?
  rw [hs.outward_append base h]
  induction s.outward e with
  | nil => rfl
  | cons l rest ih =>
    rw [List.map_cons, List.findSome?_cons, List.findSome?_cons, ih, bindings_append,
      Bindings.get?_map]
    cases (s.bindings l).get? x <;> rfl

/-! ### Operations -/

theorem append_bind (s : Store) (e : LayerId) (x : String) (v : Value) :
    (base.append s).bind (e + base.layers.size) x (v.shift base.offset) =
      base.append (s.bind e x v) := by
  have hlayers : (s.layers.map (Layer.shift base.offset)).modify e
        (fun l => { l with bindings := l.bindings.put x (v.shift base.offset) }) =
      (s.layers.modify e fun l => { l with bindings := l.bindings.put x v }).map
        (Layer.shift base.offset) :=
    modify_map _ _ fun l => congrArg (Layer.mk _ · _ _) (Bindings.put_map _ _ _ _)
  unfold bind append
  rw [← hlayers, ← modify_append_add]

theorem append_spawn (h : e < s.layers.size) (parent : Option LayerId) :
    (base.append s).spawn (e + base.layers.size) (parent.map (· + base.layers.size)) =
      (base.append (s.spawn e parent).1, (s.spawn e parent).2 + base.layers.size) := by
  unfold spawn push
  rw [layer_append base h, size_append]
  refine congrArg (Prod.mk · _) ?_
  unfold append
  rw [Array.map_push, Array.append_push]
  rfl

theorem append_addStruct (s : Store) (name : String) (fields : List String) :
    (base.append s).addStruct name fields [] =
      (base.append (s.addStruct name fields []).1,
        (s.addStruct name fields []).2.shift base.offset) := by
  unfold addStruct append
  refine Prod.ext ?_ ?_
  · show Store.mk _ _ _ _ _ = Store.mk _ _ _ _ _
    rw [Array.map_push, Array.append_push]
    rfl
  · show StructRef.mk _ _ _ = StructRef.mk _ _ _
    rw [Array.size_append, Array.size_map, Nat.add_comm]
    rfl

theorem append_putMethod (s : Store) (r : StructRef) (x : String) (f : Function) :
    (base.append s).putMethod (r.shift base.offset) x (f.shift base.offset) =
      base.append (s.putMethod r x f) := by
  have hmethods : (s.methods.map (List.map (Prod.map id (Function.shift base.offset)))).modify r.id
        (fun table => Bindings.put table x (f.shift base.offset)) =
      (s.methods.modify r.id fun table => table.put x f).map
        (List.map (Prod.map id (Function.shift base.offset))) :=
    modify_map _ _ fun table => Bindings.put_map _ _ _ _
  unfold putMethod append
  rw [← hmethods, ← modify_append_add]
  rfl

/-- A new root behind what there is. -/
theorem append_root (config : Config) (hwritten : base.written = #[]) (hlog : base.log = #[]) :
    base.append (root config) = (base.addRoot config).1 := by
  simp [append, root, empty, addRoot, push, Layer.shift, offset, hwritten, hlog]

end Store

end Tern
