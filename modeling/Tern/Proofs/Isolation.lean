import Tern.Proofs.Frame

/-!
# What an evaluation cannot see

Two runs side by side, from stores that differ in nothing but the bindings of layers out of
scope. `Twins` is what stays true of the pair: the layers that evaluation may touch are the same
on both sides and all others are as they were, and so what has been written and recorded on the
way is the same. To end alike and to stay twins is a logic (`twinLogic`), hence true of every
evaluation.

The layer of a function's body is its own scope, so that a name is bound there for the body only
when it is the function's or a parameter (`enterFunction_lookup?`).
-/

namespace Tern

open Eval Policy

/-- Stores that differ in nothing but the bindings of layers out of the scope of `e`, the text
written and the log. -/
structure Store.AlikeFrom (s t : Store) (e : LayerId) : Prop where
  size : s.layers.size = t.layers.size
  parent : ∀ l, s.parent? l = t.parent? l
  config : ∀ l, s.config l = t.config l
  registry : ∀ l, (s.layer l).registry = (t.layer l).registry
  bindings : ∀ l, s.Within e l → s.bindings l = t.bindings l
  methods : s.methods = t.methods
  registries : s.registries = t.registries

/-- Two stores that evaluations in `e` have come to side by side, from `s₀` and `t₀`. -/
structure Store.Twins (s₀ t₀ : Store) (e : LayerId) (s t : Store) : Prop where
  left : s₀.Framed e s
  right : t₀.Framed e t
  size : s.layers.size = t.layers.size
  seen : ∀ l, s₀.Touches e l → s.layer l = t.layer l
  methods : s.methods = t.methods
  registries : s.registries = t.registries
  written : ∃ w, s.written = s₀.written ++ w ∧ t.written = t₀.written ++ w
  log : ∃ w, s.log = s₀.log ++ w ∧ t.log = t₀.log ++ w

namespace Store

variable {s₀ t₀ s t : Store} {e : LayerId}

theorem layer_ext {l : LayerId} (hp : s.parent? l = t.parent? l)
    (hb : s.bindings l = t.bindings l) (hr : (s.layer l).registry = (t.layer l).registry)
    (hc : s.config l = t.config l) : s.layer l = t.layer l := by
  unfold parent? bindings config at *
  cases hs : s.layer l
  cases ht : t.layer l
  simp_all

theorem AlikeFrom.touches_iff (h : s₀.AlikeFrom t₀ e) {l : LayerId} :
    s₀.Touches e l ↔ t₀.Touches e l := by
  unfold Touches
  rw [h.size]
  exact or_congr_right ⟨.of_parent? h.parent, .of_parent? fun l => (h.parent l).symm⟩

theorem twins_refl (h : s₀.AlikeFrom t₀ e) (hoff : (s₀.config e).lexicalScope = false) :
    s₀.Twins t₀ e s₀ t₀ where
  left := framed_refl hoff
  right := framed_refl (by rw [← h.config, hoff])
  size := h.size
  seen l hl := by
    rcases hl with hl | hl
    · rw [layer, layer, Array.getElem?_eq_none hl, Array.getElem?_eq_none (h.size ▸ hl)]
    · exact layer_ext (h.parent l) (h.bindings l hl) (h.registry l) (h.config l)
  methods := h.methods
  registries := h.registries
  written := ⟨#[], by simp, by simp⟩
  log := ⟨#[], by simp, by simp⟩

/-! ## The same operation on both sides -/

variable (h₀ : s₀.AlikeFrom t₀ e) (h : s₀.Twins t₀ e s t) {a : LayerId}

include h₀ h

theorem Twins.bind (ha : s₀.Touches e a) (name : String) (v : Value) :
    s₀.Twins t₀ e (s.bind a name v) (t.bind a name v) := by
  refine ⟨h.left.bind ha name v, h.right.bind (h₀.touches_iff.mp ha) name v, ?_, fun l hl => ?_,
    h.methods, h.registries, h.written, h.log⟩
  · rw [size_bind, size_bind, h.size]
  · rw [layer_bind, layer_bind, Store.bindings, Store.bindings, h.size, h.seen l hl]

theorem Twins.spawn (ha : a = e ∨ s₀.layers.size ≤ a) {p : Option LayerId}
    (hp : ∀ q, p = some q → q = a) :
    s₀.Twins t₀ e (s.spawn a p).1 (t.spawn a p).1 := by
  refine ⟨h.left.spawn ha hp, h.right.spawn (h₀.size ▸ ha) hp, ?_, fun l hl => ?_,
    h.methods, h.registries, h.written, h.log⟩
  · rw [size_spawn, size_spawn, h.size]
  · rw [layer_spawn, layer_spawn, h.size, h.seen a (touches_of_mem ha), h.seen l hl]

/-- Twins differ in nothing but what their origins differ in. -/
theorem Twins.alike : s.AlikeFrom t e := by
  have hlayer : ∀ l, s₀.Touches e l ∨ (s.layer l = s₀.layer l ∧ t.layer l = t₀.layer l) := by
    intro l
    by_cases hl : s₀.Touches e l
    · exact Or.inl hl
    · exact Or.inr ⟨h.left.untouched l hl, h.right.untouched l (mt h₀.touches_iff.mpr hl)⟩
  refine ⟨h.size, fun l => ?_, fun l => ?_, fun l => ?_, fun l hl => ?_, h.methods, h.registries⟩
  · rcases hlayer l with hl | ⟨hs, ht⟩
    · exact congrArg Layer.parent (h.seen l hl)
    · rw [parent?, parent?, hs, ht]
      exact h₀.parent l
  · rcases hlayer l with hl | ⟨hs, ht⟩
    · exact congrArg Layer.config (h.seen l hl)
    · rw [Store.config, Store.config, hs, ht]
      exact h₀.config l
  · rcases hlayer l with hl | ⟨hs, ht⟩
    · rw [h.seen l hl]
    · rw [hs, ht]
      exact h₀.registry l
  · exact congrArg Layer.bindings (h.seen l (hl.mem_of_closed (Or.inr .self) h.left.closed))

omit h₀

theorem Twins.addStruct (name : String) (fields : List String) :
    s₀.Twins t₀ e (s.addStruct name fields []).1 (t.addStruct name fields []).1 :=
  ⟨h.left.of_layers rfl, h.right.of_layers rfl, h.size, h.seen,
    congrArg (·.push []) h.methods, h.registries, h.written, h.log⟩

theorem Twins.putMethod (r : StructRef) (name : String) (f : Function) :
    s₀.Twins t₀ e (s.putMethod r name f) (t.putMethod r name f) :=
  ⟨h.left.of_layers rfl, h.right.of_layers rfl, h.size, h.seen,
    congrArg (·.modify r.id fun table => table.put name f) h.methods, h.registries, h.written,
    h.log⟩

theorem Twins.write (text : String) : s₀.Twins t₀ e (s.write text) (t.write text) := by
  obtain ⟨w, hs, ht⟩ := h.written
  refine ⟨h.left.of_layers rfl, h.right.of_layers rfl, h.size, h.seen, h.methods, h.registries,
    ⟨w.push text, ?_, ?_⟩, h.log⟩
  · rw [Store.write, hs, Array.append_push]
  · rw [Store.write, ht, Array.append_push]

theorem Twins.record (event : Event) : s₀.Twins t₀ e (s.record event) (t.record event) := by
  obtain ⟨w, hs, ht⟩ := h.log
  refine ⟨h.left.of_layers rfl, h.right.of_layers rfl, h.size, h.seen, h.methods, h.registries,
    h.written, ⟨w.push event, ?_, ?_⟩⟩
  · rw [Store.record, hs, Array.append_push]
  · rw [Store.record, ht, Array.append_push]

theorem Twins.lookup? (ha : s₀.Touches e a) (name : String) :
    s.lookup? a name = t.lookup? a name := lookup?_congr h.left.closed h.seen ha name

theorem Twins.owner? (ha : s₀.Touches e a) (name : String) :
    s.owner? a name = t.owner? a name := owner?_congr h.left.closed h.seen ha name

theorem Twins.config (ha : s₀.Touches e a) : s.config a = t.config a :=
  congrArg Layer.config (h.seen a ha)

theorem Twins.builtin? (ha : s₀.Touches e a) (name : String) :
    s.builtin? a name = t.builtin? a name := by
  unfold Store.builtin? builtins
  rw [h.registries, h.seen a ha]

end Store

/-! ## The logic of twins -/

section Logic

variable {α β : Type} {Q : α → Prop} {R : β → Prop} {s₀ t₀ : Store} {e : LayerId}

/-- From twins, an evaluation ends in the same way on both sides and leaves twins. -/
def TwinSafe (s₀ t₀ : Store) (e : LayerId) (x : Eval α) (Q : α → Prop) : Prop :=
  ∀ s t, s₀.Twins t₀ e s t → (x s).1 = (x t).1 ∧ (∀ a, (x s).1 = .ok a → Q a) ∧
    s₀.Twins t₀ e (x s).2 (x t).2

theorem TwinSafe.bind {x : Eval α} {f : α → Eval β} (hx : TwinSafe s₀ t₀ e x Q)
    (hf : ∀ a, Q a → TwinSafe s₀ t₀ e (f a) R) : TwinSafe s₀ t₀ e (x >>= f) R := by
  intro s t h
  obtain ⟨hr, hq, h'⟩ := hx s t h
  rw [bind_apply, bind_apply]
  rcases hs : x s with ⟨r, s'⟩
  rcases ht : x t with ⟨r', t'⟩
  rw [hs, ht] at hr h'
  rw [hs] at hq
  cases hr
  cases r with
  | error f => exact ⟨rfl, fun _ ha => (by cases ha), h'⟩
  | ok a => exact hf a (hq a rfl) s' t' h'

/-- What twins show alike. -/
theorem twinSafe_view {f : Store → α} (hf : ∀ s t, s₀.Twins t₀ e s t → f s = f t)
    (hQ : ∀ a, Q a) : TwinSafe s₀ t₀ e (view f) Q :=
  fun s t h => ⟨congrArg Except.ok (hf s t h), fun a _ => hQ a, h⟩

theorem twinSafe_update {f : Store → Store}
    (hf : ∀ s t, s₀.Twins t₀ e s t → s₀.Twins t₀ e (f s) (f t)) :
    TwinSafe s₀ t₀ e (update f) fun _ => True :=
  fun s t h => ⟨rfl, fun _ _ => trivial, hf s t h⟩

theorem twinSafe_attempt {x : Eval α} (hx : TwinSafe s₀ t₀ e x Q) :
    TwinSafe s₀ t₀ e (attempt x) fun r => ∀ a, r = .ok a → Q a := by
  intro s t h
  obtain ⟨hr, hq, h'⟩ := hx s t h
  unfold attempt
  rcases hs : x s with ⟨r, s'⟩
  rcases ht : x t with ⟨r', t'⟩
  rw [hs, ht] at hr h'
  rw [hs] at hq
  cases hr
  cases r with
  | ok a =>
      refine ⟨rfl, fun b hb => ?_, h'⟩
      cases hb
      rintro b ⟨⟩
      exact hq a rfl
  | error f =>
      cases f with
      | raised err =>
          refine ⟨rfl, fun b hb => ?_, h'⟩
          cases hb
          rintro _ ⟨⟩
      | _ => exact ⟨rfl, fun _ hb => (by cases hb), h'⟩

theorem twinSafe_located (n : Node) {x : Eval α} (hx : TwinSafe s₀ t₀ e x Q) :
    TwinSafe s₀ t₀ e (located n x) Q := by
  intro s t h
  obtain ⟨hr, hq, h'⟩ := hx s t h
  unfold located
  rcases hs : x s with ⟨r, s'⟩
  rcases ht : x t with ⟨r', t'⟩
  rw [hs, ht] at hr h'
  rw [hs] at hq
  cases hr
  cases r with
  | ok a => exact ⟨rfl, hq, h'⟩
  | error f => cases f <;> exact ⟨rfl, fun _ hb => (by cases hb), h'⟩

theorem twinSafe_addStruct {V : LayerId → Prop} (name : String) (fields : List String) :
    TwinSafe s₀ t₀ e (create (·.addStruct name fields []))
      fun r => (Domain.ofLayers V).value (.struct r) := by
  intro s t h
  refine ⟨?_, fun r _ => Domain.value_ofLayers V (.struct r), h.addStruct name fields⟩
  simp only [create, Store.addStruct, h.methods]

section Access

variable (h₀ : s₀.AlikeFrom t₀ e) {a : LayerId} (ha : a = e ∨ s₀.layers.size ≤ a)

include ha

theorem twinSafe_bound (name : String) :
    TwinSafe s₀ t₀ e (view fun s => (s.bindings a).holds name) fun _ => True := by
  refine twinSafe_view (fun s t h => ?_) fun _ => trivial
  rw [Store.bindings, h.seen a (Store.touches_of_mem ha), Store.bindings]

theorem twinSafe_configOf : TwinSafe s₀ t₀ e (configOf a) fun _ => True :=
  twinSafe_view (fun _ _ h => h.config (Store.touches_of_mem ha)) fun _ => trivial

include h₀

theorem twinSafe_setName (name : String) (v : Value) :
    TwinSafe s₀ t₀ e (setName a name v) fun _ => True := by
  intro s t h
  have ht := Store.touches_of_mem ha
  unfold setName
  rw [← h.owner? ht]
  cases hl : s.owner? a name with
  | none => exact ⟨rfl, fun _ hb => (by cases hb), h⟩
  | some l =>
      have hw := (Store.within_of_owner? hl).1
      exact ⟨rfl, fun _ _ => trivial, h.bind h₀ (hw.mem_of_closed ht h.left.closed) name v⟩

theorem twinSafe_spawn {p : Option LayerId} (hp : ∀ q, p = some q → q = a) :
    TwinSafe s₀ t₀ e (spawn a p) fun l => l = e ∨ s₀.layers.size ≤ l := by
  intro s t h
  refine ⟨congrArg Except.ok h.size, fun l hl => ?_, h.spawn h₀ ha hp⟩
  cases hl
  exact Or.inr h.left.size

theorem twinSafe_calleeLayer (f : Function) :
    TwinSafe s₀ t₀ e (calleeLayer a f) fun l => l = e ∨ s₀.layers.size ≤ l := by
  intro s t h
  have hs := h.left.dynamic a ha
  have ht := h.config (Store.touches_of_mem ha) ▸ hs
  rw [calleeLayer_eq a f hs, calleeLayer_eq a f ht]
  exact twinSafe_spawn h₀ ha (p := none) (fun _ hq => by cases hq) s t h

theorem twinSafe_armLayer :
    TwinSafe s₀ t₀ e (armLayer a) fun l => l = e ∨ s₀.layers.size ≤ l := by
  refine (twinSafe_configOf ha).bind fun c _ => twinSafe_spawn h₀ ha fun q hq => ?_
  split at hq
  · exact (Option.some.inj hq).symm
  · cases hq

end Access

/-- Ending alike and staying twins. -/
def twinLogic (h₀ : s₀.AlikeFrom t₀ e) : Logic where
  toDomain := .ofLayers fun l => l = e ∨ s₀.layers.size ≤ l
  lawful := Domain.lawful_ofLayers _
  Stage := Unit
  knows _ l := l = e ∨ s₀.layers.size ≤ l
  layer_of_knows ha := ha
  Holds _ := TwinSafe s₀ t₀ e
  pure hq _ _ h := ⟨rfl, fun _ ha => (by cases ha; exact hq), h⟩
  fail _ _ _ h := ⟨rfl, fun _ ha => (by cases ha), h⟩
  bind := TwinSafe.bind
  attempt _ hx hok herr := (twinSafe_attempt hx).bind fun r hr => by
    cases r with
    | ok a => exact hok a (hr a rfl)
    | error err =>
        obtain ⟨event, y, -, hf, hy⟩ := herr err
        rw [hf]
        exact (twinSafe_update fun _ _ h => h.record event).bind fun _ _ => hy
  located n h := twinSafe_located n h
  configOf ha _ hf := (twinSafe_configOf ha).bind fun c _ => hf c
  builtin? name ha :=
    twinSafe_view (fun _ _ h => h.builtin? (Store.touches_of_mem ha) name) fun _ _ => trivial
  lookup? name ha hnone _ hsome :=
    (twinSafe_view (Q := fun _ => True)
      (fun _ _ h => h.lookup? (Store.touches_of_mem ha) name) fun _ => trivial).bind fun o _ => by
        cases o with
        | none => exact hnone ▸ fun s t h => ⟨rfl, fun _ ha => (by cases ha), h⟩
        | some v => exact hsome v (Domain.value_ofLayers _ v)
  bound name ha := twinSafe_bound ha name
  bindName name ha _ := twinSafe_update fun _ _ h => h.bind h₀ (Store.touches_of_mem ha) name _
  setName name ha _ := twinSafe_setName h₀ ha name _
  spawn ha hp hf := (twinSafe_spawn h₀ ha hp).bind fun l hl => hf () l (fun _ => id) hl
  calleeLayer f ha hf := (twinSafe_calleeLayer h₀ ha f).bind fun l hl => hf () l (fun _ => id) hl
  armLayer ha hf := (twinSafe_armLayer h₀ ha).bind fun l hl => hf () l (fun _ => id) hl
  method? r name := twinSafe_view
    (fun _ _ h => by rw [Store.methodsOf, h.methods, Store.methodsOf]) fun _ _ _ => False.elim
  addStruct name fields := twinSafe_addStruct name fields
  putMethod r name _ := twinSafe_update fun _ _ h => h.putMethod r name _
  write text := twinSafe_update fun _ _ h => h.write text
  record {_ event} _ := twinSafe_update fun _ _ h => h.record event

end Logic

/-! ## Results -/

variable {s t : Store} {e : LayerId}

theorem twins_evalNode (limit depth : Nat) (n : Node) (h : s.AlikeFrom t e)
    (hoff : (s.config e).lexicalScope = false) :
    (evalNode limit depth n e s).1 = (evalNode limit depth n e t).1 ∧
      s.Twins t e (evalNode limit depth n e s).2 (evalNode limit depth n e t).2 := by
  have hsound := (twinLogic h).sound_evalNode trivial limit depth
  obtain ⟨hr, -, ht⟩ := @hsound () n e (Or.inl rfl) False.elim s t (Store.twins_refl h hoff)
  exact ⟨hr, ht⟩

/-- Evaluating the arguments of a function in a layer that does not see the callee's leaves the
callee's alone: what is bound there is what was, and the parameters. -/
theorem names_of_arguments {limit depth : Nat} {callee : LayerId} :
    ∀ {args : List (String × Node)} {s t : Store}, callee < s.layers.size →
      ¬s.Within e callee → (s.config e).lexicalScope = false →
      forAll (fun (param, n) => do bindName callee param (← evalNode limit depth n e)) args s =
        (.ok (), t) →
      ∀ x ∈ (t.bindings callee).names, x ∈ (s.bindings callee).names ∨ x ∈ args.map (·.1)
  | [], s, t, _, _, _, h, x, hx => by
      cases h
      exact Or.inl hx
  | (param, n) :: rest, s, t, hc, hw, hoff, h, x, hx => by
      obtain ⟨_, s₂, h₂, h⟩ := bind_eq_ok h
      obtain ⟨v, s₁, h₁, h₂⟩ := bind_eq_ok h₂
      cases h₂
      have hframed := framed_evalNode limit depth n hoff
      rw [h₁] at hframed
      have hnot : ¬s.Touches e callee := by
        rintro (hle | hin)
        · exact Nat.not_le.mpr hc hle
        · exact hw hin
      have hc₁ : callee < s₁.layers.size := Nat.lt_of_lt_of_le hc hframed.size
      have hw₁ : ¬(s₁.bind callee param v).Within e callee := by
        intro hin
        have hin₁ := hin.of_parent? (s₁.parent?_bind callee param v)
        exact hnot (hin₁.mem_of_closed (Or.inr .self) hframed.closed)
      have hoff₁ : ((s₁.bind callee param v).config e).lexicalScope = false := by
        rw [Store.config_bind]
        exact hframed.dynamic e (Or.inl rfl)
      rcases names_of_arguments (by simpa using hc₁) hw₁ hoff₁ h x hx with hx | hx
      · have hsame : s₁.bindings callee = s.bindings callee :=
          congrArg Layer.bindings (hframed.untouched callee hnot)
        rw [Store.bindings_bind_self _ _ _ hc₁, Bindings.names_put, hsame] at hx
        split at hx
        · exact Or.inl hx
        · rcases List.mem_append.mp hx with hx | hx
          · exact Or.inl hx
          · exact Or.inr (List.mem_cons.mpr (Or.inl (List.mem_singleton.mp hx)))
      · exact Or.inr (List.mem_cons_of_mem _ hx)

/-- A new layer is out of the scope of every layer whose scope is there already. -/
theorem not_within_spawn {p : Option LayerId} (hscope : ∀ l, s.Within e l → l < s.layers.size) :
    ¬(s.spawn e p).1.Within e s.layers.size := by
  intro hin
  refine Nat.lt_irrefl _ (hscope _ (hin.mem_of_closed .self fun a b ha hb => ?_))
  rw [Store.parent?_spawn, if_neg (Nat.ne_of_lt (hscope a ha))] at hb
  exact ha.outward hb

/-- When the body of a function starts, it sees the function and the parameters alone. -/
theorem enterFunction_lookup? {limit depth : Nat} {f : Function} {args : List Node}
    {callee : LayerId} {s₁ : Store} (hoff : (s.config e).lexicalScope = false)
    (hscope : ∀ l, s.Within e l → l < s.layers.size)
    (h : enterFunction (evalNode limit depth) e f args s = (.ok callee, s₁)) {name : String}
    (hf : name ≠ f.name) (hp : name ∉ f.params) : s₁.lookup? callee name = none := by
  have halone := alone_of_enterFunction hoff h
  obtain ⟨rfl, -, s₂, h₂, rfl⟩ := enterFunction_ok hoff h
  cases hv : (s₂.record (.called f.name f.params)).lookup? s.layers.size name with
  | none => rfl
  | some v =>
      exfalso
      obtain ⟨l, hl, hmem⟩ := Store.lookup?_mem hv
      cases hl.eq_of_root halone.parent
      have hin : name ∈ (s₂.bindings s.layers.size).names := List.mem_map_of_mem (f := (·.1)) hmem
      have hw : ¬((s.spawn e none).1.bind s.layers.size f.name (.function f)).Within e
          s.layers.size := fun hin =>
        not_within_spawn hscope (hin.of_parent? (Store.parent?_bind _ _ _ _))
      have hoff' : (((s.spawn e none).1.bind s.layers.size f.name (.function f)).config
          e).lexicalScope = false := by
        rw [Store.config_bind, Store.config_spawn, ite_self]
        exact hoff
      rcases names_of_arguments (by simp) hw hoff' h₂ name hin with hin | hin
      · rw [Store.bindings_bind_self _ _ _ (by simp), Store.bindings_spawn,
          s.bindings_eq_nil (Nat.le_refl _)] at hin
        exact hf (List.mem_singleton.mp hin)
      · obtain ⟨q, hq, rfl⟩ := List.mem_map.mp hin
        exact hp (List.of_mem_zip hq).1

/-- Without lexical scope, an evaluation has the same outcome in two stores that differ in
nothing but bindings out of scope, writes and records the same, and makes the same changes: what
it may touch is the same afterwards and all other layers are as they were. So the body of a
function sees nothing of its caller but the arguments. -/
theorem evalNode_alike (limit depth : Nat) (n : Node) (s t : Store) (e : LayerId)
    (h : s.AlikeFrom t e) (hoff : (s.config e).lexicalScope = false) :
    (evalNode limit depth n e s).1 = (evalNode limit depth n e t).1 ∧
    (∃ w, (evalNode limit depth n e s).2.written = s.written ++ w ∧
      (evalNode limit depth n e t).2.written = t.written ++ w) ∧
    (∃ w, (evalNode limit depth n e s).2.log = s.log ++ w ∧
      (evalNode limit depth n e t).2.log = t.log ++ w) ∧
    (evalNode limit depth n e s).2.AlikeFrom (evalNode limit depth n e t).2 e ∧
    (∀ l, s.layers.size ≤ l ∨ s.Within e l →
      (evalNode limit depth n e s).2.layer l = (evalNode limit depth n e t).2.layer l) ∧
    (∀ l, l < s.layers.size → ¬s.Within e l →
      (evalNode limit depth n e s).2.layer l = s.layer l ∧
      (evalNode limit depth n e t).2.layer l = t.layer l) ∧
    ((∀ l, s.Within e l → l < s.layers.size) → ∀ f args callee s₁,
      enterFunction (evalNode limit depth) e f args s = (.ok callee, s₁) →
      ∀ name, name ≠ f.name → name ∉ f.params → s₁.lookup? callee name = none) := by
  obtain ⟨hr, ht⟩ := twins_evalNode limit depth n h hoff
  refine ⟨hr, ht.written, ht.log, ht.alike h, ht.seen, fun l hl hw => ?_,
    fun hscope _ _ _ _ henter _ hf hp => enterFunction_lookup? hoff hscope henter hf hp⟩
  have hnot : ¬s.Touches e l := by
    rintro (hle | hin)
    · exact Nat.not_le.mpr hl hle
    · exact hw hin
  exact ⟨ht.left.untouched l hnot, ht.right.untouched l fun hin => hnot (h.touches_iff.mpr hin)⟩

/-- Two roots, and a truth value that only the second sees. -/
def secret (b : Bool) : Store := ((Store.root {}).addRoot {}).1.bind 1 "x" (.bool b)

theorem secret_alike (b c : Bool) : (secret b).AlikeFrom (secret c) 0 := by
  refine ⟨rfl, by simp [secret], by simp [secret], by simp [secret], fun l hl => ?_, rfl, rfl⟩
  cases hl.eq_of_root rfl
  rfl

theorem evalNode_alike_secret :
    (secret true).AlikeFrom (secret false) 0 ∧
    ((secret true).config 0).lexicalScope = false ∧
    (evalNode 9 9 (.token .ident "x" none) 0 (secret true)).1 =
      (evalNode 9 9 (.token .ident "x" none) 0 (secret false)).1 := by
  have h := secret_alike true false
  exact ⟨h, rfl, (evalNode_alike 9 9 (.token .ident "x" none) _ _ 0 h rfl).1⟩

end Tern
