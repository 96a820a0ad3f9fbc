import Tern.Proofs.Policy

/-!
# Where bodies run

A layer keeps its parent and its configuration for as long as it is there (`links_evalNode`). A
body runs in a layer of its own, which is made when the function, the method or the arm is
entered (`BodyStarts`); the arguments of a function are evaluated in between, while the layer is
already there. Only the body of a loop runs in the layer of the loop itself (`turn`).
-/

namespace Tern

open Eval

/-! ## Links -/

/-- The layers of an earlier store are still there, with their parents and configurations. -/
structure Store.Links (s₀ s : Store) : Prop where
  size : s₀.layers.size ≤ s.layers.size
  parent : ∀ l, l < s₀.layers.size → s.parent? l = s₀.parent? l
  config : ∀ l, l < s₀.layers.size → s.config l = s₀.config l

theorem Store.Links.refl (s : Store) : s.Links s := ⟨Nat.le_refl _, fun _ _ => rfl, fun _ _ => rfl⟩

theorem Store.Links.trans {s₀ s₁ s₂ : Store} (h : s₀.Links s₁) (h' : s₁.Links s₂) :
    s₀.Links s₂ where
  size := Nat.le_trans h.size h'.size
  parent l hl := (h'.parent l (Nat.lt_of_lt_of_le hl h.size)).trans (h.parent l hl)
  config l hl := (h'.config l (Nat.lt_of_lt_of_le hl h.size)).trans (h.config l hl)

theorem Store.links_of_layers {s t : Store} (h : t.layers = s.layers) : s.Links t := by
  have hlayer := layer_of_layers h
  exact ⟨h ▸ Nat.le_refl _, fun l _ => congrArg Layer.parent (hlayer l),
    fun l _ => congrArg Layer.config (hlayer l)⟩

theorem Store.links_bind (s : Store) (e : LayerId) (name : String) (v : Value) :
    s.Links (s.bind e name v) :=
  ⟨by simp, fun _ _ => by simp, fun _ _ => by simp⟩

theorem Store.links_spawn (s : Store) (e : LayerId) (p : Option LayerId) :
    s.Links (s.spawn e p).1 where
  size := by simp
  parent l hl := by rw [parent?_spawn, if_neg (Nat.ne_of_lt hl)]
  config l hl := by rw [config_spawn, if_neg (Nat.ne_of_lt hl)]

theorem Store.Links.parent_eq_some {s t : Store} (h : s.Links t) {a b : LayerId}
    (hb : s.parent? a = some b) : t.parent? a = some b := by
  refine (h.parent a (Nat.lt_of_not_le fun hle => ?_)).trans hb
  rw [s.parent?_eq_none hle] at hb
  cases hb

namespace Policy

/-- Layers are for good. -/
def links (s₀ : Store) : Policy := onLayers (fun _ => True) s₀.Links

theorem lawful_links (s₀ : Store) : (links s₀).Lawful :=
  lawful_onLayers
    (fun _ _ ht h => h.trans (Store.links_of_layers ht))
    (fun s e name v h _ => h.trans (s.links_bind e name v))
    (fun s _ l name v h _ _ => h.trans (s.links_bind l name v))
    (fun s e p h _ _ => ⟨h.trans (s.links_spawn e p), trivial⟩)

theorem links_evalNode (limit depth : Nat) (n : Node) (e : LayerId) (s : Store) :
    s.Links (evalNode limit depth n e s).2 :=
  keeps_evalNode (lawful_links s) limit depth n trivial (Store.Links.refl s)

end Policy

/-! ## Bodies -/

namespace Eval

theorem calleeLayer_eq (e : LayerId) (f : Function) {s : Store}
    (h : (s.config e).lexicalScope = false) :
    calleeLayer e f s = (.ok s.layers.size, (s.spawn e none).1) := by
  rw [Policy.calleeLayer_apply, h]
  rfl

theorem armLayer_eq (e : LayerId) {s : Store} (h : (s.config e).lexicalScope = false) :
    armLayer e s = (.ok s.layers.size, (s.spawn e none).1) := by
  simp only [armLayer, configOf, view, bind_apply, h]
  rfl

/-- What has been done when a function's body is about to run: the layer binds the function,
and then the parameters, each to its argument as the caller's layer gives it. -/
theorem enterFunction_ok {ev : Evaluator} {e callee : LayerId} {f : Function}
    {args : List Node} {s s₁ : Store} (hoff : (s.config e).lexicalScope = false)
    (h : enterFunction ev e f args s = (.ok callee, s₁)) :
    callee = s.layers.size ∧ f.params.length ≤ args.length ∧ ∃ s₂,
      forAll (fun (param, n) => do bindName callee param (← ev n e)) (f.params.zip args)
        ((s.spawn e none).1.bind callee f.name (.function f)) = (.ok (), s₂) ∧
      s₁ = s₂.record (.called f.name f.params) := by
  unfold enterFunction at h
  split at h
  · cases h
  · next hle =>
    obtain ⟨l, s', hl, h⟩ := bind_eq_ok h
    rw [calleeLayer_eq e f hoff] at hl
    cases hl
    obtain ⟨_, s', hs', h⟩ := bind_eq_ok h
    cases hs'
    obtain ⟨_, s₂, h₂, h⟩ := bind_eq_ok h
    cases h
    exact ⟨rfl, Nat.le_of_not_lt hle, s₂, h₂, rfl⟩

end Eval

/-- From a store, an evaluation in layer `e` has come to where a body is about to run in a layer
made for it: of a function, of a method, or of an arm of a match. -/
inductive BodyStarts (ev : Evaluator) (e : LayerId) (s : Store) (callee : LayerId) (s₁ : Store) :
    Node → Prop
  | function (f : Function) (args : List Node)
      (h : enterFunction ev e f args s = (.ok callee, s₁)) : BodyStarts ev e s callee s₁ f.body
  | method (t : MethodTarget) (binding : MethodArgs) (names : List String) (args : List Node)
      (h : enterMethod ev e t binding names args s = (.ok callee, s₁)) :
      BodyStarts ev e s callee s₁ t.method.body
  | arm (body : Node) (h : armLayer e s = (.ok callee, s₁)) : BodyStarts ev e s callee s₁ body

/-- One turn of a loop. -/
abbrev turn (limit depth : Nat) (l : LayerId) (x : String) (body : Node) (item : Value) :
    Eval Value := do
  bindName l x item
  evalNode limit depth body l

end Tern
