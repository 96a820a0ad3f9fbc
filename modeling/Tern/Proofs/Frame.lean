import Tern.Proofs.Bodies

/-!
# What an evaluation leaves alone

Without lexical scope, what can be written to from a layer is its scope, and what is made on the
way: a new layer hangs from one of these or from nowhere. `Framed` says so of a store in the
course of an evaluation, with all other layers as they were. A layer made for a
body hangs from nowhere, so that the body changes no other layer at all (`bindings_evalNode`).
-/

namespace Tern

open Eval

/-- Layers that an evaluation in `e` may write to: the scope of `e`, and the new ones. -/
def Store.Touches (s₀ : Store) (e l : LayerId) : Prop := s₀.layers.size ≤ l ∨ s₀.Within e l

/-- A store that an evaluation in `e` has come to from `s₀`. -/
structure Store.Framed (s₀ : Store) (e : LayerId) (s : Store) : Prop where
  size : s₀.layers.size ≤ s.layers.size
  closed : ∀ a b, s₀.Touches e a → s.parent? a = some b → s₀.Touches e b
  dynamic : ∀ l, l = e ∨ s₀.layers.size ≤ l → (s.config l).lexicalScope = false
  untouched : ∀ l, ¬s₀.Touches e l → s.layer l = s₀.layer l

namespace Store

variable {s₀ s : Store} {e : LayerId}

theorem touches_of_mem {a : LayerId} (h : a = e ∨ s₀.layers.size ≤ a) : s₀.Touches e a := by
  rcases h with rfl | h
  · exact Or.inr .self
  · exact Or.inl h

theorem framed_refl (h : (s₀.config e).lexicalScope = false) : s₀.Framed e s₀ where
  size := Nat.le_refl _
  closed a b ha hb := by
    rcases ha with ha | ha
    · rw [s₀.parent?_eq_none ha] at hb
      cases hb
    · exact Or.inr (ha.outward hb)
  dynamic l hl := by
    rcases hl with rfl | hl
    · exact h
    · rw [Store.config, Store.layer, Array.getElem?_eq_none hl]
      rfl
  untouched _ _ := rfl

theorem Framed.of_layers {t : Store} (h : s₀.Framed e s) (ht : t.layers = s.layers) :
    s₀.Framed e t := by
  have hl := layer_of_layers ht
  refine ⟨ht ▸ h.size, fun a b ha hb => ?_, fun l hm => ?_, fun l hm => ?_⟩
  · exact h.closed a b ha (by rw [← hb, parent?, parent?, hl])
  · rw [Store.config, hl]
    exact h.dynamic l hm
  · rw [hl]
    exact h.untouched l hm

theorem Framed.bind (h : s₀.Framed e s) {a : LayerId} (ha : s₀.Touches e a) (name : String)
    (v : Value) : s₀.Framed e (s.bind a name v) := by
  refine ⟨?_, fun b c hb hc => ?_, fun l hl => ?_, fun l hl => ?_⟩
  · rw [size_bind]
    exact h.size
  · rw [parent?_bind] at hc
    exact h.closed b c hb hc
  · rw [config_bind]
    exact h.dynamic l hl
  · rcases s.layer_bind_or a name v l with hb | ⟨-, rfl, -⟩
    · rw [hb]
      exact h.untouched l hl
    · exact absurd ha hl

theorem Framed.spawn (h : s₀.Framed e s) {a : LayerId} (ha : a = e ∨ s₀.layers.size ≤ a)
    {p : Option LayerId} (hp : ∀ q, p = some q → q = a) : s₀.Framed e (s.spawn a p).1 := by
  refine ⟨?_, fun b c hb hc => ?_, fun l hl => ?_, fun l hl => ?_⟩
  · rw [size_spawn]
    exact Nat.le_succ_of_le h.size
  · rw [parent?_spawn] at hc
    split at hc
    · exact hp c hc ▸ touches_of_mem ha
    · exact h.closed b c hb hc
  · rw [config_spawn]
    split
    · exact h.dynamic a ha
    · exact h.dynamic l hl
  · rw [layer_spawn, if_neg fun hls : l = s.layers.size => hl (Or.inl (hls ▸ h.size))]
    exact h.untouched l hl

end Store

namespace Policy

/-- Nothing is changed but the scope and new layers. -/
def frame (s₀ : Store) (e : LayerId) : Policy :=
  onLayers (fun l => l = e ∨ s₀.layers.size ≤ l) (s₀.Framed e)

theorem lawful_frame (s₀ : Store) (e : LayerId) : (frame s₀ e).Lawful := by
  refine lawful_onLayers (fun s t ht h => h.of_layers ht) ?bind ?rebind ?spawn
  case bind =>
    intro s a name v h ha
    exact h.bind (Store.touches_of_mem ha) name v
  case rebind =>
    -- The owner of a name is further outward, and the scope leads nowhere else.
    intro s a l name v h ha hl
    have hw := (Store.within_of_owner? hl).1
    exact h.bind (hw.mem_of_closed (Store.touches_of_mem ha) h.closed) name v
  case spawn =>
    intro s a p h ha hp
    have hoff := h.dynamic a ha
    refine ⟨h.spawn ha fun q hq => ?_, Or.inr h.size⟩
    rcases hp q hq with hqa | hlex
    · exact hqa
    · rw [hoff] at hlex
      cases hlex

theorem framed_evalNode (limit depth : Nat) (n : Node) {e : LayerId} {s : Store}
    (h : (s.config e).lexicalScope = false) :
    s.Framed e (evalNode limit depth n e s).2 :=
  keeps_evalNode (lawful_frame s e) limit depth n (Or.inl rfl) (Store.framed_refl h)

end Policy

/-! ## Bodies -/

/-- A layer that is made for a body hangs from nowhere: it is its own scope. -/
structure Store.Alone (s : Store) (callee : LayerId) : Prop where
  parent : s.parent? callee = none
  dynamic : (s.config callee).lexicalScope = false

namespace Store

theorem alone_spawn {s : Store} {e : LayerId} (h : (s.config e).lexicalScope = false) :
    (s.spawn e none).1.Alone s.layers.size :=
  ⟨by rw [parent?_spawn, if_pos rfl], by rw [config_spawn, if_pos rfl, h]⟩

theorem Alone.of_links {s t : Store} {callee : LayerId} (h : s.Alone callee) (ht : s.Links t)
    (hc : callee < s.layers.size) : t.Alone callee :=
  ⟨by rw [ht.parent callee hc, h.parent], by rw [ht.config callee hc, h.dynamic]⟩

end Store

open Policy

variable {limit depth : Nat} {e callee : LayerId} {s s₁ : Store}

theorem alone_of_enterFunction {f : Function} {args : List Node}
    (hoff : (s.config e).lexicalScope = false)
    (h : enterFunction (evalNode limit depth) e f args s = (.ok callee, s₁)) :
    s₁.Alone callee := by
  obtain ⟨rfl, -, s₂, h₂, rfl⟩ := enterFunction_ok hoff h
  have hP := lawful_links (s.spawn e none).1
  have hargs : (logic hP).Holds (0 : Nat) (forAll (fun p => do
      bindName s.layers.size p.1 (← evalNode limit depth p.2 e)) (f.params.zip args))
      fun _ => True := by
    refine Logic.forAll fun p _ => ?_
    have hsound := (logic hP).sound_evalNode trivial limit depth
    refine (hsound p.2 e ⟨trivial, False.elim⟩ False.elim).bind fun v hv => ?_
    exact (logic hP).bindName p.1 ⟨trivial, False.elim⟩ hv
  -- Whatever the arguments do, they do not move a layer that is there.
  have hlinks := keeps_of_safe hargs h₂ (Store.links_bind ..)
  have halone := (Store.alone_spawn hoff).of_links hlinks (by simp)
  exact ⟨halone.parent, halone.dynamic⟩

theorem alone_of_enterMethod {t : MethodTarget} {binding : MethodArgs} {names : List String}
    {args : List Node} (hoff : (s.config e).lexicalScope = false)
    (h : enterMethod (evalNode limit depth) e t binding names args s = (.ok callee, s₁)) :
    s₁.Alone callee := by
  unfold enterMethod at h
  obtain ⟨scratch, s', hs', h⟩ := bind_eq_ok h
  cases hs'
  obtain ⟨vs, s₂, h₂, h⟩ := bind_eq_ok h
  have hP := lawful_frame s e
  have hargs : (logic hP).Holds (0 : Nat)
      (each (fun n => evalNode limit depth n s.layers.size) args)
      fun vs => ∀ v ∈ vs, (frame s e).value v :=
    Logic.each fun n _ => (logic hP).sound_evalNode trivial limit depth n s.layers.size
      ⟨Or.inr (Nat.le_refl _), False.elim⟩ False.elim
  have hspawn := (Store.framed_refl hoff).spawn (Or.inl rfl)
    (fun q hq => (Option.some.inj hq).symm)
  have hframed := keeps_of_safe hargs h₂ hspawn
  have hoff₂ := hframed.dynamic e (Or.inl rfl)
  obtain ⟨l, s₃, h₃, h⟩ := bind_eq_ok h
  rw [calleeLayer_eq e t.method hoff₂] at h₃
  cases h₃
  obtain ⟨_, s₄, h₄, h⟩ := bind_eq_ok h
  cases h₄
  obtain ⟨_, s₅, h₅, h⟩ := bind_eq_ok h
  cases h
  have hL := lawful_links (s₂.spawn e none).1
  have hbinds : (logic hL).Holds (0 : Nat)
      (forAll (fun p => bindName s₂.layers.size p.1 p.2) (names.zip vs))
      fun _ => True :=
    Logic.forAll fun p _ => (logic hL).bindName p.1 ⟨trivial, False.elim⟩ fun _ _ => trivial
  have hlinks := keeps_of_safe hbinds h₅ (Store.links_bind ..)
  have halone := (Store.alone_spawn hoff₂).of_links hlinks (by simp)
  exact ⟨halone.parent, halone.dynamic⟩

theorem BodyStarts.alone {body : Node} (hoff : (s.config e).lexicalScope = false)
    (h : BodyStarts (evalNode limit depth) e s callee s₁ body) : s₁.Alone callee := by
  cases h with
  | function f args h => exact alone_of_enterFunction hoff h
  | method t binding names args h => exact alone_of_enterMethod hoff h
  | arm body h =>
      rw [armLayer_eq e hoff] at h
      cases h
      exact Store.alone_spawn hoff

/-! ## Bindings -/

theorem bindings_of_not_within (limit depth : Nat) (n : Node)
    (hoff : (s.config e).lexicalScope = false) {l : LayerId} (hl : l < s.layers.size)
    (hw : ¬s.Within e l) : (evalNode limit depth n e s).2.bindings l = s.bindings l := by
  refine congrArg Layer.bindings ((framed_evalNode limit depth n hoff).untouched l fun h => ?_)
  rcases h with h | h
  · exact Nat.not_le.mpr hl h
  · exact hw h

/-- Without lexical scope, an evaluation changes no binding of any layer that was there before
and is not in the scope of its own. A body changes no binding of any layer that was there when
it started, its own aside. -/
theorem bindings_evalNode (limit depth : Nat) (n : Node) (e : LayerId) (s : Store)
    (hoff : (s.config e).lexicalScope = false) :
    (∀ l, l < s.layers.size → ¬s.Within e l →
      (evalNode limit depth n e s).2.bindings l = s.bindings l) ∧
    ∀ callee s₁ body, BodyStarts (evalNode limit depth) e s callee s₁ body →
      ∀ depth' l, l < s₁.layers.size → l ≠ callee →
        (evalNode limit depth' body callee s₁).2.bindings l = s₁.bindings l := by
  constructor
  · intro l hl hw
    exact bindings_of_not_within limit depth n hoff hl hw
  · intro callee s₁ body hbody depth' l hl hne
    have halone := hbody.alone hoff
    refine bindings_of_not_within limit depth' body halone.dynamic hl fun hw => ?_
    exact hne (hw.eq_of_root halone.parent)

/-- `fun f() { let x = true }` -/
def definesX : Function where
  name := "f"
  params := []
  body := .tree .assign [.token .ident "x" none, .token .trueWord "true" none] none
  frame := some 0

/-- The definition in the body stays in the layer of the call. -/
theorem bindings_evalNode_definesX :
    ((Store.root {}).config 0).lexicalScope = false ∧
    ∃ s₁, enterFunction (evalNode 9 9) 0 definesX [] (Store.root {}) = (.ok 1, s₁) ∧
      (evalNode 9 9 definesX.body 1 s₁).2.bindings 0 = s₁.bindings 0 ∧
      ((evalNode 9 9 definesX.body 1 s₁).2.bindings 1).names = ["f", "x"] := by
  refine ⟨rfl, _, rfl, ?_, rfl⟩
  have h := (bindings_evalNode 9 9 definesX.body 0 (Store.root {}) rfl).2
  exact h 1 _ definesX.body (.function definesX [] rfl) 9 0 (by decide) (by decide)

end Tern
