import Tern.Eval.Calls
import Tern.Eval.Match
import Tern.Proofs.Parts
import Tern.Proofs.Shape

/-!
# Logics of evaluation

What is to be said of every evaluation is said of the single operations first. A `Logic` is a
judgement on evaluations, with a rule for each way of putting them together and for each access to
the store. Its `Domain` names the layers that nodes are evaluated in, what values may be made of,
the failures that may come out, and whether trees have a shape. A rule looks at one operation, and
after an error, a look at the configuration, a lookup or a new layer also at how evaluation goes on.
So the handlers of nodes are gone through once, for all logics.

A judgement is made at a *stage*, which says what layers are known; a new layer leads to a stage
where it is known too. Logics that need no such thing have a single stage. A logic need not let
evaluation go on after errors (`Logic.catches`); then it speaks of the nodes that never do.

`Logic.each`, `Logic.forAll` and the rules for names in trees follow from the others.
-/

namespace Tern

open Eval

/-- What evaluation deals with. -/
structure Domain where
  /-- The layers that nodes are evaluated in. -/
  layer : LayerId → Prop
  /-- What values may be made of. -/
  part : Value → Prop
  /-- How evaluation may end without a value. -/
  failure : Failure → Prop
  /-- Whether all trees are well shaped. -/
  shaped : Prop
  /-- The names that functions may be defined under. -/
  defines : String → Prop := fun _ => True

/-- The values that domains tell apart are functions, ranges and structs. -/
def Value.isPlain : Value → Bool
  | nothing | number _ | string _ | bool _ | list _ | object _ _ => true
  | _ => false

namespace Domain

/-- A tree that may be evaluated. -/
def node (D : Domain) (n : Node) : Prop := D.shaped → n.WellShaped

def value (D : Domain) (v : Value) : Prop := v.All D.part

/-- A domain that holds all that well-shaped trees make of what it holds. -/
structure Lawful (D : Domain) : Prop where
  plain {v} : v.isPlain = true → D.part v
  define {e body name} (params) : D.layer e → D.defines name → D.node body →
    D.part (.function ⟨name, params, body, some e⟩)
  body {f} : D.part (.function f) → D.node f.body
  range (x y) : D.part (.range (Number.truncate x) (Number.truncate y))
  /-- What the integers of a range are the reason for may come out. -/
  ranged {start stop f} : D.part (.range start stop) → Failure.OfRange start stop f → D.failure f
  documented {f} : f.Documented → D.failure f
  located {e} (pos) : D.failure (.raised e) → D.failure (.raised (e.at pos))
  /-- When trees have any shape, they may fail in any way. -/
  unshaped : ¬D.shaped → ∀ f, D.failure f

/-- The domain of all values, failures and trees. -/
def ofLayers (layer : LayerId → Prop) : Domain where
  layer
  part _ := True
  failure _ := True
  shaped := False

theorem lawful_ofLayers (layer : LayerId → Prop) : (ofLayers layer).Lawful where
  plain _ := trivial
  define _ _ _ _ := trivial
  body _ := False.elim
  range _ _ := trivial
  ranged _ _ := trivial
  documented _ := trivial
  located _ _ := trivial
  unshaped _ _ := trivial

theorem value_ofLayers (layer : LayerId → Prop) (v : Value) : (ofLayers layer).value v :=
  fun _ _ => trivial

end Domain

/-- The second configuration decides alike and allows whatever the first allows. -/
structure Config.Relaxes (c c' : Config) : Prop where
  matchMode : c'.matchMode = c.matchMode
  methodArgs : c'.methodArgs = c.methodArgs
  lexicalScope : c.lexicalScope = true → c'.lexicalScope = true
  strictWhile : c'.strictWhile = true → c.strictWhile = true

namespace Eval

theorem bind_eq_ok {α β : Type} {x : Eval α} {f : α → Eval β} {b : β} {s s' : Store}
    (h : (x >>= f) s = (.ok b, s')) : ∃ a s₁, x s = (.ok a, s₁) ∧ f a s₁ = (.ok b, s') := by
  rw [bind_apply] at h
  rcases hx : x s with ⟨_ | a, s₁⟩
  · rw [hx] at h
    cases h
  · rw [hx] at h
    exact ⟨a, s₁, rfl, h⟩

theorem bind_assoc {α β γ : Type} (x : Eval α) (f : α → Eval β) (g : β → Eval γ) :
    x >>= f >>= g = x >>= fun a => f a >>= g := by
  funext s
  simp only [bind_apply]
  rcases x s with ⟨_ | a, s'⟩ <;> rfl

/-- Where the first evaluation ends in a value, the second ends likewise. -/
def Refines {α : Type} (x y : Eval α) : Prop :=
  ∀ s a s', x s = (.ok a, s') → y s = (.ok a, s')

theorem Refines.refl {α : Type} (x : Eval α) : Refines x x := fun _ _ _ h => h

theorem Refines.of_fail {α : Type} {f : Failure} (y : Eval α) : Refines (fail f) y := nofun

theorem Refines.bind {α β : Type} {x y : Eval α} {f g : α → Eval β} (hx : Refines x y)
    (hf : ∀ a, Refines (f a) (g a)) : Refines (x >>= f) (y >>= g) := by
  intro s b s' h
  obtain ⟨a, s₁, ha, h⟩ := bind_eq_ok h
  rw [bind_apply, hx s a s₁ ha]
  exact hf a s₁ b s' h

end Eval

/-- A failure with a position, when it is an error without one. -/
def Failure.at (pos : Option Pos) : Failure → Failure
  | .raised e => .raised (e.at pos)
  | f => f

namespace Failure

theorem at_none (f : Failure) : f.at none = f := by
  cases f with
  | raised e => exact congrArg (fun pos => raised ⟨e.cause, pos⟩) Option.or_none
  | _ => rfl

theorem at_at (f : Failure) (p q : Option Pos) : (f.at p).at q = f.at (p.or q) := by
  cases f with
  | raised e => exact congrArg (fun pos => raised ⟨e.cause, pos⟩) Option.or_assoc
  | _ => rfl

theorem at_of_host {f : Failure} (h : ∀ e, f ≠ .raised e) (pos : Option Pos) : f.at pos = f := by
  cases f with
  | raised e => exact absurd rfl (h e)
  | _ => rfl

end Failure

theorem Eval.located_error {α : Type} (n : Node) {x : Eval α} {s s' : Store} {f : Failure}
    (h : x s = (.error f, s')) : located n x s = (.error (f.at n.position?), s') := by
  unfold located
  rw [h]
  cases f <;> rfl

/-- An outcome with a position, when it is an error without one. -/
def Outcome.at {α : Type} (pos : Option Pos) (o : Outcome α) : Outcome α :=
  (o.1.mapError (·.at pos), o.2)

theorem Eval.located_apply {α : Type} (n : Node) (x : Eval α) (s : Store) :
    located n x s = (x s).at n.position? := by
  rcases hx : x s with ⟨f | a, s'⟩
  · exact located_error n hx
  · rw [located, hx]
    rfl

theorem Eval.snd_located {α : Type} (n : Node) (x : Eval α) (s : Store) :
    (located n x s).2 = (x s).2 := by
  rw [located_apply, Outcome.at]

theorem Eval.located_eq_ok {α : Type} {n : Node} {x : Eval α} {s s' : Store} {a : α} :
    located n x s = (.ok a, s') ↔ x s = (.ok a, s') := by
  rw [located_apply]
  rcases x s with ⟨f | b, s₁⟩
  · exact ⟨nofun, nofun⟩
  · rfl

theorem Eval.expectIdent_eq {n : Node} {name : String} (h : n.identName? = some name) :
    expectIdent n = Pure.pure name := by
  rw [expectIdent, h]

/-- A call by the name of a builtin. -/
theorem Eval.call_eq_callBuiltin {ev : Evaluator} {e : LayerId} {s : Store} {x args : Node}
    {name : String} {b : Builtin} (hx : x.identName? = some name)
    (hb : s.builtin? e name = some b) :
    call ev e [x, args] s = callBuiltin ev e b args.children s := by
  rw [call, expectIdent_eq hx]
  simp only [bind_apply, pure_apply, view, hb]

/-- Nothing changes when the names in a list are read. -/
theorem Eval.store_of_identList {n : Node} {names : List String} {s t : Store}
    (h : identList n s = (.ok names, t)) : t = s := by
  unfold identList at h
  generalize n.children = ns at h
  induction ns generalizing names with
  | nil =>
      cases h
      rfl
  | cons m rest ih =>
      obtain ⟨name, s₁, hm, hothers⟩ := bind_eq_ok h
      obtain ⟨others, s₂, hrest, hnames⟩ := bind_eq_ok hothers
      cases hnames
      rw [expectIdent] at hm
      cases hx : m.identName? <;> rw [hx] at hm <;> cases hm
      exact ih hrest

/-- An error has been turned into a value. -/
def Event.isDrop : Event → Bool
  | .argumentDropped _ _ | .patternDropped _ => true
  | _ => false

/-- The error that has been turned into a value. -/
def Event.drop? : Event → Option RuntimeError
  | .argumentDropped _ e | .patternDropped e => some e
  | _ => none

theorem Event.isDrop_of_drop? {event : Event} {e : RuntimeError} (h : event.drop? = some e) :
    event.isDrop = true := by
  cases event with
  | argumentDropped | patternDropped => rfl
  | _ => cases h

theorem Event.topic_of_drop? {event : Event} {e : RuntimeError} (h : event.drop? = some e) :
    event.topic ≠ .program := by
  cases event with
  | argumentDropped | patternDropped => nofun
  | _ => cases h

/-- A judgement on evaluations, with its rules. -/
structure Logic extends Domain where
  lawful : toDomain.Lawful
  /-- How far a run has come. -/
  Stage : Type
  /-- The layers that are known at a stage. -/
  knows : Stage → LayerId → Prop
  layer_of_knows {σ e} : knows σ e → layer e
  /-- Whether evaluation may go on after an error. -/
  catches : Prop := True
  /-- From a stage on, the evaluation is as it should be, and so is the value that it ends in. -/
  Holds {α : Type} : Stage → Eval α → (α → Prop) → Prop
  pure {α : Type} {Q : α → Prop} {σ} {a : α} : Q a → Holds σ (pure a) Q
  fail {α : Type} {Q : α → Prop} {σ} {f : Failure} : failure f → Holds σ (fail f) Q
  bind {α β : Type} {Q : α → Prop} {R : β → Prop} {σ} {x : Eval α} {f : α → Eval β} :
    Holds σ x Q → (∀ a, Q a → Holds σ (f a) R) → Holds σ (x >>= f) R
  /-- Going on after an error leaves a record of it. -/
  attempt {α β : Type} {Q : α → Prop} {R : β → Prop} {σ} {x : Eval α}
    {f : Except RuntimeError α → Eval β} : catches → Holds σ x Q →
    (∀ a, Q a → Holds σ (f (.ok a)) R) → (∀ e, ∃ event y, event.drop? = some e ∧
      f (.error e) = (record event >>= fun _ => y) ∧ Holds σ y R) →
    Holds σ (attempt x >>= f) R
  located {α : Type} {Q : α → Prop} {σ} {x : Eval α} (n : Node) : Holds σ x Q →
    Holds σ (located n x) Q
  /-- What is done under a configuration is done likewise under one that relaxes it. -/
  configOf {β : Type} {R : β → Prop} {σ e} {f : Config → Eval β} : knows σ e →
    (∀ c c', c.Relaxes c' → Refines (f c) (f c')) → (∀ c, Holds σ (f c) R) →
    Holds σ (configOf e >>= f) R
  /-- A name that no builtin has may be given to a function. -/
  builtin? {σ e} (name) : knows σ e →
    Holds σ (view (·.builtin? e name)) fun b => b = none → defines name
  /-- A name that is not bound is an error. -/
  lookup? {β : Type} {R : β → Prop} {σ e} {f : Option Value → Eval β} {cause : Cause} (name) :
    knows σ e → f none = Eval.raise cause → cause.blamesTree = false →
    (∀ v, toDomain.value v → Holds σ (f (some v)) R) → Holds σ (lookup? e name >>= f) R
  bound {σ e} (name) : knows σ e →
    Holds σ (view fun s => (s.bindings e).holds name) fun _ => True
  bindName {σ e v} (name) : knows σ e → toDomain.value v →
    Holds σ (bindName e name v) fun _ => True
  setName {σ e v} (name) : knows σ e → toDomain.value v →
    Holds σ (setName e name v) fun _ => True
  /-- A new layer hangs from the one that it is made in, or from nowhere. -/
  spawn {β : Type} {R : β → Prop} {σ e p} {f : LayerId → Eval β} : knows σ e →
    (∀ q, p = some q → q = e) →
    (∀ τ l, (∀ a, knows σ a → knows τ a) → knows τ l → Holds τ (f l) R) →
    Holds σ (spawn e p >>= f) R
  calleeLayer {β : Type} {R : β → Prop} {σ e} {f : LayerId → Eval β} (callee) : knows σ e →
    (∀ τ l, (∀ a, knows σ a → knows τ a) → knows τ l → Holds τ (f l) R) →
    Holds σ (calleeLayer e callee >>= f) R
  armLayer {β : Type} {R : β → Prop} {σ e} {f : LayerId → Eval β} : knows σ e →
    (∀ τ l, (∀ a, knows σ a → knows τ a) → knows τ l → Holds τ (f l) R) →
    Holds σ (armLayer e >>= f) R
  method? {σ} (r name) : Holds σ (view fun s => (s.methodsOf r).get? name) fun o =>
    ∀ f, o = some f → toDomain.node f.body
  addStruct {σ} (name fields) : Holds σ (create (·.addStruct name fields [])) fun r =>
    toDomain.value (.struct r)
  putMethod {σ f} (r name) : toDomain.node f.body →
    Holds σ (update (·.putMethod r name f)) fun _ => True
  write {σ} (text) : Holds σ (write text) fun _ => True
  /-- Evaluation records nothing in the program's name. -/
  record {σ event} : event.topic ≠ .program → Holds σ (record event) fun _ => True

namespace Logic

variable {L : Logic} {σ : L.Stage} {α β : Type} {Q : α → Prop} {R : β → Prop}

theorem Holds.bind {x : Eval α} {f : α → Eval β} (hx : L.Holds σ x Q)
    (hf : ∀ a, Q a → L.Holds σ (f a) R) : L.Holds σ (x >>= f) R := L.bind hx hf

theorem Holds.mono {Q' : α → Prop} {x : Eval α} (h : L.Holds σ x Q) (hQ : ∀ a, Q a → Q' a) :
    L.Holds σ x Q' := by
  have hx : (x >>= fun a => (Pure.pure a : Eval α)) = x := by
    funext s
    rw [bind_apply]
    rcases x s with ⟨_ | a, s'⟩ <;> rfl
  rw [← hx]
  exact h.bind fun a ha => L.pure (hQ a ha)

/-! ## Lists -/

theorem each {γ : Type} {f : γ → Eval β} : ∀ {as : List γ},
    (∀ a ∈ as, L.Holds σ (f a) R) → L.Holds σ (each f as) fun bs => ∀ b ∈ bs, R b
  | [], _ => L.pure fun _ hb => by cases hb
  | a :: rest, h => by
      unfold Eval.each
      refine (h a (List.mem_cons_self ..)).bind fun b hb => ?_
      refine (each fun a' ha' => h a' (List.mem_cons_of_mem _ ha')).bind fun bs hbs => ?_
      refine L.pure fun b' hb' => ?_
      rcases List.mem_cons.mp hb' with rfl | hb'
      · exact hb
      · exact hbs b' hb'

theorem forAll {γ : Type} {f : γ → Eval Unit} : ∀ {as : List γ},
    (∀ a ∈ as, L.Holds σ (f a) fun _ => True) → L.Holds σ (forAll f as) fun _ => True
  | [], _ => L.pure trivial
  | a :: rest, h => by
      unfold Eval.forAll
      refine (h a (List.mem_cons_self ..)).bind fun _ _ => ?_
      exact forAll fun a' ha' => h a' (List.mem_cons_of_mem _ ha')

/-! ## Errors -/

/-- A runtime error that does not blame the tree. -/
theorem raise {cause : Cause} (h : cause.blamesTree = false) : L.Holds σ (raise cause) Q :=
  L.fail (L.lawful.documented h)

/-- What never happens to well-shaped trees. -/
theorem fail_of_shape {f : Failure} (h : L.shaped → False) : L.Holds σ (Eval.fail f) Q :=
  L.fail (L.lawful.unshaped h f)

theorem mismatch {expected : String} {found : Value}
    (h : (expected == "ident" || expected == "pair") = false) :
    L.Holds σ (mismatch expected found) Q := raise h

/-! ## Names -/

theorem getName {e : LayerId} (name : String) (he : L.knows σ e) :
    L.Holds σ (getName e name) L.value := by
  exact L.lookup? name he rfl rfl fun v hv => L.pure hv

theorem expectIdent {n : Node} (hn : L.shaped → n.IsName) :
    L.Holds σ (expectIdent n) fun _ => True := by
  unfold Eval.expectIdent
  cases hx : n.identName? with
  | some name => exact L.pure trivial
  | none =>
      refine fail_of_shape fun h => ?_
      obtain ⟨name, pos⟩ := hn h
      cases hx

theorem identList {n : Node} {label : Label} (hn : L.shaped → n.IsNames label) :
    L.Holds σ (identList n) fun _ => True := by
  refine (each (R := fun _ => True) fun c hc => expectIdent fun h => ?_).mono fun _ _ => trivial
  obtain ⟨pos, hnames⟩ := hn h
  exact hnames c hc

end Logic

end Tern
