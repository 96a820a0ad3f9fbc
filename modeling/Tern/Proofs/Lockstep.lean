import Tern.Proofs.Mirrors

/-!
# Two runs in lockstep

Two evaluations go in lockstep when from stores that mirror each other they end alike, in mirrored
values or failures, and leave stores that mirror each other (`Mirror.Holds`). There is a rule for
each way of putting evaluations together and for each access to the store, and with these every
handler is gone through once, for all mirrors: whatever evaluators for the nodes inside go in
lockstep, so does the handler. So evaluations of mirrored trees go in lockstep
(`Mirror.Lawful.sound`). What is noted on an error that leaves a node is left open
(`evalNoting`); evaluation itself notes the node's position (`evalNoting_position`).
-/

namespace Tern

open Eval

namespace Eval

/-- Notes something on a runtime error. -/
def noted {α : Type} (note : RuntimeError → RuntimeError) (x : Eval α) : Eval α := fun s =>
  match x s with
  | (.error (.raised e), s') => (.error (.raised (note e)), s')
  | outcome => outcome

/-- Evaluates like `evalNode`, but notes on an error whatever is to be noted of each node that it
leaves. -/
def evalNoting (note : Node → RuntimeError → RuntimeError) (limit : Nat) : (depth : Nat) → Evaluator
  | 0 => fun _ _ => fail .tooDeep
  | depth + 1 => fun n env => noted (note n) (step limit (evalNoting note limit depth) n env)

theorem evalNoting_position (limit : Nat) :
    ∀ depth, evalNoting (fun n e => e.at n.position?) limit depth = evalNode limit depth
  | 0 => rfl
  | depth + 1 => by
      unfold evalNoting evalNode
      rw [evalNoting_position limit depth]
      rfl

end Eval

namespace Mirror

/-- From mirrored stores both evaluations end alike and leave mirrored stores. -/
def Holds (M : Mirror) {α β : Type} (x : Eval α) (y : Eval β) (Q : α → β → Prop) : Prop :=
  ∀ s t, s.Mirrored M t → Ends (Failure.Mirrored M) Q (x s).1 (y t).1 ∧
    (x s).2.Mirrored M (y t).2

variable {M : Mirror} {α β γ δ : Type} {Q : α → β → Prop} {R : γ → δ → Prop}

/-! ## Putting evaluations together -/

theorem holds_pure {a : α} {b : β} (h : Q a b) : M.Holds (pure a) (pure b) Q :=
  fun _ _ hst => ⟨.ok h, hst⟩

theorem holds_fail {f f' : Failure} (h : f.Mirrored M f') :
    M.Holds (fail f : Eval α) (fail f' : Eval β) Q := fun _ _ hst => ⟨.error h, hst⟩

theorem holds_misshapen : M.Holds (misshapen : Eval α) (misshapen : Eval β) Q :=
  holds_fail (.host nofun)

theorem Holds.bind {x : Eval α} {y : Eval β} {f : α → Eval γ} {g : β → Eval δ}
    (hx : M.Holds x y Q) (hf : ∀ a b, Q a b → M.Holds (f a) (g b) R) :
    M.Holds (x >>= f) (y >>= g) R := by
  intro s t hst
  have hrun := hx s t hst
  rw [bind_apply, bind_apply]
  generalize x s = o at hrun
  generalize y t = o' at hrun
  obtain ⟨r, s'⟩ := o
  obtain ⟨r', t'⟩ := o'
  obtain ⟨hends, hst⟩ := hrun
  cases hends with
  | ok h => exact hf _ _ h s' t' hst
  | error h => exact ⟨.error h, hst⟩

theorem Holds.mono {Q' : α → β → Prop} {x : Eval α} {y : Eval β} (h : M.Holds x y Q)
    (hQ : ∀ a b, Q a b → Q' a b) : M.Holds x y Q' := by
  intro s t hst
  obtain ⟨hends, hst⟩ := h s t hst
  exact ⟨hends.mono (fun _ _ he => he) hQ, hst⟩

/-- Going on after errors: both sides fail to end in a value at the same time. -/
theorem holds_attempt {x : Eval α} {y : Eval β} (h : M.Holds x y Q) :
    M.Holds (attempt x) (attempt y) (Ends (fun _ _ => True) Q) := by
  intro s t hst
  have hrun := h s t hst
  unfold attempt
  generalize x s = o at hrun
  generalize y t = o' at hrun
  obtain ⟨r, s'⟩ := o
  obtain ⟨r', t'⟩ := o'
  obtain ⟨hends, hst⟩ := hrun
  cases hends with
  | ok h => exact ⟨.ok (.ok h), hst⟩
  | error h =>
      cases h with
      | raised h => exact ⟨.ok (.error trivial), hst⟩
      | undisplayable h => exact ⟨.error (.undisplayable h), hst⟩
      | host h =>
          rename_i f
          cases f with
          | raised e => exact absurd rfl (h e)
          | _ => exact ⟨.error (.host h), hst⟩

theorem holds_noted {note note' : RuntimeError → RuntimeError} {x : Eval α} {y : Eval β}
    (h : M.Holds x y Q) (hnote : ∀ e e', M.error e e' → M.error (note e) (note' e')) :
    M.Holds (noted note x) (noted note' y) Q := by
  intro s t hst
  have hrun := h s t hst
  unfold noted
  generalize x s = o at hrun
  generalize y t = o' at hrun
  obtain ⟨r, s'⟩ := o
  obtain ⟨r', t'⟩ := o'
  obtain ⟨hends, hst⟩ := hrun
  cases hends with
  | ok h => exact ⟨.ok h, hst⟩
  | error h =>
      cases h with
      | raised h => exact ⟨.error (.raised (hnote _ _ h)), hst⟩
      | undisplayable h => exact ⟨.error (.undisplayable h), hst⟩
      | host h =>
          rename_i f
          cases f with
          | raised e => exact absurd rfl (h e)
          | _ => exact ⟨.error (.host h), hst⟩

theorem holds_view {f : Store → α} {g : Store → β} (h : ∀ s t, s.Mirrored M t → Q (f s) (g t)) :
    M.Holds (view f) (view g) Q := fun s t hst => ⟨.ok (h s t hst), hst⟩

theorem holds_update {f g : Store → Store} (h : ∀ s t, s.Mirrored M t → (f s).Mirrored M (g t)) :
    M.Holds (update f) (update g) fun _ _ => True := fun s t hst => ⟨.ok trivial, h s t hst⟩

theorem holds_write (text : String) : M.Holds (write text) (write text) fun _ _ => True :=
  holds_update fun _ _ hst => hst.write text

theorem holds_record (event event' : Event) :
    M.Holds (record event) (record event') fun _ _ => True :=
  holds_update fun _ _ hst => hst.record event event'

theorem holds_configOf (e : LayerId) :
    M.Holds (configOf e) (configOf e) fun c c' => c' = c :=
  holds_view fun _ _ hst => hst.config e

theorem holds_spawn (e : LayerId) (p : Option LayerId) :
    M.Holds (spawn e p) (spawn e p) fun l l' => l' = l :=
  fun _ _ hst => ⟨.ok hst.size, hst.spawn e p⟩

/-! ## Lists -/

theorem holds_each {f : γ → Eval α} {g : δ → Eval β} {as : List γ} {bs : List δ}
    (h : List.Forall₂ (fun a b => M.Holds (f a) (g b) Q) as bs) :
    M.Holds (each f as) (each g bs) (List.Forall₂ Q) := by
  induction h with
  | nil => exact holds_pure .nil
  | cons h _ ih =>
      unfold each
      exact h.bind fun _ _ hq => ih.bind fun _ _ hqs => holds_pure (.cons hq hqs)

theorem holds_forAll {f : γ → Eval Unit} {g : δ → Eval Unit} {as : List γ} {bs : List δ}
    (h : List.Forall₂ (fun a b => M.Holds (f a) (g b) fun _ _ => True) as bs) :
    M.Holds (forAll f as) (forAll g bs) fun _ _ => True := by
  induction h with
  | nil => exact holds_pure trivial
  | cons h _ ih =>
      unfold forAll
      exact h.bind fun _ _ _ => ih

/-! ## Errors and names -/

namespace Lawful

variable (hM : M.Lawful)

include hM

theorem holds_raise {c c' : Cause} (h : c.Mirrored M c') :
    M.Holds (raise c : Eval α) (raise c' : Eval β) Q := holds_fail (.raised (hM.raised h))

theorem holds_mismatch (expected : String) {v v' : Value} (h : v.Mirrored M v') :
    M.Holds (mismatch expected v : Eval α) (mismatch expected v' : Eval β) Q :=
  hM.holds_raise ⟨rfl, fun hv => by rw [(hM.type h).same hv]⟩

theorem holds_expectIdent {n n' : Node} (h : M.node n n') :
    M.Holds (expectIdent n) (expectIdent n') fun x y => y = M.name x := by
  unfold expectIdent
  rw [hM.identName? h]
  cases n.identName? with
  | some x => exact holds_pure rfl
  | none => exact hM.holds_raise ⟨rfl, fun _ => by rw [hM.kindName h]⟩

theorem holds_identList {n n' : Node} (h : M.node n n') :
    M.Holds (identList n) (identList n') fun xs ys => ys = xs.map M.name := by
  refine (holds_each ((hM.children h).imp fun _ _ hn => hM.holds_expectIdent hn)).mono ?_
  intro xs ys hxs
  induction hxs with
  | nil => rfl
  | cons hx _ ih => rw [hx, ih, List.map_cons]

/-! ## The store -/

theorem holds_lookup? (e : LayerId) (x : String) :
    M.Holds (lookup? e x) (lookup? e (M.name x)) (Option.Rel (Value.Mirrored M)) :=
  holds_view fun _ _ hst => hst.lookup? hM e x

theorem holds_builtin? (e : LayerId) (x : String) :
    M.Holds (view (·.builtin? e x)) (view (·.builtin? e (M.name x))) fun b b' => b' = b :=
  holds_view fun _ _ hst => hst.builtin? hM e x

theorem holds_bound (e : LayerId) (x : String) :
    M.Holds (view fun s => (s.bindings e).holds x)
      (view fun s => (s.bindings e).holds (M.name x)) fun b b' => b' = b :=
  holds_view fun _ _ hst => hst.holds hM e x

theorem holds_bindName (e : LayerId) (x : String) {v v' : Value} (hv : v.Mirrored M v') :
    M.Holds (bindName e x v) (bindName e (M.name x) v') fun _ _ => True :=
  holds_update fun _ _ hst => hst.bind hM e x hv

theorem holds_notFound (x : String) :
    M.Holds (raise (.variableNotFound x) : Eval α)
      (raise (.variableNotFound (M.name x)) : Eval β) Q :=
  hM.holds_raise ⟨rfl, fun hv => by rw [hM.spelled hv]⟩

theorem holds_setName (e : LayerId) (x : String) {v v' : Value} (hv : v.Mirrored M v') :
    M.Holds (setName e x v) (setName e (M.name x) v') fun _ _ => True := by
  intro s t hst
  unfold setName
  rw [hst.owner? hM]
  cases s.owner? e x with
  | none => exact hM.holds_notFound (α := Unit) (β := Unit) x s t hst
  | some l => exact ⟨.ok trivial, hst.bind hM l x hv⟩

theorem holds_getName (e : LayerId) (x : String) :
    M.Holds (getName e x) (getName e (M.name x)) (Value.Mirrored M) := by
  unfold getName
  refine (hM.holds_lookup? e x).bind fun o o' ho => ?_
  cases ho with
  | some hv => exact holds_pure hv
  | none => exact hM.holds_notFound x

end Lawful

end Mirror

end Tern
