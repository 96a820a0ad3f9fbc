import Tern.Proofs.Evaluation

/-!
# Policies

What every evaluation keeps to. A `Policy` is an invariant of the store over a domain;
`Policy.Lawful` asks for what the single operations must do for it. An evaluation is `Safe` when
from a store within the policy it leaves a store within it, whatever it ends in. Under a lawful
policy this is a logic, so that every evaluation is safe (`Policy.safe_evalNode`). Its stages are
numbers of layers that there are at least, for policies that ask that a layer is there
(`Policy.present`).
-/

namespace Tern

open Eval

/-- What evaluation keeps to. -/
structure Policy extends Domain where
  /-- What is kept of the store, beside what its values are made of. -/
  keeps : Store → Prop
  /-- Whether nodes are evaluated only in layers that there are. -/
  present : Prop := False

namespace Policy

/-- A store within the policy. -/
structure Admits (P : Policy) (s : Store) : Prop where
  keeps : P.keeps s
  values : s.All P.part
  methods : ∀ r name f, (s.methodsOf r).get? name = some f → P.node f.body

/-- What the operations must do for a policy. -/
structure Lawful (P : Policy) : Prop where
  domain : P.toDomain.Lawful
  bind {s e} (name v) : P.Admits s → P.layer e → P.keeps (s.bind e name v)
  /-- Binding again where the name is bound, which may be further outward. -/
  rebind {s e l name} (v) : P.Admits s → P.layer e → s.owner? e name = some l →
    P.keeps (s.bind l name v)
  /-- A new layer hangs from the one that it is made in, or from anywhere in lexical scope. -/
  spawn {s e p} : P.Admits s → P.layer e → (P.present → e < s.layers.size) →
    (∀ q, p = some q → q = e ∨ (s.config e).lexicalScope = true) →
    P.keeps (s.spawn e p).1 ∧ P.layer (s.spawn e p).2
  addStruct {s} (name fields) : P.Admits s →
    P.keeps (s.addStruct name fields []).1 ∧ P.part (.struct (s.addStruct name fields []).2)
  putMethod {s} (r name f) : P.Admits s → P.keeps (s.putMethod r name f)
  write {s} (text) : P.Admits s → P.keeps (s.write text)
  record {s event} : event.topic ≠ .program → P.Admits s → P.keeps (s.record event)
  builtin? {s e name} : P.Admits s → P.layer e → s.builtin? e name = none → P.defines name

/-! ## Operations -/

namespace Admits

variable {P : Policy} {s : Store} (hP : P.Lawful) (h : P.Admits s)

include hP h

theorem bind {e : LayerId} (he : P.layer e) (name : String) {v : Value} (hv : P.value v) :
    P.Admits (s.bind e name v) :=
  ⟨hP.bind name v h he, h.values.bind e name hv, h.methods⟩

theorem rebind {e l : LayerId} (he : P.layer e) {name : String}
    (hl : s.owner? e name = some l) {v : Value} (hv : P.value v) :
    P.Admits (s.bind l name v) :=
  ⟨hP.rebind v h he hl, h.values.bind l name hv, h.methods⟩

theorem spawn {e : LayerId} (he : P.layer e) (hlt : P.present → e < s.layers.size)
    {p : Option LayerId} (hp : ∀ q, p = some q → q = e ∨ (s.config e).lexicalScope = true) :
    P.Admits (s.spawn e p).1 ∧ P.layer (s.spawn e p).2 :=
  have hk := hP.spawn h he hlt hp
  ⟨⟨hk.1, h.values.spawn e p, h.methods⟩, hk.2⟩

theorem addStruct (name : String) (fields : List String) :
    P.Admits (s.addStruct name fields []).1 ∧
      P.value (.struct (s.addStruct name fields []).2) := by
  obtain ⟨hk, hv⟩ := hP.addStruct name fields h
  refine ⟨⟨hk, h.values.of_bindings fun _ => rfl, ?_⟩,
    Value.all_of_simple (fun _ hne => by cases hne) (fun _ _ hne => by cases hne) hv⟩
  intro r x f hf
  by_cases hr : r.id < s.methods.size
  · refine h.methods r x f ?_
    simpa [Store.methodsOf, Store.addStruct, Array.getElem?_push_lt, hr] using hf
  · have hnil : ((s.addStruct name fields []).1).methodsOf r = [] := by
      simp only [Store.methodsOf, Store.addStruct, Array.getElem?_push]
      split
      · rfl
      · rw [Array.getElem?_eq_none (Nat.le_of_not_lt hr)]
        rfl
    rw [hnil] at hf
    cases hf

theorem putMethod (r : StructRef) (name : String) {f : Function} (hf : P.node f.body) :
    P.Admits (s.putMethod r name f) := by
  refine ⟨hP.putMethod r name f h, h.values.of_bindings fun _ => rfl, ?_⟩
  intro r' x g hg
  simp only [Store.methodsOf, Store.putMethod, Array.getElem?_modify] at hg
  split at hg
  · cases hm : s.methods[r'.id]? with
    | none =>
        rw [hm] at hg
        cases hg
    | some table =>
        rw [hm] at hg
        simp only [Option.map_some, Option.getD_some, Bindings.get?_put] at hg
        split at hg
        · cases hg
          exact hf
        · refine h.methods r' x g ?_
          rw [Store.methodsOf, hm]
          exact hg
  · exact h.methods r' x g hg

theorem write (text : String) : P.Admits (s.write text) :=
  ⟨hP.write text h, h.values.of_bindings fun _ => rfl, h.methods⟩

theorem record {event : Event} (hevent : event.topic ≠ .program) : P.Admits (s.record event) :=
  ⟨hP.record hevent h, h.values.of_bindings fun _ => rfl, h.methods⟩

end Admits

/-! ## Safety -/

/-- A store within the policy that has at least so many layers. -/
structure AdmitsAt (P : Policy) (count : Nat) (s : Store) : Prop extends P.Admits s where
  size : count ≤ s.layers.size

theorem Admits.at {P : Policy} {s : Store} (h : P.Admits s) : P.AdmitsAt s.layers.size s :=
  ⟨h, Nat.le_refl _⟩

/-- A layer that nodes are evaluated in, where there are at least so many. -/
structure Knows (P : Policy) (count : Nat) (e : LayerId) : Prop where
  layer : P.layer e
  lt : P.present → e < count

theorem Knows.mono {P : Policy} {m n : Nat} {e : LayerId} (h : P.Knows m e) (hmn : m ≤ n) :
    P.Knows n e := ⟨h.layer, fun hpresent => Nat.lt_of_lt_of_le (h.lt hpresent) hmn⟩

section Safe

variable {P : Policy} {count : Nat} {α β : Type} {Q : α → Prop} {R : β → Prop}

/-- How an evaluation may end. -/
def Ends (P : Policy) (Q : α → Prop) : Except Failure α → Prop
  | .ok a => Q a
  | .error f => P.failure f

/-- From a store within the policy, an evaluation stays within it and ends as it may. -/
def Safe (P : Policy) (count : Nat) (x : Eval α) (Q : α → Prop) : Prop :=
  ∀ s, P.AdmitsAt count s → P.Ends Q (x s).1 ∧ P.AdmitsAt count (x s).2

theorem Safe.bind {x : Eval α} {f : α → Eval β} (hx : P.Safe count x Q)
    (hf : ∀ a, Q a → P.Safe count (f a) R) : P.Safe count (x >>= f) R := by
  intro s hs
  have hr := hx s hs
  rw [bind_apply]
  rcases h : x s with ⟨_ | a, s'⟩
  · rw [h] at hr
    exact hr
  · rw [h] at hr
    exact hf a hr.1 s' hr.2

/-- A value that is looked at without changing anything. -/
theorem safe_view {f : Store → α} (h : ∀ s, P.Admits s → Q (f s)) : P.Safe count (view f) Q :=
  fun s hs => ⟨h s hs.toAdmits, hs⟩

theorem safe_update {f : Store → Store} (h : ∀ s, P.Admits s → P.Admits (f s))
    (hsize : ∀ s : Store, (f s).layers.size = s.layers.size) :
    P.Safe count (update f) fun _ => True :=
  fun s hs => ⟨trivial, h s hs.toAdmits, hsize s ▸ hs.size⟩

theorem safe_attempt {x : Eval α} (h : P.Safe count x Q) :
    P.Safe count (attempt x) fun r => ∀ a, r = .ok a → Q a := by
  intro s hs
  have hr := h s hs
  unfold attempt
  rcases hx : x s with ⟨f | a, s'⟩
  · rw [hx] at hr
    cases f with
    | raised e => exact ⟨fun a ha => (by cases ha), hr.2⟩
    | _ => exact hr
  · rw [hx] at hr
    refine ⟨fun b hb => ?_, hr.2⟩
    cases hb
    exact hr.1

theorem safe_located (hP : P.Lawful) (n : Node) {x : Eval α} (h : P.Safe count x Q) :
    P.Safe count (located n x) Q := by
  intro s hs
  have hr := h s hs
  unfold located
  rcases hx : x s with ⟨f | a, s'⟩
  · rw [hx] at hr
    cases f with
    | raised e => exact ⟨hP.domain.located _ hr.1, hr.2⟩
    | _ => exact hr
  · rw [hx] at hr
    exact hr

end Safe

section Logic

variable {P : Policy} {count : Nat} {e : LayerId}

section

variable (hP : P.Lawful)

include hP

theorem safe_bindName (he : P.Knows count e) (name : String) {v : Value} (hv : P.value v) :
    P.Safe count (bindName e name v) fun _ => True :=
  safe_update (fun _ hs => hs.bind hP he.layer name hv) fun s => s.size_bind e name v

theorem safe_setName (he : P.Knows count e) (name : String) {v : Value} (hv : P.value v) :
    P.Safe count (setName e name v) fun _ => True := by
  intro s hs
  unfold setName
  cases hl : s.owner? e name with
  | none => exact ⟨hP.domain.documented rfl, hs⟩
  | some l =>
      refine ⟨trivial, hs.rebind hP he.layer hl hv, ?_⟩
      rw [Store.size_bind]
      exact hs.size

theorem safe_record {event : Event} (hevent : event.topic ≠ .program) :
    P.Safe count (record event) fun _ => True :=
  safe_update (fun _ hs => hs.record hP hevent) fun _ => rfl

/-- After a new layer has been made there is one more. -/
theorem safe_bind_spawn (he : P.Knows count e) {x : Eval LayerId}
    (hx : ∀ s, ∃ p, (∀ q, p = some q → q = e ∨ (s.config e).lexicalScope = true) ∧
      x s = (.ok (s.spawn e p).2, (s.spawn e p).1)) {β : Type} {R : β → Prop}
    {f : LayerId → Eval β}
    (hf : ∀ n l, (∀ a, P.Knows count a → P.Knows n a) → P.Knows n l → P.Safe n (f l) R) :
    P.Safe count (x >>= f) R := by
  intro s hs
  obtain ⟨p, hp, hrun⟩ := hx s
  have hle : count ≤ s.layers.size + 1 := Nat.le_succ_of_le hs.size
  obtain ⟨hs', hl⟩ := hs.spawn hP he.layer
    (fun hpresent => Nat.lt_of_lt_of_le (he.lt hpresent) hs.size) hp
  have hsize : (s.spawn e p).1.layers.size = s.layers.size + 1 := s.size_spawn e p
  obtain ⟨hends, hadmits⟩ := hf (s.layers.size + 1) (s.spawn e p).2 (fun _ ha => ha.mono hle)
    ⟨hl, fun _ => Nat.lt_succ_self _⟩ _ ⟨hs', Nat.le_of_eq hsize.symm⟩
  rw [bind_apply, hrun]
  exact ⟨hends, hadmits.toAdmits, Nat.le_trans hle hadmits.size⟩

theorem safe_addStruct (name : String) (fields : List String) :
    P.Safe count (create (·.addStruct name fields [])) fun r => P.value (.struct r) := by
  intro s hs
  obtain ⟨hs', hr⟩ := hs.addStruct hP name fields
  exact ⟨hr, hs', hs.size⟩

end

theorem calleeLayer_apply (e : LayerId) (f : Function) (s : Store) :
    calleeLayer e f s = (.ok s.layers.size,
      (s.spawn e (if (s.config e).lexicalScope then f.frame else none)).1) := by
  simp only [calleeLayer, scopeParent, configOf, view, bind_apply]
  cases (s.config e).lexicalScope <;> rfl

/-- The layer of a callee hangs from nowhere, or in lexical scope from anywhere. -/
theorem exists_spawn_calleeLayer (e : LayerId) (f : Function) (s : Store) : ∃ p : Option LayerId,
    (∀ q, p = some q → q = e ∨ (s.config e).lexicalScope = true) ∧
      calleeLayer e f s = (.ok (s.spawn e p).2, (s.spawn e p).1) := by
  refine ⟨_, fun q hq => .inr ?_, calleeLayer_apply e f s⟩
  by_contra hoff
  rw [if_neg hoff] at hq
  cases hq

theorem exists_spawn_armLayer (e : LayerId) (s : Store) : ∃ p : Option LayerId,
    (∀ q, p = some q → q = e ∨ (s.config e).lexicalScope = true) ∧
      armLayer e s = (.ok (s.spawn e p).2, (s.spawn e p).1) := by
  refine ⟨if (s.config e).lexicalScope then some e else none, fun q hq => .inr ?_, rfl⟩
  by_contra hoff
  rw [if_neg hoff] at hq
  cases hq

/-- The logic of what is safe. -/
def logic (hP : P.Lawful) : Logic where
  toDomain := P.toDomain
  lawful := hP.domain
  Stage := Nat
  knows := P.Knows
  layer_of_knows he := he.layer
  Holds := P.Safe
  pure h _ hs := ⟨h, hs⟩
  fail h _ hs := ⟨h, hs⟩
  bind := Safe.bind
  attempt _ hx hok herr := (safe_attempt hx).bind fun r hr => by
    cases r with
    | ok a => exact hok a (hr a rfl)
    | error err =>
        obtain ⟨event, y, hdrop, hf, hy⟩ := herr err
        rw [hf]
        exact (safe_record hP (Event.topic_of_drop? hdrop)).bind fun _ _ => hy
  located n h := safe_located hP n h
  configOf _ _ hf := (safe_view (Q := fun _ => True) fun _ _ => trivial).bind fun c _ => hf c
  builtin? _ he := safe_view fun _ hs hnone => hP.builtin? hs he.layer hnone
  lookup? name _ hnone hcause hsome :=
    (safe_view (Q := fun o => ∀ v, o = some v → P.value v)
      fun _ hs _ hv => hs.values.lookup? hv).bind fun o ho => by
        cases o with
        | none => exact hnone ▸ fun s hs => ⟨hP.domain.documented hcause, hs⟩
        | some v => exact hsome v (ho v rfl)
  bound _ _ := safe_view fun _ _ => trivial
  bindName name he hv := safe_bindName hP he name hv
  setName name he hv := safe_setName hP he name hv
  spawn {β R σ e p f} he hp hf :=
    safe_bind_spawn hP he (fun _ => ⟨p, fun q hq => .inl (hp q hq), rfl⟩) hf
  calleeLayer callee he hf := safe_bind_spawn hP he (exists_spawn_calleeLayer _ callee) hf
  armLayer he hf := safe_bind_spawn hP he (exists_spawn_armLayer _) hf
  method? r name := safe_view fun _ hs f hf => hs.methods r name f hf
  addStruct name fields := safe_addStruct hP name fields
  putMethod r name hf := safe_update (fun _ hs => hs.putMethod hP r name hf) fun _ => rfl
  write text := safe_update (fun _ hs => hs.write hP text) fun _ => rfl
  record hevent := safe_record hP hevent

/-- Where it does not matter which layers there are, every evaluation is safe. -/
theorem safe_evalNode (hP : P.Lawful) (limit depth : Nat) {n : Node} (he : P.Knows count e)
    (hn : P.node n) : P.Safe count (evalNode limit depth n e) P.value :=
  (logic hP).sound_evalNode trivial limit depth n e he hn

end Logic

/-! ## Policies on layers alone -/

/-- The policy that asks for nothing but an invariant of the layers. -/
def onLayers (layer : LayerId → Prop) (keeps : Store → Prop) : Policy where
  toDomain := .ofLayers layer
  keeps

section OnLayers

variable {layer : LayerId → Prop} {keeps : Store → Prop}

theorem admits_onLayers {s : Store} (h : keeps s) : (onLayers layer keeps).Admits s :=
  ⟨h, fun _ _ _ _ _ => trivial, fun _ _ _ _ => False.elim⟩

theorem lawful_onLayers
    (hother : ∀ s t : Store, t.layers = s.layers → keeps s → keeps t)
    (hbind : ∀ s e name v, keeps s → layer e → keeps (s.bind e name v))
    (hrebind : ∀ s e l name v, keeps s → layer e → s.owner? e name = some l →
      keeps (s.bind l name v))
    (hspawn : ∀ s e p, keeps s → layer e →
      (∀ q, p = some q → q = e ∨ (s.config e).lexicalScope = true) →
      keeps (s.spawn e p).1 ∧ layer (s.spawn e p).2) :
    (onLayers layer keeps).Lawful where
  domain := Domain.lawful_ofLayers layer
  bind name v hs he := hbind _ _ name v hs.keeps he
  rebind v hs he hl := hrebind _ _ _ _ v hs.keeps he hl
  spawn hs he _ hp := hspawn _ _ _ hs.keeps he hp
  addStruct {s} _ _ hs := ⟨hother s _ rfl hs.keeps, trivial⟩
  putMethod {s} _ _ _ hs := hother s _ rfl hs.keeps
  write {s} _ hs := hother s _ rfl hs.keeps
  record {s _} _ hs := hother s _ rfl hs.keeps
  builtin? _ _ _ := trivial

theorem keeps_of_safe {α : Type} {x : Eval α} {Q : α → Prop}
    (hx : (onLayers layer keeps).Safe 0 x Q) {s s' : Store} {r : Except Failure α}
    (h : x s = (r, s')) (hs : keeps s) : keeps s' := by
  have := (hx s ⟨admits_onLayers hs, Nat.zero_le _⟩).2.keeps
  rwa [h] at this

/-- Under a policy on layers alone, every tree may be evaluated. -/
theorem keeps_evalNode (hP : (onLayers layer keeps).Lawful) (limit depth : Nat) (n : Node)
    {e : LayerId} (he : layer e) {s : Store} (h : keeps s) :
    keeps (evalNode limit depth n e s).2 :=
  (safe_evalNode hP limit depth ⟨he, False.elim⟩ False.elim s (admits_onLayers h).at).2.keeps

end OnLayers

end Policy

end Tern
