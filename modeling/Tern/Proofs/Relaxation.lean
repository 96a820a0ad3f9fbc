import Tern.Proofs.Evaluation
import Tern.Syntax.Build

/-!
# Relaxed configurations

Lexical scope only adds layers at the far end of a scope, and a loop that is not strict only ends
where a strict one fails. So a run that ends in a value without dropping an error goes the same
way under a configuration that relaxes its own: every name it finds is found in the same layer,
and what it does not find it never gets over.

`Store.Relaxes` relates the stores of the two runs: the layers bind the same, and one that hangs
from another does so on both sides, while one that hangs from nowhere may hang anywhere in the
second run. To go the same way and stay so related is a logic (`relaxation`), hence true of every
evaluation (`evalNode_relaxes`).
-/

namespace Tern

open Eval

/-- Turning lexical scope on and strict loops off, each or both or neither, relaxes. -/
theorem Config.relaxes_switches (c : Config) {lexical strict : Bool}
    (hl : c.lexicalScope = true → lexical = true) (hs : strict = true → c.strictWhile = true) :
    c.Relaxes { c with lexicalScope := lexical, strictWhile := strict } := ⟨rfl, rfl, hl, hs⟩

/-- The second store has the layers of the first, with more to see outward and, where it counts,
with relaxed configurations. -/
structure Store.Relaxes (s : Store) (own : LayerId → Prop) (t : Store) : Prop where
  size : t.layers.size = s.layers.size
  parent : ∀ l p, s.parent? l = some p → t.parent? l = some p
  bindings : ∀ l, t.bindings l = s.bindings l
  registry : ∀ l, (t.layer l).registry = (s.layer l).registry
  config : ∀ l, own l → (s.config l).Relaxes (t.config l)
  methods : t.methods = s.methods
  registries : t.registries = s.registries
  written : t.written = s.written
  log : t.log = s.log

/-- A later store of a run: layers and records have only been added. -/
structure Store.Before (s s' : Store) : Prop where
  size : s.layers.size ≤ s'.layers.size
  log : s.log.toList <+: s'.log.toList

/-- No error has been dropped since `s₀`. -/
def Store.Quiet (s₀ s : Store) : Prop :=
  ∀ event ∈ s.log.toList.drop s₀.log.size, event.isDrop = false

namespace Store

variable {s₀ s s' s'' t : Store} {own : LayerId → Prop}

/-! ## Later stores -/

theorem Before.refl (s : Store) : s.Before s := ⟨Nat.le_refl _, List.prefix_rfl⟩

theorem Before.trans (h : s.Before s') (h' : s'.Before s'') : s.Before s'' :=
  ⟨Nat.le_trans h.size h'.size, h.log.trans h'.log⟩

theorem before_record (s : Store) (event : Event) : s.Before (s.record event) where
  size := Nat.le_refl _
  log := by simp [Store.record]

theorem Quiet.of_before (h : s₀.Quiet s') (hs : s.Before s') : s₀.Quiet s := by
  obtain ⟨w, hw⟩ := hs.log
  intro event hevent
  refine h event ?_
  rw [← hw, List.drop_append]
  exact List.mem_append_left _ hevent

/-- A dropped error is recorded for good. -/
theorem not_quiet_of_drop (h₀ : s₀.Before s) {event : Event} (hdrop : event.isDrop = true)
    (h : (s.record event).Before s') : ¬s₀.Quiet s' := by
  intro hquiet
  have hlen : s₀.log.size ≤ s.log.size := by simpa using h₀.log.length_le
  have hmem : event ∈ (s.record event).log.toList.drop s₀.log.size := by
    simp only [Store.record, Array.toList_push]
    rw [List.drop_append_of_le_length (by simpa using hlen)]
    exact List.mem_append_right _ (List.mem_singleton.mpr rfl)
  have := hquiet.of_before h event hmem
  rw [hdrop] at this
  cases this

/-! ## Looking outward -/

section Outward

variable (h : s.Relaxes own t)

include h

theorem Relaxes.lookup? {e : LayerId} {name : String} {v : Value}
    (hv : s.lookup? e name = some v) : t.lookup? e name = some v := by
  obtain ⟨more, hmore⟩ := prefix_outwardFrom h.parent (e + 1) e
  unfold Store.lookup? Store.outward at *
  simp only [h.bindings]
  rw [← hmore, List.findSome?_append, hv]
  rfl

theorem Relaxes.owner? {e l : LayerId} {name : String}
    (hl : s.owner? e name = some l) : t.owner? e name = some l := by
  obtain ⟨more, hmore⟩ := prefix_outwardFrom h.parent (e + 1) e
  unfold Store.owner? Store.outward at *
  simp only [h.bindings]
  rw [← hmore, List.find?_append, hl]
  rfl

theorem Relaxes.builtin? (e : LayerId) (name : String) :
    t.builtin? e name = s.builtin? e name := by
  unfold Store.builtin? builtins
  rw [h.registries, h.registry]

end Outward

/-! ## The same operation on both sides -/

theorem bindings_bind_eq (s : Store) (e : LayerId) (name : String) (v : Value) (l : LayerId) :
    (s.bind e name v).bindings l =
      if e = l ∧ l < s.layers.size then (s.bindings l).put name v else s.bindings l := by
  unfold bindings
  rw [layer_bind]
  split <;> rfl

section Operations

variable (h : s.Relaxes own t)

include h

theorem Relaxes.bind (e : LayerId) (name : String) (v : Value) :
    (s.bind e name v).Relaxes own (t.bind e name v) where
  size := by simpa using h.size
  parent l p hp := by
    rw [parent?_bind] at hp ⊢
    exact h.parent l p hp
  bindings l := by rw [bindings_bind_eq, bindings_bind_eq, h.size, h.bindings]
  registry l := by rw [registry_bind, registry_bind, h.registry]
  config l hl := by
    rw [config_bind, config_bind]
    exact h.config l hl
  methods := h.methods
  registries := h.registries
  written := h.written
  log := h.log

theorem Relaxes.spawn {e : LayerId} (he : own e) {p p' : Option LayerId}
    (hp : ∀ q, p = some q → p' = some q) :
    (s.spawn e p).1.Relaxes own (t.spawn e p').1 where
  size := by simpa using h.size
  parent l q hq := by
    rw [parent?_spawn] at hq ⊢
    rw [h.size]
    split at hq
    · next hl => rw [if_pos hl, hp q hq]
    · next hl => rw [if_neg hl, h.parent l q hq]
  bindings l := by rw [bindings_spawn, bindings_spawn, h.bindings]
  registry l := by
    rw [layer_spawn, layer_spawn, h.size]
    split
    · exact h.registry e
    · exact h.registry l
  config l hl := by
    rw [config_spawn, config_spawn, h.size]
    split
    · exact h.config e he
    · exact h.config l hl
  methods := h.methods
  registries := h.registries
  written := h.written
  log := h.log

/-- Operations that leave the layers alone. -/
theorem Relaxes.of_layers {s' t' : Store} (hs : s'.layers = s.layers) (ht : t'.layers = t.layers)
    (hm : t'.methods = s'.methods) (hr : t'.registries = s'.registries)
    (hw : t'.written = s'.written) (hl : t'.log = s'.log) : s'.Relaxes own t' := by
  have hs' := layer_of_layers hs
  have ht' := layer_of_layers ht
  refine ⟨by rw [hs, ht, h.size], fun l p hp => ?_, fun l => ?_, fun l => ?_, fun l ho => ?_,
    hm, hr, hw, hl⟩
  · rw [parent?, hs'] at hp
    rw [parent?, ht']
    exact h.parent l p hp
  · rw [Store.bindings, Store.bindings, hs', ht']
    exact h.bindings l
  · rw [hs', ht']
    exact h.registry l
  · rw [Store.config, Store.config, hs', ht']
    exact h.config l ho

end Operations

end Store

/-! ## The logic of relaxation -/

namespace Eval

variable {α : Type}

theorem snd_attempt (x : Eval α) (s : Store) : (attempt x s).2 = (x s).2 := by
  unfold attempt
  rcases x s with ⟨f | a, s'⟩
  · cases f <;> rfl
  · rfl

theorem attempt_eq_ok {x : Eval α} {s s' : Store} {r : Except RuntimeError α}
    (h : attempt x s = (.ok r, s')) :
    (∃ a, r = .ok a ∧ x s = (.ok a, s')) ∨
      ∃ err, r = .error err ∧ x s = (.error (.raised err), s') := by
  unfold attempt at h
  rcases hx : x s with ⟨f | a, s₁⟩
  all_goals rw [hx] at h
  · cases f with
    | raised err => cases h; exact Or.inr ⟨err, rfl, rfl⟩
    | _ => cases h
  · cases h
    exact Or.inl ⟨a, rfl, rfl⟩

end Eval

/-- The layers that nodes are evaluated in, by an evaluation in `e` from `s₀` on. -/
def Store.Own (s₀ : Store) (e l : LayerId) : Prop := l = e ∨ s₀.layers.size ≤ l

/-- From `s₀` on, an evaluation that ends in a value without dropping an error ends likewise in
a store that relaxes its own. -/
structure Carries {α : Type} (s₀ : Store) (e : LayerId) (x : Eval α) (Q : α → Prop) : Prop where
  grows {s} : s₀.Before s → s.Before (x s).2
  ends {s a s'} : s₀.Before s → x s = (.ok a, s') → Q a
  follows {s t a s'} : s₀.Before s → s.Relaxes (s₀.Own e) t → x s = (.ok a, s') →
    s₀.Quiet s' → ∃ t' : Store, x t = (.ok a, t') ∧ s'.Relaxes (s₀.Own e) t'

namespace Carries

variable {α β : Type} {Q : α → Prop} {R : β → Prop} {s₀ : Store} {e : LayerId}

theorem pure {a : α} (h : Q a) : Carries s₀ e (pure a) Q where
  grows _ := .refl _
  ends _ hx := by cases hx; exact h
  follows _ ht hx _ := by cases hx; exact ⟨_, rfl, ht⟩

theorem fail (f : Failure) : Carries s₀ e (fail f : Eval α) Q where
  grows _ := .refl _
  ends _ hx := nomatch hx
  follows _ _ hx _ := nomatch hx

theorem bind {x : Eval α} {f : α → Eval β} (hx : Carries s₀ e x Q)
    (hf : ∀ a, Q a → Carries s₀ e (f a) R) : Carries s₀ e (x >>= f) R where
  grows {s} h := by
    have h₁ := hx.grows h
    rw [bind_apply]
    rcases hs : x s with ⟨_ | a, s₁⟩
    · rwa [hs] at h₁
    · rw [hs] at h₁
      exact h₁.trans ((hf a (hx.ends h hs)).grows (h.trans h₁))
  ends {s b s'} h hb := by
    obtain ⟨a, s₁, ha, hb⟩ := bind_eq_ok hb
    have h₁ : s.Before s₁ := by simpa [ha] using hx.grows h
    exact (hf a (hx.ends h ha)).ends (h.trans h₁) hb
  follows {s t b s'} h ht hb hquiet := by
    obtain ⟨a, s₁, ha, hb⟩ := bind_eq_ok hb
    have h₁ : s.Before s₁ := by simpa [ha] using hx.grows h
    have hfa := hf a (hx.ends h ha)
    have h₂ : s₁.Before s' := by simpa [hb] using hfa.grows (h.trans h₁)
    obtain ⟨t₁, hta, ht₁⟩ := hx.follows h ht ha (hquiet.of_before h₂)
    obtain ⟨t', htb, ht'⟩ := hfa.follows (h.trans h₁) ht₁ hb hquiet
    exact ⟨t', by rw [bind_apply, hta]; exact htb, ht'⟩

/-- Looking at something that both sides show alike. -/
theorem view {f : Store → α} (hQ : ∀ s, Q (f s))
    (hf : ∀ s t, s.Relaxes (s₀.Own e) t → f t = f s) : Carries s₀ e (view f) Q where
  grows _ := .refl _
  ends _ hx := by cases hx; exact hQ _
  follows {s t a s'} _ ht hx _ := by
    cases hx
    exact ⟨t, by rw [Eval.view, hf s t ht], ht⟩

theorem update {f : Store → Store} (hgrows : ∀ s : Store, s.Before (f s))
    (hf : ∀ s t, s.Relaxes (s₀.Own e) t → (f s).Relaxes (s₀.Own e) (f t)) :
    Carries s₀ e (update f) fun _ => True where
  grows _ := hgrows _
  ends _ _ := trivial
  follows {s t a s'} _ ht hx _ := by
    cases hx
    exact ⟨_, rfl, hf s t ht⟩

/-- Past an error that has been dropped there is nothing to show. -/
theorem attempt {x : Eval α} {f : Except RuntimeError α → Eval β} (hx : Carries s₀ e x Q)
    (hok : ∀ a, Q a → Carries s₀ e (f (.ok a)) R)
    (herr : ∀ err, ∃ event y, event.drop? = some err ∧
      f (.error err) = (Eval.record event >>= fun _ => y) ∧ Carries s₀ e y R) :
    Carries s₀ e (attempt x >>= f) R := by
  have hgrows : ∀ {s}, s₀.Before s → s.Before (Eval.attempt x s).2 := by
    intro s h
    rw [snd_attempt]
    exact hx.grows h
  -- What follows a dropped error goes on from a store with a record of it.
  have hdrop : ∀ err s, s₀.Before s → s.Before (f (.error err) s).2 ∧
      ∀ b s', f (.error err) s = (.ok b, s') → R b ∧ ¬s₀.Quiet s' := by
    intro err s h
    obtain ⟨event, y, hevent, hf, hy⟩ := herr err
    have h₁ := s.before_record event
    have h₂ : (s.record event).Before (y (s.record event)).2 := hy.grows (h.trans h₁)
    rw [hf]
    refine ⟨h₁.trans h₂, fun b s' hb => ⟨hy.ends (h.trans h₁) hb, ?_⟩⟩
    have hs' : (y (s.record event)).2 = s' := congrArg Prod.snd hb
    exact Store.not_quiet_of_drop h (Event.isDrop_of_drop? hevent) (hs' ▸ h₂)
  refine ⟨fun {s} h => ?_, fun {s b s'} h hb => ?_, fun {s t b s'} h ht hb hquiet => ?_⟩
  · have h₁ := hgrows h
    rw [bind_apply]
    rcases hs : Eval.attempt x s with ⟨_ | r, s₁⟩
    · rwa [hs] at h₁
    · rw [hs] at h₁
      rcases attempt_eq_ok hs with ⟨a, rfl, ha⟩ | ⟨err, rfl, -⟩
      · exact h₁.trans ((hok a (hx.ends h ha)).grows (h.trans h₁))
      · exact h₁.trans (hdrop err s₁ (h.trans h₁)).1
  · obtain ⟨r, s₁, hr, hb⟩ := bind_eq_ok hb
    have h₁ : s.Before s₁ := by simpa [hr] using hgrows h
    rcases attempt_eq_ok hr with ⟨a, rfl, ha⟩ | ⟨err, rfl, -⟩
    · exact (hok a (hx.ends h ha)).ends (h.trans h₁) hb
    · exact ((hdrop err s₁ (h.trans h₁)).2 b s' hb).1
  · obtain ⟨r, s₁, hr, hb⟩ := bind_eq_ok hb
    have h₁ : s.Before s₁ := by simpa [hr] using hgrows h
    rcases attempt_eq_ok hr with ⟨a, rfl, ha⟩ | ⟨err, rfl, -⟩
    · have hfa := hok a (hx.ends h ha)
      have h₂ : s₁.Before s' := by simpa [hb] using hfa.grows (h.trans h₁)
      obtain ⟨t₁, hta, ht₁⟩ := hx.follows h ht ha (hquiet.of_before h₂)
      obtain ⟨t', htb, ht'⟩ := hfa.follows (h.trans h₁) ht₁ hb hquiet
      refine ⟨t', ?_, ht'⟩
      rw [bind_apply, Eval.attempt, hta]
      exact htb
    · exact absurd hquiet ((hdrop err s₁ (h.trans h₁)).2 b s' hb).2

theorem located {x : Eval α} (n : Node) (hx : Carries s₀ e x Q) :
    Carries s₀ e (located n x) Q where
  grows {s} h := by
    rw [snd_located]
    exact hx.grows h
  ends h ha := hx.ends h (located_eq_ok.mp ha)
  follows h ht ha hquiet := by
    obtain ⟨t', hta, ht'⟩ := hx.follows h ht (located_eq_ok.mp ha) hquiet
    exact ⟨t', located_eq_ok.mpr hta, ht'⟩

theorem configOf {f : Config → Eval β} {a : LayerId} (ha : s₀.Own e a)
    (hrelax : ∀ c c', c.Relaxes c' → Refines (f c) (f c')) (hf : ∀ c, Carries s₀ e (f c) R) :
    Carries s₀ e (configOf a >>= f) R where
  grows {s} h := (hf (s.config a)).grows h
  ends {s _ _} h hb := (hf (s.config a)).ends h hb
  follows {s t b s'} h ht hb hquiet := by
    obtain ⟨t', htb, ht'⟩ := (hf (s.config a)).follows h ht hb hquiet
    exact ⟨t', hrelax _ _ (ht.config a ha) t b t' htb, ht'⟩

theorem lookup? {f : Option Value → Eval β} {cause : Cause} (a : LayerId) (name : String)
    (hnone : f none = raise cause) (hsome : ∀ v, Carries s₀ e (f (some v)) R) :
    Carries s₀ e (lookup? a name >>= f) R := by
  have hf : ∀ o, Carries s₀ e (f o) R := by
    intro o
    cases o with
    | none => exact hnone ▸ fail _
    | some v => exact hsome v
  refine ⟨fun {s} h => (hf (s.lookup? a name)).grows h,
    fun {s _ _} h hb => (hf (s.lookup? a name)).ends h hb, fun {s t b s'} h ht hb hquiet => ?_⟩
  have hrun : ∀ u : Store, (Eval.lookup? a name >>= f) u = f (u.lookup? a name) u := fun _ => rfl
  rw [hrun] at hb ⊢
  cases hs : s.lookup? a name with
  | none =>
      rw [hs, hnone] at hb
      cases hb
  | some v =>
      rw [ht.lookup? hs]
      rw [hs] at hb
      exact (hf (some v)).follows h ht hb hquiet

theorem setName (a : LayerId) (name : String) (v : Value) :
    Carries s₀ e (setName a name v) fun _ => True where
  grows {s} _ := by
    unfold Eval.setName
    cases s.owner? a name with
    | none => exact .refl _
    | some l => exact ⟨by simp, List.prefix_rfl⟩
  ends _ _ := trivial
  follows {s t u s'} _ ht hb _ := by
    unfold Eval.setName at hb ⊢
    cases hl : s.owner? a name with
    | none =>
        rw [hl] at hb
        cases hb
    | some l =>
        rw [hl] at hb
        cases hb
        rw [ht.owner? hl]
        exact ⟨_, rfl, ht.bind l name v⟩

/-- A layer may hang further out in the relaxed run. -/
theorem spawnWith {x : Eval LayerId} {a : LayerId} (ha : s₀.Own e a)
    (p : Config → Option LayerId) (hp : ∀ c c', c.Relaxes c' → ∀ q, p c = some q → p c' = some q)
    (hx : ∀ s, x s = (.ok s.layers.size, (s.spawn a (p (s.config a))).1)) :
    Carries s₀ e x (s₀.Own e) where
  grows {s} _ := by
    rw [hx]
    exact ⟨by simp, List.prefix_rfl⟩
  ends {s l s'} h hl := by
    rw [hx] at hl
    cases hl
    exact Or.inr h.size
  follows {s t l s'} _ ht hl _ := by
    rw [hx] at hl ⊢
    cases hl
    rw [ht.size]
    exact ⟨_, rfl, ht.spawn ha (hp _ _ (ht.config a ha))⟩

theorem addStruct (name : String) (fields : List String) {Q : StructRef → Prop}
    (hQ : ∀ r, Q r) : Carries s₀ e (create (·.addStruct name fields [])) Q where
  grows _ := ⟨Nat.le_refl _, List.prefix_rfl⟩
  ends _ _ := hQ _
  follows {s t r s'} _ ht hr _ := by
    cases hr
    refine ⟨(t.addStruct name fields []).1, ?_, ?_⟩
    · simp only [create, Store.addStruct, ht.methods]
    · exact ht.of_layers rfl rfl (congrArg (·.push []) ht.methods) ht.registries ht.written
        ht.log

end Carries

/-! ## Results -/

/-- Going the same way under a relaxed configuration. -/
def relaxation (s₀ : Store) (e : LayerId) : Logic where
  toDomain := .ofLayers (s₀.Own e)
  lawful := Domain.lawful_ofLayers _
  Stage := Unit
  knows _ := s₀.Own e
  layer_of_knows ha := ha
  Holds _ := Carries s₀ e
  pure := Carries.pure
  fail {_ _ _ f} _ := Carries.fail f
  bind := Carries.bind
  attempt _ := Carries.attempt
  located := Carries.located
  configOf := Carries.configOf
  builtin? {_ a} name _ := Carries.view (fun _ _ => trivial) fun _ _ h => h.builtin? a name
  lookup? {_ _ _ a _ _} name _ hnone _ hsome :=
    Carries.lookup? a name hnone fun v => hsome v (Domain.value_ofLayers _ v)
  bound {_ a} name _ := Carries.view (fun _ => trivial) fun _ _ h => by rw [h.bindings]
  bindName {_ a v} name _ _ :=
    Carries.update (fun _ => ⟨by simp, List.prefix_rfl⟩) fun _ _ h => h.bind a name v
  setName {_ a v} name _ _ := Carries.setName a name v
  spawn {_ _ _ _ p _} ha _ hf :=
    (Carries.spawnWith ha (fun _ => p) (fun _ _ _ _ h => h) fun _ => rfl).bind
      fun l hl => hf () l (fun _ => id) hl
  calleeLayer {_ _ _ a _} f ha hf := by
    refine (Carries.spawnWith ha (fun c => if c.lexicalScope then f.frame else none)
      (fun c c' h q hq => ?_) fun s => ?_).bind fun l hl => hf () l (fun _ => id) hl
    · cases hc : c.lexicalScope with
      | true => simpa [h.lexicalScope hc, hc] using hq
      | false => simp [hc] at hq
    · cases hc : (s.config a).lexicalScope <;>
        simp only [calleeLayer, scopeParent, Eval.configOf, Eval.view, bind_apply, hc] <;> rfl
  armLayer {_ _ _ a _} ha hf := by
    refine (Carries.spawnWith ha (fun c => if c.lexicalScope then some a else none)
      (fun c c' h q hq => ?_) fun s => rfl).bind fun l hl => hf () l (fun _ => id) hl
    cases hc : c.lexicalScope with
    | true => simpa [h.lexicalScope hc, hc] using hq
    | false => simp [hc] at hq
  method? r name := Carries.view (fun _ _ _ => False.elim) fun _ _ h => by
    rw [Store.methodsOf, h.methods, Store.methodsOf]
  addStruct name fields := Carries.addStruct name fields fun _ => Domain.value_ofLayers _ _
  putMethod {_ f} r name _ :=
    Carries.update (fun _ => ⟨Nat.le_refl _, List.prefix_rfl⟩) fun _ _ h =>
      h.of_layers rfl rfl (congrArg (·.modify r.id fun table => table.put name f) h.methods)
        h.registries h.written h.log
  write text := Carries.update (fun _ => ⟨Nat.le_refl _, List.prefix_rfl⟩) fun _ _ h =>
    h.of_layers rfl rfl h.methods h.registries (congrArg (·.push text) h.written) h.log
  record {_ event} _ := Carries.update (fun s => s.before_record event) fun _ _ h =>
    h.of_layers rfl rfl h.methods h.registries h.written (congrArg (·.push event) h.log)

/-- An evaluation that returns a value without dropping an error returns the same value under a
relaxed configuration: in lexical scope, without strict loops, or both. It writes the same, and
leaves the same bindings in every layer and the same methods. -/
theorem evalNode_relaxes (limit depth : Nat) (n : Node) (e : LayerId) (s t : Store)
    (h : s.Relaxes (· = e) t) {v : Value} {s' : Store}
    (hv : evalNode limit depth n e s = (.ok v, s')) (hquiet : s.Quiet s') :
    ∃ t', evalNode limit depth n e t = (.ok v, t') ∧ t'.written = s'.written ∧
      t'.layers.size = s'.layers.size ∧ (∀ l, t'.bindings l = s'.bindings l) ∧
      t'.methods = s'.methods := by
  have hown : s.Relaxes (s.Own e) t := by
    refine ⟨h.size, h.parent, h.bindings, h.registry, fun l hl => ?_, h.methods, h.registries,
      h.written, h.log⟩
    rcases hl with rfl | hl
    · exact h.config l rfl
    · have hs : s.layer l = Store.noLayer := by
        rw [Store.layer, Array.getElem?_eq_none hl]
        rfl
      have ht : t.layer l = Store.noLayer := by
        rw [Store.layer, Array.getElem?_eq_none (h.size ▸ hl)]
        rfl
      rw [Store.config, Store.config, hs, ht]
      exact ⟨rfl, rfl, id, id⟩
  have hsound := (relaxation s e).sound_evalNode trivial limit depth
  have hcarries : Carries s e (evalNode limit depth n e) (Domain.ofLayers (s.Own e)).value :=
    @hsound () n e (Or.inl rfl) False.elim
  obtain ⟨t', ht, hr⟩ := hcarries.follows (.refl s) hown hv hquiet
  exact ⟨t', ht, hr.written, hr.size, hr.bindings, hr.methods⟩

/-- `fn f(x) { x } f(true)` -/
def callsEcho : Node :=
  .block [.funDef "f" [.ident "x"] (.block [.ident "x"]), .call "f" [.boolean true]]

theorem relaxes_root : (Store.root {}).Relaxes (· = 0) (Store.root { lexicalScope := true }) := by
  refine ⟨rfl, fun l p hp => ?_, fun l => ?_, fun l => ?_, fun l hl => ?_, rfl, rfl, rfl, rfl⟩
  · cases l <;> cases hp
  · cases l <;> rfl
  · cases l <;> rfl
  · cases hl
    exact Config.relaxes_switches {} (fun _ => rfl) nofun

/-- The layer of the call hangs from nowhere in the one run and from the root in the other. -/
theorem evalNode_relaxes_callsEcho :
    (Store.root {}).Relaxes (· = 0) (Store.root { lexicalScope := true }) ∧
    ∃ s', evalNode 9 9 callsEcho 0 (Store.root {}) = (.ok (.bool true), s') ∧
      (Store.root {}).Quiet s' ∧
      ∃ t', evalNode 9 9 callsEcho 0 (Store.root { lexicalScope := true }) =
          (.ok (.bool true), t') ∧ (∀ l, t'.bindings l = s'.bindings l) ∧
        s'.parent? 1 = none ∧ t'.parent? 1 = some 0 := by
  have hquiet : (Store.root {}).Quiet (evalNode 9 9 callsEcho 0 (Store.root {})).2 := by
    show ∀ event ∈ [Event.functionDefined "f" ["x"], .called "f" ["x"]], event.isDrop = false
    decide
  obtain ⟨t', ht, -, -, hb, -⟩ := evalNode_relaxes 9 9 callsEcho 0 _ _ relaxes_root rfl hquiet
  refine ⟨relaxes_root, _, rfl, hquiet, t', ht, hb, rfl, ?_⟩
  cases ht
  rfl

end Tern
