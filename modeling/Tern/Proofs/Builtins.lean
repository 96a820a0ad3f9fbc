import Tern.Proofs.Policy
import Tern.Proofs.Watching

/-!
# Builtins are not shadowed

A program may bind the names of builtins as it likes, except to functions that it defines. A call
by such a name still runs the builtin, in every layer and at every moment of a run from a new root
(`unshadowed_of_reached`). For a registry never changes and a new layer has that of the layer that
it is made in, so that all layers of a run have the root's (`Store.Standard`); and a function gets
its name where it is defined, which is refused for the name of a builtin.

The rest is the flow of values. That no function has a builtin's name is said of all parts of all
values, and what evaluation makes of values is made of their parts; so it is a policy.
-/

namespace Tern

open Eval

/-! ## What a run has from its root -/

namespace Builtin

/-- No builtin has the name. -/
def Free (name : String) : Prop := ∀ b : Builtin, name ≠ b.name

theorem find?_name (b : Builtin) : all.find? (·.name == b.name) = some b := by
  cases b <;> rfl

theorem free_of_find? {name : String} (h : all.find? (·.name == name) = none) : Free name := by
  rintro b rfl
  rw [find?_name] at h
  cases h

end Builtin

namespace Store

/-- The builtins and the configuration of a new root are those of all layers. -/
structure Standard (config : Config) (s : Store) : Prop where
  registries : s.registries = #[Builtin.all]
  registry : ∀ l, (s.layer l).registry = 0
  config : ∀ l < s.layers.size, s.config l = config

/-- Whatever is bound, a call by the name of a builtin runs the builtin. -/
structure Unshadowed (config : Config) (s : Store) : Prop where
  registry : ∀ l < s.layers.size, (s.layer l).registry = (s.layer 0).registry
  builtins : ∀ l < s.layers.size, s.builtins l = Builtin.all
  config : ∀ l < s.layers.size, s.config l = config
  call : ∀ l < s.layers.size, ∀ limit ev (b : Builtin) pos pos' args,
    step limit ev (.tree .call [.token .ident b.name pos, args] pos') l s =
      callBuiltin ev l b args.children s
  functions : ∀ f, s.Holds (.function f) → Builtin.Free f.name

/-- A moment at which something is evaluated in a layer that there is, where builtins are not
shadowed before or after, nor in the value that has come of it. -/
structure UnshadowedAt (config : Config) (l : LayerId) (s : Store) (o : Outcome Value) : Prop where
  layer : l < s.layers.size
  before : s.Unshadowed config
  after : o.2.Unshadowed config
  value : ∀ v, o.1 = .ok v → ∀ f, (Value.function f).Part v → Builtin.Free f.name

/-- What a run has come to that has evaluated nodes in layers that there were, one after the
other, from a new root. -/
inductive Reached (config : Config) : Store → Prop
  | start : Reached config (root config)
  | after {s : Store} (h : Reached config s) (limit depth : Nat) (n : Node) {e : LayerId}
      (he : e < s.layers.size) : Reached config (evalNode limit depth n e s).2
  /-- What is written or recorded besides does not matter. -/
  | aside {s : Store} (h : Reached config s) (written : Array String) (log : Array Event) :
      Reached config { s with written, log }

namespace Standard

variable {config : Config} {s : Store}

theorem of_root (config : Config) : (root config).Standard config where
  registries := rfl
  registry l := by cases l <;> rfl
  config l hl := by
    obtain rfl : l = 0 := Nat.lt_one_iff.mp hl
    rfl

/-- Only layers and registries matter. -/
theorem of_layers (h : s.Standard config) {t : Store} (hlayers : t.layers = s.layers)
    (hregistries : t.registries = s.registries) : t.Standard config := by
  obtain ⟨layers, methods, registries, written, log⟩ := t
  obtain rfl := hlayers
  obtain rfl := hregistries
  exact ⟨h.registries, h.registry, h.config⟩

theorem builtins (h : s.Standard config) (l : LayerId) : s.builtins l = Builtin.all := by
  rw [Store.builtins, h.registries, h.registry]
  rfl

theorem bind (h : s.Standard config) (e : LayerId) (name : String) (v : Value) :
    (s.bind e name v).Standard config where
  registries := h.registries
  registry l := (s.registry_bind e name v l).trans (h.registry l)
  config l hl := (s.config_bind e name v l).trans (h.config l (s.size_bind e name v ▸ hl))

theorem spawn (h : s.Standard config) {e : LayerId} (he : e < s.layers.size)
    (p : Option LayerId) : (s.spawn e p).1.Standard config where
  registries := h.registries
  registry l := by
    rw [layer_spawn]
    split
    · exact h.registry e
    · exact h.registry l
  config l hl := by
    rw [config_spawn]
    rw [size_spawn] at hl
    split
    · exact h.config e he
    · next hne => exact h.config l (Nat.lt_of_le_of_ne (Nat.lt_succ_iff.mp hl) hne)

theorem call (h : s.Standard config) (l : LayerId) (limit : Nat) (ev : Evaluator) (b : Builtin)
    (pos pos' : Option Pos) (args : Node) :
    step limit ev (.tree .call [.token .ident b.name pos, args] pos') l s =
      callBuiltin ev l b args.children s := by
  have hfound : s.builtin? l b.name = some b := by
    rw [builtin?, h.builtins, b.find?_name]
  exact call_eq_callBuiltin rfl hfound

theorem unshadowed (h : s.Standard config)
    (hf : ∀ f, s.Holds (.function f) → Builtin.Free f.name) : s.Unshadowed config where
  registry l _ := (h.registry l).trans (h.registry 0).symm
  builtins l _ := h.builtins l
  config := h.config
  call l _ := h.call l
  functions := hf

end Standard

end Store

/-! ## The policy -/

namespace Policy

/-- All is standard, and no function has the name of a builtin. -/
def standard (config : Config) : Policy where
  layer _ := True
  part v := ∀ f, v = .function f → Builtin.Free f.name
  failure _ := True
  shaped := False
  defines := Builtin.Free
  keeps := Store.Standard config
  present := True

variable {config : Config} {s : Store}

theorem lawful_standard (config : Config) : (standard config).Lawful where
  domain := {
    plain := by
      rintro v hv f rfl
      cases hv
    define := by
      rintro e body name params - hname - f ⟨⟩
      exact hname
    body := fun _ => False.elim
    range := fun _ _ => nofun
    ranged := fun _ _ => trivial
    documented := fun _ => trivial
    located := fun _ _ => trivial
    unshaped := fun _ _ => trivial }
  bind name v hs _ := hs.keeps.bind _ name v
  rebind v hs _ _ := hs.keeps.bind _ _ v
  spawn hs _ hlt _ := ⟨hs.keeps.spawn (hlt trivial) _, trivial⟩
  addStruct _ _ hs := ⟨hs.keeps.of_layers rfl rfl, nofun⟩
  putMethod _ _ _ hs := hs.keeps.of_layers rfl rfl
  write _ hs := hs.keeps.of_layers rfl rfl
  record _ hs := hs.keeps.of_layers rfl rfl
  builtin? hs _ hnone := by
    rw [Store.builtin?, hs.keeps.builtins] at hnone
    exact Builtin.free_of_find? hnone

theorem Admits.unshadowed (h : (standard config).Admits s) : s.Unshadowed config :=
  h.keeps.unshadowed fun f hf => Store.all_iff_holds.mp h.values _ hf f rfl

theorem AdmitsAt.unshadowedAt {count : Nat} {e : LayerId}
    (h : (standard config).AdmitsAt count s) (he : e < count) {o : Outcome Value}
    (hends : (standard config).Ends (standard config).value o.1)
    (hafter : (standard config).Admits o.2) : s.UnshadowedAt config e o where
  layer := Nat.lt_of_lt_of_le he h.size
  before := h.unshadowed
  after := hafter.unshadowed
  value v hv f hf := by
    rw [hv] at hends
    exact hends _ hf f rfl

end Policy

/-! ## Runs -/

section Runs

open Policy

variable {config : Config} {s : Store}

theorem Policy.admits_standard (config : Config) :
    (standard config).Admits (Store.root config) where
  keeps := .of_root config
  values l q hq := by cases l <;> cases hq
  methods _ _ _ _ := False.elim

theorem Policy.Admits.aside (h : (standard config).Admits s) (written : Array String)
    (log : Array Event) : (standard config).Admits { s with written, log } :=
  ⟨h.keeps.of_layers rfl rfl, h.values.of_bindings fun _ => rfl, h.methods⟩

theorem Policy.admits_evalNode (h : (standard config).Admits s) (limit depth : Nat) (n : Node)
    {e : LayerId} (he : e < s.layers.size) :
    (standard config).Ends (standard config).value (Eval.evalNode limit depth n e s).1 ∧
      (standard config).Admits (Eval.evalNode limit depth n e s).2 :=
  have hsafe := safe_evalNode (lawful_standard config) limit depth ⟨trivial, fun _ => he⟩
    (n := n) False.elim s h.at
  ⟨hsafe.1, hsafe.2.toAdmits⟩

theorem Store.Reached.admits (h : s.Reached config) : (standard config).Admits s := by
  induction h with
  | start => exact admits_standard config
  | after _ limit depth n he ih => exact (admits_evalNode ih limit depth n he).2
  | aside _ written log ih => exact ih.aside written log

/-- In a run from a new root, all layers have the root's builtins and configuration, a call by the
name of a builtin runs the builtin in each of them, and no function of such a name is bound to a
name, part of a list or part of an instance, nor comes of evaluating anything: from the start to
the end and at all moments between. -/
theorem unshadowed_of_reached (h : s.Reached config) :
    s.Unshadowed config ∧ ∀ limit depth n e, e < s.layers.size →
      s.UnshadowedAt config e (evalNode limit depth n e s) ∧
      ¬Happens (fun _ _ l t o => ¬t.UnshadowedAt config l o) limit depth n e s := by
  have hs := h.admits
  refine ⟨hs.unshadowed, fun limit depth n e he => ⟨?_, ?_⟩⟩
  · obtain ⟨hends, hafter⟩ := admits_evalNode hs limit depth n he
    exact hs.at.unshadowedAt he hends hafter
  · refine not_happens (lawful_standard config) (fun count _ _ l t o hl ht hends hafter hnot => ?_)
      limit depth ⟨trivial, fun _ => he⟩ False.elim (hs.aside s.written #[]).at
    exact hnot (ht.unshadowedAt (hl.lt trivial) hends hafter)

/-- The tree of `let print = true`. -/
def letPrint : Node :=
  .tree .assign [.token .ident "print" none, .token .trueWord "true" none] none

/-- A run that binds the name of a builtin. -/
theorem unshadowed_letPrint :
    (Store.root {}).Reached {} ∧
    (evaluate letPrint 0 (Store.root {})).2.lookup? 0 "print" = some (.bool true) ∧
    (evaluate letPrint 0 (Store.root {})).2.Unshadowed {} :=
  ⟨.start, by rfl, ((unshadowed_of_reached .start).2 turnLimit depthLimit letPrint 0
    (by decide)).1.after⟩

end Runs

end Tern
