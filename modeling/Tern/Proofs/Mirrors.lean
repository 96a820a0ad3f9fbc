import Mathlib.Data.List.Forall2
import Tern.Eval.Node
import Tern.Proofs.Layers
import Tern.Proofs.Shape

/-!
# Mirrors

A *mirror* says what the second of two runs has in place of what the first has: how names are
spelled there, which node stands for which, and which errors correspond. From it follows which
functions, values, layers and stores are mirrored by which (`Value.Mirrored`, `Store.Mirrored`). The
log is no part of this, so that stores may mirror each other that have recorded different things.

A `Lawful` mirror relates only nodes that are alike part by part, and lets errors correspond that
have been raised alike. A store finds in its layers what its mirror image finds in the same ones
(`Store.Mirrored.lookup?`), and stores still mirror each other after the same operation on both.
-/

namespace Tern

/-! ## Bindings -/

/-- The same place in two bindings. -/
inductive Entry (name : String → String) {α : Type} (R : α → α → Prop) :
    String × α → String × α → Prop
  | mk {x : String} {a b : α} (h : R a b) : Entry name R (x, a) (name x, b)

theorem isSome_of_rel {α β : Type} {R : α → β → Prop} {o : Option α} {o' : Option β}
    (h : Option.Rel R o o') : o'.isSome = o.isSome := by
  cases h <;> rfl

theorem rel_getElem? {α β : Type} {R : α → β → Prop} {as : List α} {bs : List β}
    (h : List.Forall₂ R as bs) (i : Nat) : Option.Rel R as[i]? bs[i]? := by
  induction h generalizing i with
  | nil => exact .none
  | cons hab _ ih =>
      cases i with
      | zero => exact .some hab
      | succ i => exact ih i

namespace Bindings

variable {α : Type} {R : α → α → Prop} {name : String → String} (hname : name.Injective)
  {b c : Bindings α} (h : List.Forall₂ (Entry name R) b c)

include hname h

theorem rel_get? (x : String) : Option.Rel R (b.get? x) (c.get? (name x)) := by
  induction h with
  | nil => exact .none
  | cons hp _ ih =>
      obtain ⟨hab⟩ := hp
      rw [get?_cons, get?_cons]
      simp only [hname.eq_iff]
      split
      · exact .some hab
      · exact ih

theorem holds_of_forall₂ (x : String) : c.holds (name x) = b.holds x :=
  isSome_of_rel (rel_get? hname h x)

theorem forall₂_put (x : String) {v w : α} (hvw : R v w) :
    List.Forall₂ (Entry name R) (b.put x v) (c.put (name x) w) := by
  induction h with
  | nil => exact .cons (.mk hvw) .nil
  | cons hp hrest ih =>
      obtain ⟨hab⟩ := hp
      unfold put
      simp only [hname.eq_iff]
      split
      · exact .cons (.mk hvw) hrest
      · exact .cons (.mk hab) ih

end Bindings

/-! ## What is mirrored -/

/-- What the second of two runs has in place of what the first has. -/
structure Mirror where
  /-- The spelling of a name. -/
  name : String → String
  /-- The nodes that may stand in a node's place. -/
  node : Node → Node → Prop
  /-- The errors that may be raised for an error. -/
  error : RuntimeError → RuntimeError → Prop
  /-- What is noted on an error that leaves a node, in the first run and in the second. -/
  note : Node → RuntimeError → RuntimeError
  note' : Node → RuntimeError → RuntimeError
  /-- Whether all trees are well shaped. -/
  shaped : Prop
  /-- Whether names are spelled in the same way. -/
  verbatim : Prop

/-- Trees that may be evaluated. -/
structure Node.Mirrored (M : Mirror) (n n' : Node) : Prop where
  node : M.node n n'
  shape : M.shaped → n.WellShaped

/-- The pattern and the body of an arm. -/
structure Mirror.Arm (M : Mirror) (a a' : Node × Node) : Prop where
  pattern : a.1.Mirrored M a'.1
  body : a.2.Mirrored M a'.2

structure Function.Mirrored (M : Mirror) (f f' : Function) : Prop where
  name : f'.name = M.name f.name
  params : f'.params = f.params.map M.name
  body : f.body.Mirrored M f'.body
  frame : f'.frame = f.frame

structure StructRef.Mirrored (M : Mirror) (r r' : StructRef) : Prop where
  id : r'.id = r.id
  name : r'.name = M.name r.name
  fields : r'.fields = r.fields.map M.name

inductive Value.Mirrored (M : Mirror) : Value → Value → Prop
  | nothing : Mirrored M .nothing .nothing
  | number (x : Float) : Mirrored M (.number x) (.number x)
  | string (s : String) : Mirrored M (.string s) (.string s)
  | bool (b : Bool) : Mirrored M (.bool b) (.bool b)
  | list {items items' : List Value} (h : List.Forall₂ (Mirrored M) items items') :
      Mirrored M (.list items) (.list items')
  | range (start stop : Int) : Mirrored M (.range start stop) (.range start stop)
  | function {f f' : Function} (h : f.Mirrored M f') : Mirrored M (.function f) (.function f')
  | struct {r r' : StructRef} (h : r.Mirrored M r') : Mirrored M (.struct r) (.struct r')
  | object {name : String} {fields fields' : List (String × Value)}
      (h : List.Forall₂ (Entry M.name (Mirrored M)) fields fields') :
      Mirrored M (.object name fields) (.object (M.name name) fields')
  | enum (variants : List String) : Mirrored M (.enum variants) (.enum variants)
  | variant (owner name : String) : Mirrored M (.variant owner name) (.variant owner name)

structure Eval.MethodTarget.Mirrored (M : Mirror) (t t' : Eval.MethodTarget) : Prop where
  receiver : t.receiver.Mirrored M t'.receiver
  struct : t.struct.Mirrored M t'.struct
  method : t.method.Mirrored M t'.method

/-- What kind of cause it is, whatever it is about: its form, and what could not be combined. -/
def Cause.kind (c : Cause) : Nat × Option Combining :=
  (c.ctorIdx, match c with
    | .cannotCombine how _ _ => some how
    | _ => none)

/-- Causes of the same kind, and the same ones if names are spelled in the same way. -/
structure Cause.Mirrored (M : Mirror) (c c' : Cause) : Prop where
  kind : c'.kind = c.kind
  same : M.verbatim → c' = c

structure ValueType.Mirrored (M : Mirror) (t t' : ValueType) : Prop where
  kind : t'.kind = t.kind
  same : M.verbatim → t' = t

inductive Failure.Mirrored (M : Mirror) : Failure → Failure → Prop
  | raised {e e' : RuntimeError} (h : M.error e e') : Mirrored M (.raised e) (.raised e')
  | undisplayable {t t' : ValueType} (h : t.Mirrored M t') :
      Mirrored M (.undisplayable t) (.undisplayable t')
  | host {f : Failure} (h : ∀ e, f ≠ .raised e) : Mirrored M f f

structure Layer.Mirrored (M : Mirror) (l l' : Layer) : Prop where
  parent : l'.parent = l.parent
  bindings : List.Forall₂ (Entry M.name (Value.Mirrored M)) l.bindings l'.bindings
  registry : l'.registry = l.registry
  config : l'.config = l.config

structure Store.Mirrored (M : Mirror) (s t : Store) : Prop where
  size : t.layers.size = s.layers.size
  layer : ∀ l, (s.layer l).Mirrored M (t.layer l)
  structs : t.methods.size = s.methods.size
  methods : ∀ i : Nat, List.Forall₂ (Entry M.name (Function.Mirrored M))
    ((s.methods[i]?).getD []) ((t.methods[i]?).getD [])
  registries : t.registries = s.registries
  written : t.written = s.written

/-- A mirror that relates only what is alike part by part. -/
structure Mirror.Lawful (M : Mirror) : Prop where
  injective : M.name.Injective
  builtin (b : Builtin) : M.name b.name = b.name
  receiver : M.name "self" = "self"
  wildcard : M.name "_" = "_"
  spelled : M.verbatim → ∀ x, M.name x = x
  tree {label cs p n'} : M.node (.tree label cs p) n' →
    ∃ cs' p', n' = .tree label cs' p' ∧ List.Forall₂ M.node cs cs'
  token {kind text p n'} : M.node (.token kind text p) n' →
    ∃ p', n' = .token kind (if kind = .ident then M.name text else text) p'
  stray {d n'} : M.node (.stray d) n' → n' = .stray d
  /-- Operators are spelled in the same way in any case. -/
  operator {label a o b p a' o' b' p'} : label = .binop ∨ label = .inPlace →
    (Node.tree label [a, o, b] p).Mirrored M (.tree label [a', o', b'] p') →
    o'.operatorText = o.operatorText
  raised {c c'} : c.Mirrored M c' → M.error ⟨c, none⟩ ⟨c', none⟩
  left {n n' e e'} : n.Mirrored M n' → M.error e e' → M.error (M.note n e) (M.note' n' e')

/-- Results on both sides: values, or reasons for having none. -/
inductive Ends {ε α β : Type} (E : ε → ε → Prop) (Q : α → β → Prop) :
    Except ε α → Except ε β → Prop
  | ok {a : α} {b : β} (h : Q a b) : Ends E Q (.ok a) (.ok b)
  | error {e e' : ε} (h : E e e') : Ends E Q (.error e) (.error e')

theorem Ends.map {ε α β γ δ : Type} {E : ε → ε → Prop} {Q : α → β → Prop} {R : γ → δ → Prop}
    {r : Except ε α} {r' : Except ε β} (h : Ends E Q r r') {f : α → γ} {g : β → δ}
    (hf : ∀ a b, Q a b → R (f a) (g b)) : Ends E R (r.map f) (r'.map g) := by
  cases h with
  | ok h => exact .ok (hf _ _ h)
  | error h => exact .error h

theorem Ends.mono {ε α β : Type} {E F : ε → ε → Prop} {Q R : α → β → Prop} {r : Except ε α}
    {r' : Except ε β} (h : Ends E Q r r') (hE : ∀ e e', E e e' → F e e')
    (hQ : ∀ a b, Q a b → R a b) : Ends F R r r' := by
  cases h with
  | ok h => exact .ok (hQ _ _ h)
  | error h => exact .error (hE _ _ h)

/-- Texts of what is mirrored: on both sides there is none, for the same integer, or there is one,
and the same one if names are spelled in the same way. -/
def Mirror.Shown (M : Mirror) {α : Type} : Except Int α → Except Int α → Prop :=
  Ends Eq fun text text' => M.verbatim → text' = text

variable {M : Mirror}

theorem Mirror.shown_refl {α : Type} : ∀ r : Except Int α, M.Shown r r
  | .ok _ => .ok fun _ => rfl
  | .error _ => .error rfl

theorem forall₂_mirrored {cs cs' : List Node} (h : List.Forall₂ M.node cs cs')
    (hs : ∀ n ∈ cs, M.shaped → n.WellShaped) : List.Forall₂ (Node.Mirrored M) cs cs' := by
  induction h with
  | nil => exact .nil
  | cons h _ ih =>
      obtain ⟨hn, hs⟩ := List.forall_mem_cons.mp hs
      exact .cons ⟨h, hn⟩ (ih hs)

namespace Mirror.Lawful

/-! ## Nodes -/

theorem forall₂_children (hM : M.Lawful) {label label' : Label} {cs cs' : List Node}
    {p p' : Option Pos} (h : M.node (.tree label cs p) (.tree label' cs' p')) :
    List.Forall₂ M.node cs cs' := by
  obtain ⟨_, _, heq, hcs⟩ := hM.tree h
  cases heq
  exact hcs

theorem children (hM : M.Lawful) {n n' : Node} (h : M.node n n') :
    List.Forall₂ M.node n.children n'.children := by
  cases n with
  | tree label cs p =>
      obtain ⟨cs', p', rfl, hcs⟩ := hM.tree h
      exact hcs
  | token kind text p =>
      obtain ⟨p', rfl⟩ := hM.token h
      exact .nil
  | stray d =>
      obtain rfl := hM.stray h
      exact .nil

theorem label? (hM : M.Lawful) {n n' : Node} (h : M.node n n') : n'.label? = n.label? := by
  cases n with
  | tree label cs p =>
      obtain ⟨cs', p', rfl, -⟩ := hM.tree h
      rfl
  | token kind text p =>
      obtain ⟨p', rfl⟩ := hM.token h
      rfl
  | stray d =>
      obtain rfl := hM.stray h
      rfl

theorem kindName (hM : M.Lawful) {n n' : Node} (h : M.node n n') : n'.kindName = n.kindName := by
  cases n with
  | tree label cs p =>
      obtain ⟨cs', p', rfl, -⟩ := hM.tree h
      rfl
  | token kind text p =>
      obtain ⟨p', rfl⟩ := hM.token h
      rfl
  | stray d =>
      obtain rfl := hM.stray h
      rfl

theorem identName? (hM : M.Lawful) {n n' : Node} (h : M.node n n') :
    n'.identName? = n.identName?.map M.name := by
  cases n with
  | tree label cs p =>
      obtain ⟨cs', p', rfl, -⟩ := hM.tree h
      rfl
  | token kind text p =>
      obtain ⟨p', rfl⟩ := hM.token h
      cases kind <;> rfl
  | stray d =>
      obtain rfl := hM.stray h
      rfl

mutual

/-- Where names are spelled in the same way, so are nodes in diagnostics. -/
theorem inspect (hM : M.Lawful) (hv : M.verbatim) :
    ∀ {n n' : Node}, M.node n n' → n'.inspect = n.inspect
  | .tree label cs p, _, h => by
      obtain ⟨cs', p', rfl, hcs⟩ := hM.tree h
      rw [Node.inspect, Node.inspect, inspectAll hM hv hcs]
  | .token kind text p, _, h => by
      obtain ⟨p', rfl⟩ := hM.token h
      rw [Node.inspect, Node.inspect, hM.spelled hv, ite_self]
  | .stray d, _, h => by rw [hM.stray h]

theorem inspectAll (hM : M.Lawful) (hv : M.verbatim) :
    ∀ {cs cs' : List Node}, List.Forall₂ M.node cs cs' →
    Node.inspectAll cs' = Node.inspectAll cs
  | [], _, .nil => rfl
  | [n], _, .cons h .nil => by rw [Node.inspectAll, Node.inspectAll, inspect hM hv h]
  | n :: m :: rest, _, .cons h (.cons h' hs) => by
      show _ ++ ", " ++ Node.inspectAll (_ :: _) = n.inspect ++ ", " ++ Node.inspectAll (m :: rest)
      rw [inspect hM hv h, inspectAll hM hv (.cons h' hs)]

end

/-! ## Values -/

theorem type (hM : M.Lawful) {v v' : Value} (h : v.Mirrored M v') :
    v.type.Mirrored M v'.type := by
  cases h with
  | struct h => exact ⟨rfl, fun hv => by rw [Value.type, Value.type, h.name, hM.spelled hv]⟩
  | object h => exact ⟨rfl, fun hv => by rw [Value.type, Value.type, hM.spelled hv]⟩
  | _ => exact ⟨rfl, fun _ => rfl⟩

mutual

/-- What can be printed has the same text on both sides. -/
theorem display (hM : M.Lawful) : ∀ {v v' : Value}, v.Mirrored M v' →
    Ends (ValueType.Mirrored M) Eq v.display v'.display
  | _, _, .list h => by
      unfold Value.display
      exact (displayItems hM h).map fun texts texts' htexts => by rw [htexts]
  | _, _, .struct h => .error (hM.type (.struct h))
  | _, _, .object h => .error (hM.type (.object h))
  | _, _, .nothing => .ok rfl
  | _, _, .number _ => .ok rfl
  | _, _, .string _ => .ok rfl
  | _, _, .bool _ => .ok rfl
  | _, _, .range _ _ => .ok rfl
  | _, _, .function _ => .ok rfl
  | _, _, .enum _ => .error ⟨rfl, fun _ => rfl⟩
  | _, _, .variant _ _ => .error ⟨rfl, fun _ => rfl⟩

theorem displayItems (hM : M.Lawful) :
    ∀ {vs vs' : List Value}, List.Forall₂ (Value.Mirrored M) vs vs' →
    Ends (ValueType.Mirrored M) Eq (Value.displayItems vs) (Value.displayItems vs')
  | _, _, .nil => .ok rfl
  | v :: vs, v' :: vs', .cons h hs => by
      have hfirst := display hM h
      unfold Value.displayItems
      generalize v.display = r at hfirst
      generalize v'.display = r' at hfirst
      cases hfirst with
      | ok h =>
          subst h
          exact (displayItems hM hs).map fun texts texts' htexts => by rw [htexts]
      | error h => exact .error h

end

theorem map_name (hM : M.Lawful) (hv : M.verbatim) (xs : List String) : xs.map M.name = xs := by
  rw [List.map_congr_left fun x _ => hM.spelled hv x, List.map_id']

mutual

theorem shown_echo (hM : M.Lawful) :
    ∀ {v v' : Value}, v.Mirrored M v' → M.Shown v.echo v'.echo
  | _, _, .nothing => .ok fun _ => rfl
  | _, _, .number _ => .ok fun _ => rfl
  | _, _, .string _ => .ok fun _ => rfl
  | _, _, .bool _ => .ok fun _ => rfl
  | _, _, .list h => by
      unfold Value.echo
      exact (shown_echoItems hM h).map fun texts texts' htexts hv => by rw [htexts hv]
  | _, _, .range start stop => shown_refl _
  | .function f, .function f', .function h => .ok fun hv => by
      rw [h.name, hM.spelled hv, h.params, hM.map_name hv]
  | .struct r, .struct r', .struct h => .ok fun hv => by
      rw [h.name, hM.spelled hv, h.fields, hM.map_name hv]
  | .object name fields, .object _ fields', .object h => by
      have hfields := shown_echoFields hM h
      cases h with
      | nil => exact .ok fun hv => by rw [hM.spelled hv]
      | cons h hs =>
          unfold Value.echo
          exact hfields.map fun texts texts' htexts hv => by rw [htexts hv, hM.spelled hv]
  | _, _, .enum _ => .ok fun _ => rfl
  | _, _, .variant _ _ => .ok fun _ => rfl

theorem shown_echoItems (hM : M.Lawful) :
    ∀ {vs vs' : List Value}, List.Forall₂ (Value.Mirrored M) vs vs' →
    M.Shown (Value.echoItems vs) (Value.echoItems vs')
  | _, _, .nil => .ok fun _ => rfl
  | v :: vs, v' :: vs', .cons h hs => by
      have hfirst := shown_echo hM h
      unfold Value.echoItems
      generalize v.echo = r at hfirst
      generalize v'.echo = r' at hfirst
      cases hfirst with
      | ok h =>
          exact (shown_echoItems hM hs).map fun texts texts' htexts hv => by
            rw [h hv, htexts hv]
      | error h => exact .error h

theorem shown_echoFields (hM : M.Lawful) : ∀ {fs fs' : List (String × Value)},
    List.Forall₂ (Entry M.name (Value.Mirrored M)) fs fs' →
    M.Shown (Value.echoFields fs) (Value.echoFields fs')
  | _, _, .nil => .ok fun _ => rfl
  | (x, v) :: fs, (_, v') :: fs', .cons (.mk h) hs => by
      have hfirst := shown_echo hM h
      unfold Value.echoFields
      generalize v.echo = r at hfirst
      generalize v'.echo = r' at hfirst
      cases hfirst with
      | ok h =>
          exact (shown_echoFields hM hs).map fun texts texts' htexts hv => by
            rw [hM.spelled hv, h hv, htexts hv]
      | error h => exact .error h

end

theorem shown_operandText (hM : M.Lawful) {v v' : Value} (h : v.Mirrored M v') :
    M.Shown v.operandText v'.operandText := by
  have hdisplay := hM.display h
  unfold Value.operandText
  generalize v.display = r at hdisplay
  generalize v'.display = r' at hdisplay
  cases hdisplay with
  | ok h => exact .ok fun _ => h.symm
  | error _ => exact hM.shown_echo h

theorem matching {v v' w w' : Value} (hv : v.Mirrored M v') (hw : w.Mirrored M w') :
    v'.matching w' = v.matching w := by
  cases hv <;> cases hw <;> rfl

theorem value? (op : Operator) {v v' w w' : Value} (hv : v.Mirrored M v')
    (hw : w.Mirrored M w') : op.value? v' w' = op.value? v w := by
  cases op <;> cases hv <;> first | rfl | (cases hw <;> rfl)

theorem value_mirrored {op : Operator} {v w u : Value} (h : op.value? v w = some u) :
    u.Mirrored M u := by
  unfold Operator.value? at h
  split at h
  · cases h
    exact .number _
  · obtain ⟨b, -, rfl⟩ := Option.map_eq_some_iff.mp h
    exact .bool _
  · obtain ⟨b, -, rfl⟩ := Option.map_eq_some_iff.mp h
    exact .bool _
  · cases h
    exact .bool _
  · cases h
    exact .bool _
  · cases h
    exact .bool _
  · cases h

theorem refusal (hM : M.Lawful) (op : Operator) {v v' w w' : Value} (hv : v.Mirrored M v')
    (hw : w.Mirrored M w') : (op.refusal v w).Mirrored M (op.refusal v' w') := by
  have hleft := hM.shown_operandText hv
  have hright := hM.shown_operandText hw
  unfold Operator.refusal
  generalize v.operandText = r at hleft
  generalize v'.operandText = r' at hleft
  generalize w.operandText = q at hright
  generalize w'.operandText = q' at hright
  cases hleft with
  | error h =>
      subst h
      exact .host nofun
  | ok hl =>
      cases hright with
      | error h =>
          subst h
          exact .host nofun
      | ok hr => exact .raised (hM.raised ⟨rfl, fun h => by rw [hl h, hr h]⟩)

/-- An operator gives on one side what it gives on the other. -/
theorem applyOperator (hM : M.Lawful) (op : String) {v v' w w' : Value} (hv : v.Mirrored M v')
    (hw : w.Mirrored M w') : Ends (Failure.Mirrored M) (Value.Mirrored M)
      (Tern.applyOperator op v w) (Tern.applyOperator op v' w') := by
  unfold Tern.applyOperator
  cases Operator.ofText? op with
  | none => exact .error (.raised (hM.raised ⟨rfl, fun _ => rfl⟩))
  | some op =>
      simp only [Operator.apply]
      rw [value? op hv hw]
      cases hvalue : op.value? v w with
      | some u => exact .ok (value_mirrored hvalue)
      | none => exact .error (hM.refusal op hv hw)

end Mirror.Lawful

namespace Store.Mirrored

variable {s t : Store} (h : s.Mirrored M t)

include h

/-! ## What stores show -/

theorem parent? (e : LayerId) : t.parent? e = s.parent? e := (h.layer e).parent

theorem config (e : LayerId) : t.config e = s.config e := (h.layer e).config

theorem outwardFrom : ∀ (n : Nat) (e : LayerId), t.outwardFrom n e = s.outwardFrom n e
  | 0, _ => rfl
  | n + 1, e => by
      unfold Store.outwardFrom
      rw [h.parent?]
      cases s.parent? e with
      | none => rfl
      | some p => exact congrArg (e :: ·) (outwardFrom n p)

theorem holds (hM : M.Lawful) (e : LayerId) (x : String) :
    (t.bindings e).holds (M.name x) = (s.bindings e).holds x :=
  Bindings.holds_of_forall₂ hM.injective (h.layer e).bindings x

theorem owner? (hM : M.Lawful) (e : LayerId) (x : String) :
    t.owner? e (M.name x) = s.owner? e x := by
  unfold Store.owner? outward
  rw [h.outwardFrom]
  simp only [h.holds hM]

theorem lookup? (hM : M.Lawful) (e : LayerId) (x : String) :
    Option.Rel (Value.Mirrored M) (s.lookup? e x) (t.lookup? e (M.name x)) := by
  unfold Store.lookup? outward
  rw [h.outwardFrom]
  induction s.outwardFrom (e + 1) e with
  | nil => exact .none
  | cons l ls ih =>
      rw [List.findSome?_cons, List.findSome?_cons]
      have hrel := Bindings.rel_get? hM.injective (h.layer l).bindings x
      change Option.Rel _ ((s.bindings l).get? x) ((t.bindings l).get? (M.name x)) at hrel
      generalize (s.bindings l).get? x = o at hrel
      generalize (t.bindings l).get? (M.name x) = o' at hrel
      cases hrel with
      | some hv => exact .some hv
      | none => exact ih

theorem builtin? (hM : M.Lawful) (e : LayerId) (x : String) :
    t.builtin? e (M.name x) = s.builtin? e x := by
  unfold Store.builtin? builtins
  rw [h.registries, (h.layer e).registry]
  congr 1
  funext b
  rw [Bool.eq_iff_iff, beq_iff_eq, beq_iff_eq]
  exact ⟨fun hx => hM.injective ((hM.builtin b).trans hx), fun hx => by rw [← hx, hM.builtin]⟩

theorem methodsOf {r r' : StructRef} (hr : r.Mirrored M r') :
    List.Forall₂ (Entry M.name (Function.Mirrored M)) (s.methodsOf r) (t.methodsOf r') := by
  unfold Store.methodsOf
  rw [hr.id]
  exact h.methods r.id

theorem method? (hM : M.Lawful) {r r' : StructRef} (hr : r.Mirrored M r') (x : String) :
    Option.Rel (Function.Mirrored M) ((s.methodsOf r).get? x)
      ((t.methodsOf r').get? (M.name x)) :=
  Bindings.rel_get? hM.injective (h.methodsOf hr) x

/-! ## The same operation on both sides -/

theorem bind (hM : M.Lawful) (e : LayerId) (x : String) {v v' : Value} (hv : v.Mirrored M v') :
    (s.bind e x v).Mirrored M (t.bind e (M.name x) v') := by
  refine ⟨?_, fun l => ?_, h.structs, h.methods, h.registries, h.written⟩
  · rw [size_bind, size_bind, h.size]
  · rw [layer_bind, layer_bind, h.size]
    have hl := h.layer l
    split
    · exact ⟨hl.parent, Bindings.forall₂_put hM.injective hl.bindings x hv, hl.registry, hl.config⟩
    · exact hl

theorem spawn (e : LayerId) (p : Option LayerId) :
    (s.spawn e p).1.Mirrored M (t.spawn e p).1 := by
  refine ⟨?_, fun l => ?_, h.structs, h.methods, h.registries, h.written⟩
  · rw [size_spawn, size_spawn, h.size]
  · rw [layer_spawn, layer_spawn, h.size]
    split
    · exact ⟨rfl, .nil, (h.layer e).registry, (h.layer e).config⟩
    · exact h.layer l

theorem addStruct (name : String) (fields : List String) (name' : String) (fields' : List String) :
    (s.addStruct name fields []).1.Mirrored M (t.addStruct name' fields' []).1 := by
  refine ⟨h.size, h.layer, ?_, fun i => ?_, h.registries, h.written⟩
  · simp only [Store.addStruct, Array.size_push, h.structs]
  · simp only [Store.addStruct, Array.getElem?_push, h.structs]
    split
    · exact .nil
    · exact h.methods i

theorem putMethod (hM : M.Lawful) {r r' : StructRef} (hr : r.Mirrored M r') (x : String)
    {f f' : Function} (hf : f.Mirrored M f') :
    (s.putMethod r x f).Mirrored M (t.putMethod r' (M.name x) f') := by
  refine ⟨h.size, h.layer, ?_, fun i => ?_, h.registries, h.written⟩
  · simp only [Store.putMethod, Array.size_modify, h.structs]
  · simp only [Store.putMethod, Array.getElem?_modify, hr.id]
    have hi := h.methods i
    split
    · by_cases hlt : i < s.methods.size
      · rw [Array.getElem?_eq_getElem hlt, Array.getElem?_eq_getElem (h.structs ▸ hlt)] at hi ⊢
        exact Bindings.forall₂_put hM.injective hi x hf
      · rw [Array.getElem?_eq_none (Nat.le_of_not_lt hlt),
          Array.getElem?_eq_none (h.structs ▸ Nat.le_of_not_lt hlt)]
        exact .nil
    · exact hi

theorem write (text : String) : (s.write text).Mirrored M (t.write text) :=
  ⟨h.size, h.layer, h.structs, h.methods, h.registries, congrArg (·.push text) h.written⟩

theorem record (event event' : Event) : (s.record event).Mirrored M (t.record event') :=
  ⟨h.size, h.layer, h.structs, h.methods, h.registries, h.written⟩

end Store.Mirrored

end Tern
