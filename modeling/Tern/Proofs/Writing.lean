import Tern.Proofs.Names
import Tern.Proofs.Scopes

/-!
# Writing to a name

An assignment and an update in place write to the nearest layer that binds the name, and that is
one binding and nothing else (`Store.Rebinds`). Which layer is the nearest is decided when the value
is there, since the evaluation of the value may bind the name further in. An update also reads the
name only then, so that it is never lost what the value has made of it (`evalNode_inPlace`). An
assignment looks for the name before its value is evaluated; it finds it again after, for a name
that is bound stays bound in its layer and layers keep their parents (`evalNode_setVar`).
-/

namespace Tern

open Eval

/-! ## One binding -/

/-- The stores differ in what one layer binds a name to, and in nothing else. -/
structure Store.Rebinds (s : Store) (l : LayerId) (x : String) (v : Value) (t : Store) : Prop where
  value : (t.bindings l).get? x = some v
  /-- Each layer has the same names in the same order. -/
  names : ∀ k, (t.bindings k).names = (s.bindings k).names
  others : ∀ k y, ¬(k = l ∧ y = x) → (t.bindings k).get? y = (s.bindings k).get? y
  layer : ∀ k, { t.layer k with bindings := s.bindings k } = s.layer k
  size : t.layers.size = s.layers.size
  rest : { t with layers := s.layers } = s

namespace Store

variable {s t : Store} {e l : LayerId} {x : String}

theorem lt_size_of_holds (h : (s.bindings l).holds x = true) : l < s.layers.size := by
  refine Nat.lt_of_not_le fun hle => ?_
  rw [s.bindings_eq_nil hle] at h
  cases h

/-- Binding a name again where it is bound changes one binding. -/
theorem rebinds_bind (h : (s.bindings l).holds x = true) (v : Value) :
    s.Rebinds l x v (s.bind l x v) where
  value := by rw [s.bindings_bind_self x v (lt_size_of_holds h), Bindings.get?_put, if_pos rfl]
  names k := by
    obtain hb | ⟨rfl, hb⟩ := s.bindings_bind l x v k
    · rw [hb]
    · rw [hb, Bindings.names_put_of_holds h]
  others k y hne := by
    obtain hb | ⟨rfl, hb⟩ := s.bindings_bind l x v k
    · rw [hb]
    · rw [hb, Bindings.get?_put, if_neg fun hy => hne ⟨rfl, hy⟩]
  layer k := by
    obtain hl | ⟨-, -, hl⟩ := s.layer_bind_or l x v k <;> rw [hl] <;> rfl
  size := s.size_bind l x v
  rest := rfl

end Store

namespace Eval

theorem setName_of_owner? {s : Store} {e l : LayerId} {x : String}
    (h : s.owner? e x = some l) (v : Value) : setName e x v s = (.ok (), s.bind l x v) := by
  rw [setName, h]

/-- An assignment to a name that was bound before its value was evaluated, and has an owner now. -/
theorem setVar_of_owner? {ev : Evaluator} {e l : LayerId} {s u : Store} {target value : Node}
    {x : String} {v : Value} (hx : target.identName? = some x)
    (hbound : (s.lookup? e x).isSome = true) (h : ev value e s = (.ok v, u))
    (hl : u.owner? e x = some l) :
    setVar ev e [target, value] s = (.ok .nothing, u.bind l x v) := by
  rw [setVar, expectIdent_eq hx]
  simp only [bind_apply, pure_apply, lookup?, view, Option.isNone_eq_false_iff.mpr hbound,
    Bool.false_eq_true, if_false, h, setName_of_owner? hl]

end Eval

/-! ## Later stores -/

namespace Store

variable {s t : Store} {e l : LayerId} {x : String}

theorem Later.links (h : s.Later t) : s.Links t := by
  induction h with
  | refl => exact .refl s
  | bind _ e name v ih => exact ih.trans (links_bind _ e name v)
  | spawn _ e p ih => exact ih.trans (links_spawn _ e p)
  | other _ hu ih => exact ih.trans (links_of_layers hu)

/-- A name that is bound outward from a layer has an owner there ever after. -/
theorem Later.exists_owner? (h : s.Later t) (hx : (s.lookup? e x).isSome = true) :
    ∃ l, t.owner? e x = some l := by
  obtain ⟨v, hv⟩ := Option.isSome_iff_exists.mp hx
  obtain ⟨k, hk, -⟩ := exists_owner?_of_lookup? hv
  have hholds : (t.bindings k).holds x = true := h.holds (within_of_owner? hk).2
  have hmem : k ∈ t.outward e :=
    (prefix_outwardFrom (fun _ _ => h.links.parent_eq_some) _ e).subset
      (List.mem_of_find?_eq_some hk)
  exact Option.isSome_iff_exists.mp
    ((List.find?_isSome (p := fun k => (t.bindings k).holds x)).mpr ⟨k, hmem, hholds⟩)

end Store

/-! ## Assignments -/

/-- Of an assignment to a name that is bound, whatever the value does as it is evaluated, the write
finds the name bound and changes one binding: that of the nearest layer that binds the name then. -/
theorem evalNode_setVar {target : Node} {x : String} (hx : target.identName? = some x)
    {e : LayerId} {s : Store} (hbound : (s.lookup? e x).isSome = true) {limit depth : Nat}
    {value : Node} {v : Value} {u : Store} (hv : evalNode limit depth value e s = (.ok v, u))
    (pos : Option Pos) :
    ∃ l, u.Nearest x e l ∧ u.Rebinds l x v (u.bind l x v) ∧
      setName e x v u = (.ok (), u.bind l x v) ∧
      evalNode limit (depth + 1) (.tree .setVar [target, value] pos) e s =
        (.ok .nothing, u.bind l x v) := by
  have hlater : s.Later u := by
    have h := later_evalNode limit depth value e s
    rwa [hv] at h
  obtain ⟨l, hl⟩ := hlater.exists_owner? hbound
  exact ⟨l, Store.nearest_of_owner? hl, Store.rebinds_bind (Store.within_of_owner? hl).2 v,
    setName_of_owner? hl v, located_eq_ok.mpr (setVar_of_owner? hx hbound hv hl)⟩

/-- A layer over another that binds `x` and `y`. -/
def overXY : Store :=
  ((((Store.root {}).bind 0 "x" (.number 1)).bind 0 "y" (.number 2)).spawn 0 (some 0)).1

/-- The tree of `{ let x = y; y }`. -/
def hidesX : Node :=
  .tree .block [.letOf "x" (.token .ident "y" none) none none, .token .ident "y" none] none

/-- The assignment `x = { let x = y; y }` finds one `x` before its value is evaluated, and writes to
another, which the value has made. -/
theorem evalNode_setVar_hidesX :
    let n := Node.tree .setVar [.token .ident "x" none, hidesX] none
    overXY.Nearest "x" 1 0 ∧
    (∃ (l : LayerId) (u : Store), u.Nearest "x" 1 l ∧
      u.Rebinds l "x" (.number 2) (u.bind l "x" (.number 2)) ∧
      evaluate n 1 overXY = (.ok .nothing, u.bind l "x" (.number 2))) ∧
    (evaluate n 1 overXY).2.lookup? 0 "x" = some (.number 1) := by
  let u := (evalNode turnLimit 999 hidesX 1 overXY).2
  have hx : (Node.token .ident "x" none).identName? = some "x" := rfl
  have hvalue : evalNode turnLimit 999 hidesX 1 overXY = (.ok (.number 2), u) := rfl
  obtain ⟨l, hl, hrebinds, -, hrun⟩ := evalNode_setVar hx rfl hvalue none
  exact ⟨.outward rfl rfl (.here rfl), ⟨l, u, hl, hrebinds, hrun⟩, rfl⟩

/-! ## Updates in place -/

/-- Each update in place is an operation of its own name without the sign of equality. -/
theorem exists_arith_of_update {op : String} (h : op ∈ ["+", "-", "*", "/"]) :
    ∃ arith, Arith.ofInPlace? (op ++ "=") = some arith ∧
      Operator.ofText? op = some (.arith arith) := by
  simp only [List.mem_cons, List.not_mem_nil, or_false] at h
  obtain rfl | rfl | rfl | rfl := h
  · exact ⟨.add, by decide, rfl⟩
  · exact ⟨.sub, by decide, rfl⟩
  · exact ⟨.mul, by decide, rfl⟩
  · exact ⟨.div, by decide, rfl⟩

namespace Eval

variable {ev : Evaluator} {e : LayerId} {s u : Store} {target opNode value : Node} {x : String}
  {op : Arith}

section

variable (hx : target.identName? = some x)
  (hop : Arith.ofInPlace? opNode.operatorText = some op)

include hx hop

theorem inPlace_of_error {f : Failure} (h : ev value e s = (.error f, u)) :
    inPlace ev e [target, opNode, value] s = (.error f, u) := by
  rw [inPlace, expectIdent_eq hx]
  simp only [bind_apply, pure_apply, hop, h]

theorem inPlace_of_mistyped {w : Value} (h : ev value e s = (.ok w, u))
    (hw : ∀ b, w ≠ .number b) : inPlace ev e [target, opNode, value] s =
      (.error (.raised ⟨.typeMismatch "int or float" w.type.text, none⟩), u) := by
  rw [inPlace, expectIdent_eq hx]
  simp only [bind_apply, pure_apply, hop, h]
  cases w with
  | number b => exact absurd rfl (hw b)
  | _ => rfl

theorem inPlace_of_unbound {b : Float} (h : ev value e s = (.ok (.number b), u))
    (hnone : u.lookup? e x = none) : inPlace ev e [target, opNode, value] s =
      (.error (.raised ⟨.variableNotFound x, none⟩), u) := by
  rw [inPlace, expectIdent_eq hx]
  simp only [bind_apply, pure_apply, hop, h, lookup?, view, hnone]
  rfl

theorem inPlace_of_boundElse {b : Float} {v : Value} (h : ev value e s = (.ok (.number b), u))
    (hv : u.lookup? e x = some v) (hne : ∀ a, v ≠ .number a) :
    inPlace ev e [target, opNode, value] s =
      (.error (.raised ⟨.typeMismatch "number" v.type.text, none⟩), u) := by
  rw [inPlace, expectIdent_eq hx]
  simp only [bind_apply, pure_apply, hop, h, lookup?, view, hv]
  cases v with
  | number a => exact absurd rfl (hne a)
  | _ => rfl

theorem inPlace_of_number {a b : Float} {l : LayerId} (h : ev value e s = (.ok (.number b), u))
    (ha : u.lookup? e x = some (.number a)) (hl : u.owner? e x = some l) :
    inPlace ev e [target, opNode, value] s =
      (.ok .nothing, u.bind l x (.number (op.apply a b))) := by
  rw [inPlace, expectIdent_eq hx]
  simp only [bind_apply, pure_apply, hop, h, lookup?, view, ha, setName_of_owner? hl]

end

end Eval

/-- An update in place evaluates its value and then looks at the name, in the store that the value
has left. When both are numbers it changes one binding, that of the nearest layer that binds the
name, to what the binary operator makes of the two numbers. In all other cases it fails, and the
store is as the value has left it. -/
theorem evalNode_inPlace {op x : String} (hop : op ∈ ["+", "-", "*", "/"])
    {target opNode : Node} (hx : target.identName? = some x)
    (htext : opNode.operatorText = op ++ "=") (limit depth : Nat) (value : Node)
    (pos : Option Pos) (e : LayerId) (s : Store) :
    let n := Node.tree .inPlace [target, opNode, value] pos
    let fails (cause : Cause) (u : Store) : Prop :=
      evalNode limit (depth + 1) n e s = (.error (.raised ⟨cause, n.position?⟩), u)
    (∀ f u, evalNode limit depth value e s = (.error f, u) →
      evalNode limit (depth + 1) n e s = (.error (f.at n.position?), u)) ∧
    ∀ w u, evalNode limit depth value e s = (.ok w, u) →
      ((∀ b, w ≠ .number b) → fails (.typeMismatch "int or float" w.type.text) u) ∧
      ∀ b, w = .number b →
        (u.lookup? e x = none → fails (.variableNotFound x) u) ∧
        ∀ v, u.lookup? e x = some v →
          ((∀ a, v ≠ .number a) → fails (.typeMismatch "number" v.type.text) u) ∧
          ∀ a, v = .number a → ∃ l r, u.Nearest x e l ∧
            (u.bindings l).get? x = some (.number a) ∧
            applyOperator op (.number a) (.number b) = .ok r ∧
            u.Rebinds l x r (u.bind l x r) ∧
            evalNode limit (depth + 1) n e s = (.ok .nothing, u.bind l x r) := by
  obtain ⟨arith, harith, hoperator⟩ := exists_arith_of_update hop
  rw [← htext] at harith
  refine ⟨fun f u h => located_error _ (inPlace_of_error hx harith h), fun w u h =>
    ⟨fun hw => located_error _ (inPlace_of_mistyped hx harith h hw), ?_⟩⟩
  rintro b rfl
  refine ⟨fun hnone => located_error _ (inPlace_of_unbound hx harith h hnone), fun v hv =>
    ⟨fun hne => located_error _ (inPlace_of_boundElse hx harith h hv hne), ?_⟩⟩
  rintro a rfl
  obtain ⟨l, hl, ha⟩ := Store.exists_owner?_of_lookup? hv
  refine ⟨l, .number (arith.apply a b), Store.nearest_of_owner? hl, ha, ?_,
    Store.rebinds_bind (Store.within_of_owner? hl).2 _,
    located_eq_ok.mpr (inPlace_of_number hx harith h hv hl)⟩
  rw [applyOperator, hoperator]
  rfl

/-- The update `x += { let x = y; y }` adds to the `x` that its value has made. -/
theorem evalNode_inPlace_hidesX :
    let n := Node.tree .inPlace [.token .ident "x" none, .token .inPlaceOp "+=" none, hidesX] none
    (∃ (l : LayerId) (r : Value) (u : Store), u.Nearest "x" 1 l ∧
      (u.bindings l).get? "x" = some (.number 2) ∧
      applyOperator "+" (.number 2) (.number 2) = .ok r ∧ u.Rebinds l "x" r (u.bind l "x" r) ∧
      evaluate n 1 overXY = (.ok .nothing, u.bind l "x" r)) ∧
    (evaluate n 1 overXY).2.lookup? 1 "x" = some (.number (2 + 2)) ∧
    (evaluate n 1 overXY).2.lookup? 0 "x" = some (.number 1) := by
  let u := (evalNode turnLimit 999 hidesX 1 overXY).2
  have hvalue : evalNode turnLimit 999 hidesX 1 overXY = (.ok (.number 2), u) := rfl
  have hx : (Node.token .ident "x" none).identName? = some "x" := rfl
  have htext : (Node.token .inPlaceOp "+=" none).operatorText = "+" ++ "=" := by decide
  have hold : u.lookup? 1 "x" = some (.number 2) := rfl
  have hdone := (evalNode_inPlace (by decide) hx htext turnLimit 999 hidesX none 1 overXY).2
    (.number 2) u hvalue
  obtain ⟨l, r, hrest⟩ := ((hdone.2 2 rfl).2 _ hold).2 2 rfl
  exact ⟨⟨l, r, u, hrest⟩, rfl, rfl⟩

end Tern
