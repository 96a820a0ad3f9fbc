import Tern.Proofs.Instances
import Tern.Proofs.Resolution

/-!
# Giving a method

A definition of a method writes to one entry of one table: that of the struct that its name is
bound to (`Store.Gains`). Names and instances do not hold tables but refer to them, by the number
of a definition or by way of a name that has it, and so the method is there for all of them at
once, whatever the struct is called where it is looked for. A definition that is evaluated again
has a number of its own (`Defines.id_ne`), and so a table of its own, under whatever name.
-/

namespace Tern

open Eval

/-- The nodes are these names. -/
abbrev Node.AreNames : List Node → List String → Prop :=
  List.Forall₂ fun n x => n.identName? = some x

/-- The stores differ in one method of one struct, beside the record of its definition. -/
structure Store.Gains (s : Store) (r : StructRef) (m : String) (f : Function) (t : Store) :
    Prop where
  method : (t.methodsOf r).get? m = some f
  others : ∀ y, y ≠ m → (t.methodsOf r).get? y = (s.methodsOf r).get? y
  /-- A new method comes last, and any other keeps its place. -/
  names : (t.methodsOf r).names =
    if m ∈ (s.methodsOf r).names then (s.methodsOf r).names else (s.methodsOf r).names ++ [m]
  tables : ∀ i, i ≠ r.id → t.methods[i]? = s.methods[i]?
  layers : t.layers = s.layers
  registries : t.registries = s.registries
  written : t.written = s.written
  log : t.log = s.log.push (.methodDefined r.name m f.params)

theorem Store.Gains.methodsOf_eq {s t : Store} {r r' : StructRef} {m : String} {f : Function}
    (h : s.Gains r m f t) (hid : r'.id ≠ r.id) : t.methodsOf r' = s.methodsOf r' := by
  rw [methodsOf, h.tables r'.id hid, methodsOf]

/-- In a layer a name is bound to an instance whose struct, by its name there, is this one. -/
def Store.Receives (s : Store) (l : LayerId) (y : String) (r : StructRef) : Prop :=
  ∃ name slots r', s.lookup? l y = some (.object name slots) ∧
    s.lookup? l name = some (.struct r') ∧ r'.id = r.id

/-- The evaluation of a node in a layer defines a struct there. -/
inductive Eval.Defines : Node → LayerId → Store → StructRef → Store → Prop
  | intro {limit depth : Nat} {x fields : Node} {pos : Option Pos} {name : String} {l : LayerId}
      {s u : Store} {v : Value} {r : StructRef} (hx : x.identName? = some name)
      (h : evalNode limit depth (.tree .structDef [x, fields] pos) l s = (.ok v, u))
      (hr : (u.bindings l).get? name = some (.struct r)) :
      Defines (.tree .structDef [x, fields] pos) l s r u

/-! ## Tables -/

namespace Store

variable {s : Store} {r r' : StructRef}

theorem methodsOf_putMethod_self {table : Bindings Function} (h : s.methods[r.id]? = some table)
    (m : String) (f : Function) : (s.putMethod r m f).methodsOf r = table.put m f := by
  rw [methodsOf, putMethod, Array.getElem?_modify, if_pos rfl, h]
  rfl

theorem getElem?_putMethod_of_ne {i : Nat} (h : i ≠ r.id) (m : String) (f : Function) :
    (s.putMethod r m f).methods[i]? = s.methods[i]? := by
  rw [putMethod, Array.getElem?_modify, if_neg h.symm]

theorem methodsOf_congr (h : r'.id = r.id) : s.methodsOf r' = s.methodsOf r := by
  rw [methodsOf, h, methodsOf]

theorem gains_putMethod {table : Bindings Function} (h : s.methods[r.id]? = some table)
    (m : String) (f : Function) :
    s.Gains r m f ((s.putMethod r m f).record (.methodDefined r.name m f.params)) := by
  have hold : s.methodsOf r = table := by rw [methodsOf, h]; rfl
  have hnew : ((s.putMethod r m f).record (.methodDefined r.name m f.params)).methodsOf r =
      table.put m f := methodsOf_putMethod_self h m f
  refine ⟨?_, fun y hy => ?_, ?_, fun i hi => getElem?_putMethod_of_ne hi m f, rfl, rfl, rfl, rfl⟩
  · rw [hnew, Bindings.get?_put, if_pos rfl]
  · rw [hnew, hold, Bindings.get?_put, if_neg hy]
  · rw [hnew, hold, Bindings.names_put]

end Store

/-! ## Definitions -/

namespace Eval.Defines

variable {d : Node} {l l₁ l₂ : LayerId} {s u s₁ u₁ s₂ u₂ : Store} {r r₁ r₂ : StructRef}

/-- A definition has the next number and an empty table. -/
theorem fresh (h : Defines d l s r u) : r.id = s.methods.size ∧ u.methods = s.methods.push [] := by
  obtain @⟨limit, depth, x, fields, pos, name, l, s, u, v, r, hx, h, hr⟩ := h
  cases depth with
  | zero => cases h
  | succ depth =>
      have hrun : structDef l [x, fields] s = (.ok v, u) := located_eq_ok.mp h
      rw [structDef, expectIdent_eq hx] at hrun
      obtain ⟨names, s₁, hnames, hrest⟩ := bind_eq_ok (x := identList fields) hrun
      cases hrest
      obtain rfl := store_of_identList hnames
      refine ⟨?_, rfl⟩
      have hbound : (((s₁.addStruct name names []).1.bind l name
          (.struct ⟨s₁.methods.size, name, names⟩)).bindings l).get? name = some (.struct r) := hr
      by_cases hl : l < s₁.layers.size
      · rw [Store.bindings_bind_self (s₁.addStruct name names []).1 name _ hl, Bindings.get?_put,
          if_pos rfl] at hbound
        cases hbound
        rfl
      · rw [Store.bindings_eq_nil _ (by simpa [Store.addStruct] using hl)] at hbound
        cases hbound

/-- A table is there for good. -/
theorem exists_table (h : Defines d l s₁ r u₁) (hs : u₁.methods.size ≤ s.methods.size) :
    ∃ table, s.methods[r.id]? = some table := by
  obtain ⟨hid, hmethods⟩ := h.fresh
  have hlt : r.id < s.methods.size := by
    rw [hmethods, Array.size_push] at hs
    omega
  exact ⟨_, Array.getElem?_eq_getElem hlt⟩

/-- One node defines two structs when it is evaluated twice. -/
theorem id_ne (h₁ : Defines d l₁ s₁ r₁ u₁) (h₂ : Defines d l₂ s₂ r₂ u₂)
    (hs : u₁.methods.size ≤ s₂.methods.size) : r₁.id ≠ r₂.id := by
  obtain ⟨hid₁, hmethods⟩ := h₁.fresh
  obtain ⟨hid₂, -⟩ := h₂.fresh
  rw [hmethods, Array.size_push] at hs
  omega

end Eval.Defines

/-! ## Resolution -/

namespace Eval

variable {s t u : Store} {r : StructRef} {m : String} {f : Function}

theorem resolveMethod_of_receives {l : LayerId} {y : String} (h : u.Receives l y r)
    (hf : (u.methodsOf r).get? m = some f) :
    ∃ receiver r', u.lookup? l y = some receiver ∧ r'.id = r.id ∧
      resolveMethod l y m u = (.ok ⟨receiver, r', f⟩, u) := by
  obtain ⟨name, slots, r', hy, hname, hid⟩ := h
  rw [← Store.methodsOf_congr hid] at hf
  exact ⟨_, r', hy, hid, resolveMethod_eq hy hname hf⟩

/-- Other methods are found as before, and so is all of any other struct. -/
theorem resolveMethod_of_gains (h : s.Gains r m f t) {l : LayerId} {y m' : String}
    (hother : m' ≠ m ∨ ¬s.Receives l y r) :
    resolveMethod l y m' t = ((resolveMethod l y m' s).1, t) := by
  have hlookup := Store.lookup?_of_layers h.layers l
  simp only [resolveMethod, bind_apply, lookup?, view, hlookup]
  cases hy : s.lookup? l y with
  | none => rfl
  | some v =>
      cases v with
      | object name slots =>
          simp only [bind_apply, view, hlookup]
          cases hname : s.lookup? l name with
          | none => rfl
          | some w =>
              cases w with
              | struct r' =>
                  have hmethod : (t.methodsOf r').get? m' = (s.methodsOf r').get? m' := by
                    by_cases hid : r'.id = r.id
                    · have hm : m' ≠ m :=
                        hother.resolve_right fun hnot => hnot ⟨name, slots, r', hy, hname, hid⟩
                      rw [Store.methodsOf_congr hid, h.others m' hm, Store.methodsOf_congr hid]
                    · rw [h.methodsOf_eq hid]
                  simp only [bind_apply, view, hmethod]
                  cases (s.methodsOf r').get? m' <;> rfl
              | _ => rfl
      | _ => rfl

theorem identList_eq {n : Node} {names : List String} (h : Node.AreNames n.children names) :
    identList n = pure names := by
  unfold identList
  generalize n.children = ns at h
  induction h with
  | nil => rfl
  | cons hn _ ih =>
      rw [each, expectIdent_eq hn, ih]
      rfl

theorem impl_eq {e : LayerId} {struct method params body : Node} {x : String} {ps : List String}
    (hx : struct.identName? = some x) (hm : method.identName? = some m)
    (hps : Node.AreNames params.children ps) (hr : s.lookup? e x = some (.struct r)) :
    impl e [struct, method, params, body] s =
      (.ok .nothing, (s.putMethod r m ⟨m, ps, body, some e⟩).record
        (.methodDefined r.name m ps)) := by
  rw [impl, expectIdent_eq hx, expectIdent_eq hm, identList_eq hps]
  simp only [bind_apply, pure_apply, lookupStruct_eq hr]
  rfl

end Eval

/-- The definition of a method changes one entry of the table of its struct, which is there if the
struct has been defined by an evaluation (`Defines.exists_table`). No other table changes, not even
that of a struct that another evaluation of the same node has defined, before or after. From then on
every instance that comes to the struct by a name has the method, and for all others, and for all
other methods, nothing has changed. -/
theorem evalNode_impl {struct method params body : Node} {x m : String} {ps : List String}
    (hx : struct.identName? = some x) (hm : method.identName? = some m)
    (hps : Node.AreNames params.children ps) {e : LayerId} {s : Store} {r : StructRef}
    (hr : s.lookup? e x = some (.struct r)) {table : Bindings Function}
    (htable : s.methods[r.id]? = some table) (limit depth : Nat) (pos : Option Pos) :
    let f : Function := ⟨m, ps, body, some e⟩
    ∃ t, evalNode limit (depth + 1) (.tree .impl [struct, method, params, body] pos) e s =
        (.ok .nothing, t) ∧
      s.Gains r m f t ∧
      (∀ d l₁ l₂ s₁ u₁ s₂ u₂ r', Defines d l₁ s₁ r u₁ → Defines d l₂ s₂ r' u₂ →
        u₁.methods.size ≤ s₂.methods.size ∨ u₂.methods.size ≤ s₁.methods.size →
        t.methodsOf r' = s.methodsOf r') ∧
      (∀ u : Store, (u.methodsOf r).get? m = (t.methodsOf r).get? m → ∀ l y, u.Receives l y r →
        ∃ receiver r', u.lookup? l y = some receiver ∧ r'.id = r.id ∧
          resolveMethod l y m u = (.ok ⟨receiver, r', f⟩, u)) ∧
      ∀ l y m', m' ≠ m ∨ ¬s.Receives l y r →
        resolveMethod l y m' t = ((resolveMethod l y m' s).1, t) := by
  have hgains := Store.gains_putMethod htable m ⟨m, ps, body, some e⟩
  refine ⟨_, located_eq_ok.mpr (impl_eq hx hm hps hr), hgains,
    fun d l₁ l₂ s₁ u₁ s₂ u₂ r' h₁ h₂ hsize => hgains.methodsOf_eq ?_,
    fun u hu l y hy => resolveMethod_of_receives hy (hu.trans hgains.method),
    fun l y m' hother => resolveMethod_of_gains hgains hother⟩
  obtain hle | hle := hsize
  · exact (h₁.id_ne h₂ hle).symm
  · exact h₂.id_ne h₁ hle

/-- A root in which a struct `P` with an instance has been defined, and then another one, by the
same node, after the first has got the name `Q`. -/
def twoPs : Store :=
  let first := ((Store.root {}).addStruct "P" ["a"] []).1.bind 0 "Q" (.struct ⟨0, "P", ["a"]⟩)
  let second := (first.addStruct "P" ["a"] []).1.bind 0 "P" (.struct ⟨1, "P", ["a"]⟩)
  (second.bind 0 "y" (.object "Q" [])).bind 0 "z" (.object "P" [])

/-- A method of `Q` is one of the instance `y` of `Q`, and not one of the instance `z` of `P`. -/
theorem evalNode_impl_twoPs :
    let n := Node.tree .impl [.token .ident "Q" none, .token .ident "m" none,
      .tree .params [.token .ident "v" none] none, .token .ident "v" none] none
    ∃ t, evaluate n 0 twoPs = (.ok .nothing, t) ∧
      (∃ receiver r, resolveMethod 0 "y" "m" t =
        (.ok ⟨receiver, r, ⟨"m", ["v"], .token .ident "v" none, some 0⟩⟩, t)) ∧
      resolveMethod 0 "z" "m" t = (.error (.raised ⟨.functionNotFound "m", none⟩), t) := by
  have hx : (Node.token .ident "Q" none).identName? = some "Q" := rfl
  have hm : (Node.token .ident "m" none).identName? = some "m" := rfl
  have hps : Node.AreNames (Node.tree .params [.token .ident "v" none] none).children ["v"] :=
    .cons rfl .nil
  have hr : twoPs.lookup? 0 "Q" = some (.struct ⟨0, "P", ["a"]⟩) := rfl
  obtain ⟨t, hrun, hgains, -, hfound, hkept⟩ := evalNode_impl
    hx hm hps hr rfl turnLimit 999 none
  have hy : t.Receives 0 "y" ⟨0, "P", ["a"]⟩ := by
    refine ⟨"Q", [], ⟨0, "P", ["a"]⟩, ?_, ?_, rfl⟩ <;>
      exact Store.lookup?_of_layers (s := twoPs) hgains.layers 0 _
  have hz : ¬twoPs.Receives 0 "z" ⟨0, "P", ["a"]⟩ := by
    rintro ⟨_, _, _, hobject, hstruct, hid⟩
    cases hobject
    cases hstruct
    cases hid
  obtain ⟨receiver, r, -, -, hresolved⟩ := hfound t rfl 0 "y" hy
  exact ⟨t, hrun, ⟨receiver, r, hresolved⟩, hkept 0 "z" "m" (.inr hz)⟩

end Tern
