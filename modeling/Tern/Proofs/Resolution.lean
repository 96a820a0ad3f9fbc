import Tern.Proofs.Watching

/-!
# Resolution comes first

Some nodes refer to what must be there before anything inside them is evaluated: the variable that
is assigned to, the function that is called, the receiver of a method call and what it leads to, the
struct of an instance or of a method, the list that is indexed, the name of a function that is
defined. A reference that does not resolve is an error of its own (`Store.refusal`), and nothing
else comes of the node, whatever is inside it (`evalNode_of_unresolved`): that is so with any
evaluator for the nodes inside (`step_of_unresolved`).

A call whose callee takes so many arguments checks that it has as many before it evaluates any, and
evaluates no more (`evalNode_surplus`).
-/

namespace Tern

open Eval

/-! ## References -/

/-- What a node refers to before anything inside it is evaluated. -/
inductive Reference
  /-- A variable that is assigned to. -/
  | variable (name : String)
  | callee (name : String)
  /-- A method by the name of the receiver. -/
  | method (receiver name : String)
  | struct (name : String)
  /-- A list that is indexed. -/
  | items (name : String)
  /-- A function that is defined. -/
  | definition (name : String)
  deriving Repr, DecidableEq

/-- The reference of a node. It depends on nothing but names that the node begins with. -/
def Node.reference? : Node → Option Reference
  | tree .setVar [x, _] _ => x.identName?.map .variable
  | tree .call [x, _] _ => x.identName?.map .callee
  | tree .getFunc [x, m, _] _ => x.identName?.bind fun r => m.identName?.map (.method r)
  | tree .callStruct (x :: _) _ => x.identName?.map .struct
  | tree .impl [x, _, _, _] _ => x.identName?.map .struct
  | tree .index [x, _] _ => x.identName?.map .items
  | tree .funDef [x, _, _] _ => x.identName?.map .definition
  | _ => none

namespace Store

/-- What is referred to is there. The name of a function that is defined must not be a builtin's. -/
def Resolves (s : Store) (e : LayerId) : Reference → Prop
  | .variable x => (s.lookup? e x).isSome
  | .callee x => (s.builtin? e x).isSome ∨ ∃ f, s.lookup? e x = some (.function f)
  | .method x m => ∃ name slots r f, s.lookup? e x = some (.object name slots) ∧
      s.lookup? e name = some (.struct r) ∧ (s.methodsOf r).get? m = some f
  | .struct x => ∃ r, s.lookup? e x = some (.struct r)
  | .items x => ∃ items, s.lookup? e x = some (.list items)
  | .definition x => s.builtin? e x = none

/-- A name is not bound, or to a value of another type. -/
def refusalOf (s : Store) (e : LayerId) (x expected : String) (unbound : Cause) : Cause :=
  match s.lookup? e x with
  | none => unbound
  | some v => .typeMismatch expected v.type.text

/-- The error of a reference that does not resolve. -/
def refusal (s : Store) (e : LayerId) : Reference → Cause
  | .variable x => .variableNotFound x
  | .callee x => s.refusalOf e x "function" (.functionNotFound x)
  | .method x m =>
    match s.lookup? e x with
    | some (.object name _) =>
      match s.lookup? e name with
      | some (.struct _) => .functionNotFound m
      | _ => .typeMismatch "struct" "unknown"
    | _ => .typeMismatch "struct" "unknown"
  | .struct x => s.refusalOf e x "struct" (.structNotFound x)
  | .items x => s.refusalOf e x "list" (.variableNotFound x)
  | .definition x => .isBuiltin x

theorem lookup?_log (s : Store) (log : Array Event) (e : LayerId) (x : String) :
    ({ s with log } : Store).lookup? e x = s.lookup? e x :=
  lookup?_of_layers (s := s) (t := { s with log }) rfl e x

theorem resolves_log (s : Store) (log : Array Event) (e : LayerId) (r : Reference) :
    ({ s with log } : Store).Resolves e r ↔ s.Resolves e r := by
  cases r <;> simp only [Resolves, lookup?_log] <;> exact Iff.rfl

end Store

/-! ## References that do not resolve -/

namespace Eval

variable {ev : Evaluator} {e : LayerId} {s : Store}

/-- An evaluation that does nothing but raise an error. -/
abbrev Raises (x : Eval Value) (s : Store) (cause : Cause) : Prop :=
  x s = (.error (.raised ⟨cause, none⟩), s)

theorem setVar_of_unresolved {x value : Node} {name : String} (hx : x.identName? = some name)
    (h : ¬s.Resolves e (.variable name)) :
    Raises (setVar ev e [x, value]) s (s.refusal e (.variable name)) := by
  have hnone : s.lookup? e name = none := by simpa [Store.Resolves] using h
  rw [Raises, setVar, expectIdent_eq hx]
  simp only [bind_apply, pure_apply, lookup?, view, hnone]
  rfl

theorem call_of_unresolved {x args : Node} {name : String} (hx : x.identName? = some name)
    (h : ¬s.Resolves e (.callee name)) :
    Raises (call ev e [x, args]) s (s.refusal e (.callee name)) := by
  obtain ⟨hbuiltin, hfunction⟩ := not_or.mp h
  have hnone : s.builtin? e name = none := Option.not_isSome_iff_eq_none.mp hbuiltin
  rw [Raises, call, expectIdent_eq hx]
  simp only [bind_apply, pure_apply, lookup?, view, hnone, Store.refusal, Store.refusalOf]
  cases hv : s.lookup? e name with
  | none => rfl
  | some v =>
      cases v with
      | function f => exact absurd ⟨f, hv⟩ hfunction
      | _ => rfl

theorem getFunc_of_unresolved {x m args : Node} {name method : String}
    (hx : x.identName? = some name) (hm : m.identName? = some method)
    (h : ¬s.Resolves e (.method name method)) :
    Raises (getFunc ev e [x, m, args]) s (s.refusal e (.method name method)) := by
  rw [Raises, getFunc, expectIdent_eq hx, expectIdent_eq hm]
  simp only [bind_apply, pure_apply, resolveMethod, lookup?, view, Store.refusal]
  cases hv : s.lookup? e name with
  | none => rfl
  | some v =>
      cases v with
      | object structName slots =>
          dsimp only [bind_apply, view]
          cases hr : s.lookup? e structName with
          | none => rfl
          | some u =>
              cases u with
              | struct r =>
                  have hnone : (s.methodsOf r).get? method = none := by
                    by_contra hsome
                    obtain ⟨f, hf⟩ := Option.ne_none_iff_exists'.mp hsome
                    exact h ⟨structName, slots, r, f, hv, hr, hf⟩
                  dsimp only [bind_apply, view]
                  rw [hnone]
                  rfl
              | _ => rfl
      | _ => rfl

/-- What instances and methods start with. -/
theorem lookupStruct_of_unresolved {name : String} (h : ¬s.Resolves e (.struct name)) :
    lookupStruct e name s = (.error (.raised ⟨s.refusal e (.struct name), none⟩), s) := by
  rw [lookupStruct]
  simp only [bind_apply, lookup?, view, Store.refusal, Store.refusalOf]
  cases hv : s.lookup? e name with
  | none => rfl
  | some v =>
      cases v with
      | struct r => exact absurd ⟨r, hv⟩ h
      | _ => rfl

theorem callStruct_of_unresolved {x : Node} {pairs : List Node} {name : String}
    (hx : x.identName? = some name) (h : ¬s.Resolves e (.struct name)) :
    Raises (callStruct ev e (x :: pairs)) s (s.refusal e (.struct name)) := by
  rw [Raises, callStruct, expectIdent_eq hx]
  simp only [bind_apply, pure_apply, lookupStruct_of_unresolved h]

theorem impl_of_unresolved {x method params body : Node} {name : String}
    (hx : x.identName? = some name) (h : ¬s.Resolves e (.struct name)) :
    Raises (impl e [x, method, params, body]) s (s.refusal e (.struct name)) := by
  rw [Raises, impl, expectIdent_eq hx]
  simp only [bind_apply, pure_apply, lookupStruct_of_unresolved h]

theorem index_of_unresolved {x idx : Node} {name : String} (hx : x.identName? = some name)
    (h : ¬s.Resolves e (.items name)) :
    Raises (index ev e [x, idx]) s (s.refusal e (.items name)) := by
  rw [Raises, index, expectIdent_eq hx]
  simp only [bind_apply, pure_apply, lookup?, view, Store.refusal, Store.refusalOf]
  cases hv : s.lookup? e name with
  | none => rfl
  | some v =>
      cases v with
      | list items => exact absurd ⟨items, hv⟩ h
      | _ => rfl

theorem funDef_of_unresolved {x params body : Node} {name : String}
    (hx : x.identName? = some name) (h : ¬s.Resolves e (.definition name)) :
    Raises (funDef e [x, params, body]) s (s.refusal e (.definition name)) := by
  have hsome : (s.builtin? e name).isSome = true := Option.isSome_iff_ne_none.mpr h
  rw [Raises, funDef, expectIdent_eq hx]
  simp only [bind_apply, pure_apply, view, hsome]
  rfl

/-- A reference that does not resolve is an error, whatever evaluates the nodes inside. -/
theorem step_of_unresolved (limit : Nat) {n : Node} {r : Reference} (hn : n.reference? = some r)
    (h : ¬s.Resolves e r) : Raises (step limit ev n e) s (s.refusal e r) := by
  unfold Node.reference? at hn
  split at hn
  · obtain ⟨name, hx, rfl⟩ := Option.map_eq_some_iff.mp hn
    exact setVar_of_unresolved hx h
  · obtain ⟨name, hx, rfl⟩ := Option.map_eq_some_iff.mp hn
    exact call_of_unresolved hx h
  · obtain ⟨name, hx, hn⟩ := Option.bind_eq_some_iff.mp hn
    obtain ⟨method, hm, rfl⟩ := Option.map_eq_some_iff.mp hn
    exact getFunc_of_unresolved hx hm h
  · obtain ⟨name, hx, rfl⟩ := Option.map_eq_some_iff.mp hn
    exact callStruct_of_unresolved hx h
  · obtain ⟨name, hx, rfl⟩ := Option.map_eq_some_iff.mp hn
    exact impl_of_unresolved hx h
  · obtain ⟨name, hx, rfl⟩ := Option.map_eq_some_iff.mp hn
    exact index_of_unresolved hx h
  · obtain ⟨name, hx, rfl⟩ := Option.map_eq_some_iff.mp hn
    exact funDef_of_unresolved hx h
  · cases hn

end Eval

/-- A node whose reference does not resolve raises the error of that and changes nothing. No node
inside it is evaluated, so that another node in its place, with whatever inside, does the same. -/
theorem evalNode_of_unresolved (limit depth : Nat) {n : Node} {r : Reference} {e : LayerId}
    {s : Store} (hn : n.reference? = some r) (h : ¬s.Resolves e r) :
    evalNode limit (depth + 1) n e s = (.error (.raised ⟨s.refusal e r, n.position?⟩), s) ∧
    ¬Happens (fun d _ _ _ _ => d ≤ depth) limit (depth + 1) n e s ∧
    ∀ n', n'.reference? = some r →
      evalNode limit (depth + 1) n' e s = (.error (.raised ⟨s.refusal e r, n'.position?⟩), s) := by
  have hrefused (n' : Node) (hn' : n'.reference? = some r) : evalNode limit (depth + 1) n' e s =
      (.error (.raised ⟨s.refusal e r, n'.position?⟩), s) :=
    located_error n' (step_of_unresolved limit hn' h)
  refine ⟨hrefused n hn, not_happens_inside fun ev => ?_, hrefused⟩
  rw [step_of_unresolved limit hn (mt (s.resolves_log #[] e r).mp h)]

/-- The tree of `print(1)`. -/
def printOne : Node :=
  .tree .call [.token .ident "print" none, .tree .args [.token .number "1" none] none] none

/-- The tree of `xs[print(1)]`. -/
def indexPrint : Node := .tree .index [.token .ident "xs" none, printOne] none

/-- What is no list is not indexed, and nothing is printed. -/
theorem evalNode_of_unresolved_indexPrint :
    let s := (Store.root {}).bind 0 "xs" (.bool true)
    indexPrint.reference? = some (.items "xs") ∧ ¬s.Resolves 0 (.items "xs") ∧
    evaluate indexPrint 0 s = (.error (.raised ⟨.typeMismatch "list" "Bool", none⟩), s) := by
  have hnot : ¬((Store.root {}).bind 0 "xs" (.bool true)).Resolves 0 (.items "xs") := by
    rintro ⟨items, hitems⟩
    cases hitems
  exact ⟨rfl, hnot, (evalNode_of_unresolved turnLimit 999 rfl hnot).1⟩

/-! ## Surplus arguments -/

/-- A call that begins with these names has a callee that takes so many arguments, and is known to
errors by a name: a function, or a method whose arguments are bound to its parameters. -/
inductive Store.Arity (s : Store) (e : LayerId) : Label → List Node → String → Nat → Prop
  | function {x : String} {f : Function} (pos : Option Pos) (hb : s.builtin? e x = none)
      (hf : s.lookup? e x = some (.function f)) :
      Arity s e .call [.token .ident x pos] f.name f.params.length
  | method {x method name : String} {slots : List (String × Value)} {r : StructRef} {f : Function}
      (pos posMethod : Option Pos) (hx : s.lookup? e x = some (.object name slots))
      (hr : s.lookup? e name = some (.struct r)) (hf : (s.methodsOf r).get? method = some f)
      (hc : (s.config e).methodArgs = .params) :
      Arity s e .getFunc [.token .ident x pos, .token .ident method posMethod]
        (r.name ++ "." ++ f.name) f.params.length

namespace Eval

variable {ev : Evaluator} {e : LayerId} {s : Store}

theorem resolveMethod_eq {x method name : String} {slots : List (String × Value)} {r : StructRef}
    {f : Function} (hx : s.lookup? e x = some (.object name slots))
    (hr : s.lookup? e name = some (.struct r)) (hf : (s.methodsOf r).get? method = some f) :
    resolveMethod e x method s = (.ok ⟨.object name slots, r, f⟩, s) := by
  simp only [resolveMethod, bind_apply, lookup?, view, hx, hr, hf]
  rfl

theorem call_eq_callFunction {x args : Node} {name : String} {f : Function}
    (hx : x.identName? = some name) (hb : s.builtin? e name = none)
    (hf : s.lookup? e name = some (.function f)) :
    call ev e [x, args] s = callFunction ev e f args.children s := by
  rw [call, expectIdent_eq hx]
  simp only [bind_apply, pure_apply, lookup?, view, hb, hf]

theorem getFunc_eq_callMethod {x m args : Node} {name method : String} {t : MethodTarget}
    (hx : x.identName? = some name) (hm : m.identName? = some method)
    (ht : resolveMethod e name method s = (.ok t, s)) :
    getFunc ev e [x, m, args] s = callMethod ev e t args.children s := by
  rw [getFunc, expectIdent_eq hx, expectIdent_eq hm]
  simp only [bind_apply, pure_apply, ht]

/-- Only as many arguments are evaluated as there are parameters. -/
theorem callFunction_append (f : Function) {args : List Node} (surplus : List Node)
    (h : args.length = f.params.length) :
    callFunction ev e f (args ++ surplus) = callFunction ev e f args := by
  have hzip : (f.params ++ []).zip (args ++ surplus) = f.params.zip args ++ [].zip surplus :=
    List.zip_append h.symm
  rw [List.append_nil, List.zip_nil_left, List.append_nil] at hzip
  have hlt : ¬(args ++ surplus).length < f.params.length := by simp [h]
  rw [callFunction, callFunction, enterFunction, enterFunction, if_neg hlt, hzip,
    if_neg (Nat.not_lt.mpr (Nat.le_of_eq h.symm))]

theorem callMethod_params {t : MethodTarget} (hc : (s.config e).methodArgs = .params)
    (args : List Node) : callMethod ev e t args s =
      (if args.length < t.method.params.length then
        raise (.arity (t.struct.name ++ "." ++ t.method.name) t.method.params.length args.length)
      else runMethod ev e t .params t.method.params (args.take t.method.params.length)) s := by
  simp only [callMethod, configOf, bind_apply, view, hc]

theorem callMethod_append {t : MethodTarget} (hc : (s.config e).methodArgs = .params)
    {args : List Node} (surplus : List Node) (h : args.length = t.method.params.length) :
    callMethod ev e t (args ++ surplus) s = callMethod ev e t args s := by
  have hlt : ¬(args ++ surplus).length < t.method.params.length := by simp [h]
  rw [callMethod_params hc, callMethod_params hc, if_neg hlt, if_neg (by omega), ← h,
    List.take_left, List.take_length]

/-- Of the arguments of a call, what comes of it depends on those that the callee takes. -/
theorem step_eq_of_surplus (limit : Nat) {label : Label} {names : List Node} {shown : String}
    {count : Nat} (h : s.Arity e label names shown count) {args surplus surplus' : List Node}
    (hargs : args.length = count) {n n' : Node} (hn : n.children = args ++ surplus)
    (hn' : n'.children = args ++ surplus') (pos : Option Pos) :
    step limit ev (.tree label (names ++ [n]) pos) e s =
      step limit ev (.tree label (names ++ [n']) pos) e s := by
  cases h with
  | function p hb hf =>
      show call ev e [_, n] s = call ev e [_, n'] s
      rw [call_eq_callFunction rfl hb hf, call_eq_callFunction rfl hb hf, hn, hn',
        callFunction_append _ surplus hargs, callFunction_append _ surplus' hargs]
  | method p q hx hr hf hc =>
      have ht := resolveMethod_eq hx hr hf
      show getFunc ev e [_, _, n] s = getFunc ev e [_, _, n'] s
      rw [getFunc_eq_callMethod rfl rfl ht, getFunc_eq_callMethod rfl rfl ht, hn, hn',
        callMethod_append hc surplus hargs, callMethod_append hc surplus' hargs]

theorem step_of_missing (limit : Nat) {label : Label} {names : List Node} {shown : String}
    {count : Nat} (h : s.Arity e label names shown count) {n : Node}
    (hn : n.children.length < count) (pos : Option Pos) :
    Raises (step limit ev (.tree label (names ++ [n]) pos) e) s
      (.arity shown count n.children.length) := by
  cases h with
  | function p hb hf =>
      show call ev e [_, n] s = _
      rw [call_eq_callFunction rfl hb hf, callFunction, enterFunction, if_pos hn]
      rfl
  | method p q hx hr hf hc =>
      show getFunc ev e [_, _, n] s = _
      rw [getFunc_eq_callMethod rfl rfl (resolveMethod_eq hx hr hf), callMethod_params hc,
        if_pos hn]
      rfl

end Eval

/-- What comes of a call, apart from the position that an error gets as it leaves the call, depends
on no more arguments than the callee takes, whatever else there is in their place. With fewer the
call fails before it evaluates any, and nothing has changed. -/
theorem evalNode_surplus {s : Store} {e : LayerId} {label : Label} {names : List Node}
    {shown : String} {count : Nat} (h : s.Arity e label names shown count) (limit depth : Nat)
    (pos : Option Pos) :
    (∀ args surplus surplus' n n', args.length = count → n.children = args ++ surplus →
      n'.children = args ++ surplus' → ∃ o : Outcome Value,
        evalNode limit depth (.tree label (names ++ [n]) pos) e s =
          o.at (Node.tree label (names ++ [n]) pos).position? ∧
        evalNode limit depth (.tree label (names ++ [n']) pos) e s =
          o.at (Node.tree label (names ++ [n']) pos).position?) ∧
    ∀ n : Node, n.children.length < count →
      evalNode limit (depth + 1) (.tree label (names ++ [n]) pos) e s =
        (.error (.raised ⟨.arity shown count n.children.length,
          (Node.tree label (names ++ [n]) pos).position?⟩), s) := by
  constructor
  · intro args surplus surplus' n n' hargs hn hn'
    cases depth with
    | zero => exact ⟨(.error .tooDeep, s), rfl, rfl⟩
    | succ depth =>
        refine ⟨step limit (evalNode limit depth) (.tree label (names ++ [n]) pos) e s,
          located_apply .., ?_⟩
        rw [step_eq_of_surplus limit h hargs hn hn' pos]
        exact located_apply ..
  · intro n hn
    exact located_error _ (step_of_missing limit h hn pos)

/-- An instance `p` of a struct `P` with the method `fn m(x) { x }`, where parameters are bound. -/
def withM : Store :=
  ((((Store.root { methodArgs := .params }).addStruct "P" []
    [("m", ⟨"m", ["x"], .token .ident "x" none, none⟩)]).1.bind 0 "P" (.struct ⟨0, "P", []⟩)).bind 0
      "p" (.object "P" []))

/-- The arguments of a call. -/
def argsOf (args : List Node) : Node := .tree .args args none

/-- The second argument may print, or be nothing that can be evaluated; with none the call fails. -/
theorem evalNode_surplus_withM :
    let names : List Node := [.token .ident "p" none, .token .ident "m" none]
    let one : Node := .token .trueWord "true" none
    withM.Arity 0 .getFunc names "P.m" 1 ∧
    (∃ o : Outcome Value,
      evaluate (.tree .getFunc (names ++ [argsOf [one, printOne]]) none) 0 withM = o.at none ∧
      evaluate (.tree .getFunc (names ++ [argsOf [one, .stray .absent]]) none) 0 withM =
        o.at none) ∧
    evaluate (.tree .getFunc (names ++ [argsOf []]) none) 0 withM =
      (.error (.raised ⟨.arity "P.m" 1 0, none⟩), withM) := by
  have harity : withM.Arity 0 .getFunc [.token .ident "p" none, .token .ident "m" none]
      ((⟨0, "P", []⟩ : StructRef).name ++ "." ++ "m") ["x"].length :=
    .method (f := ⟨"m", ["x"], .token .ident "x" none, none⟩) none none rfl rfl rfl rfl
  obtain ⟨hsurplus, -⟩ := evalNode_surplus harity turnLimit depthLimit none
  obtain ⟨-, hmissing⟩ := evalNode_surplus harity turnLimit 999 none
  exact ⟨harity, hsurplus [.token .trueWord "true" none] [printOne] [.stray .absent] (argsOf _)
    (argsOf _) rfl rfl rfl, hmissing (argsOf []) (by decide)⟩

end Tern
