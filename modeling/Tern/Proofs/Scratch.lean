import Tern.Proofs.Resolution
import Tern.Proofs.Writing

/-!
# The arguments of methods

The arguments of a method are evaluated in a scratch layer that lies over the caller's, all in the
same one. What they define stays in there, whatever they do and whether or not the call comes to
anything: no layer from before gets a name (`Sealed`). What the scratch layer does not bind is read
and written where the caller has it (`ScopedOver`). The body of the method then runs in a layer that
binds `self` and the values of the arguments (`Store.enterMethod`).
-/

namespace Tern

open Eval

/-! ## Layers over others -/

/-- A layer that lies over another: what it does not bind is looked for there. -/
structure Store.LiesOver (t : Store) (l e : LayerId) : Prop where
  rooted : t.Rooted l
  parent : t.parent? l = some e

namespace Store.LiesOver

variable {t u : Store} {l e : LayerId}

theorem lt (h : t.LiesOver l e) : e < l := h.rooted.lt_of_parent h.parent

theorem of_links (h : t.LiesOver l e) (hu : t.Links u) : u.LiesOver l e :=
  ⟨h.rooted.of_links hu, (hu.parent l h.rooted.lt).trans h.parent⟩

theorem owner?_eq (h : t.LiesOver l e) (x : String) :
    t.owner? l x = if (t.bindings l).holds x then some l else t.owner? e x :=
  h.rooted.owner?_of_parent h.parent x

end Store.LiesOver

/-- The name of a definition. -/
def Node.definition? : Node → Option String
  | tree .assign [x, _] _ => x.identName?
  | tree .funDef [x, _, _] _ => x.identName?
  | tree .structDef [x, _] _ => x.identName?
  | _ => none

/-- The first item of what a loop runs over. -/
def Value.firstItem? : Value → Option Value
  | list (v :: _) => some v
  | range start stop => if start < stop then (Number.ofInt? start).map number else none
  | _ => none

namespace Eval

variable (ev : Evaluator) (l : LayerId) (t : Store)

/-- A loop comes to its first turn, in which it gives the name to an item. -/
inductive HasTurn : Node → String → Prop
  | intro {target iterable body : Node} {pos : Option Pos} {x : String} {w item : Value} {u : Store}
      (hx : target.identName? = some x) (h : ev iterable l t = (.ok w, u))
      (hitem : w.firstItem? = some item) : HasTurn (.tree .forLoop [target, iterable, body] pos) x

/-- A node comes to where it writes a value to a name that is bound. -/
inductive Writes : Node → String → Value → Store → Prop
  | setVar {target value : Node} {pos : Option Pos} {x : String} {w : Value} {u : Store}
      (hx : target.identName? = some x) (h : ev value l t = (.ok w, u)) :
      Writes (.tree .setVar [target, value] pos) x w u
  | inPlace {target opNode value : Node} {pos : Option Pos} {x : String} {op : Arith}
      {a b : Float} {u : Store} (hx : target.identName? = some x)
      (hop : Arith.ofInPlace? opNode.operatorText = some op)
      (h : ev value l t = (.ok (.number b), u)) (ha : u.lookup? l x = some (.number a)) :
      Writes (.tree .inPlace [target, opNode, value] pos) x (.number (op.apply a b)) u

/-- What a node does to names in a layer that lies over another. -/
structure ScopedOver (limit depth : Nat) (e : LayerId) (n : Node) : Prop where
  /-- What the layer does not bind is read in the other. -/
  read : ∀ x, t.lookup? l x = ((t.bindings l).get? x).or (t.lookup? e x)
  /-- No other layer gets a name. -/
  names : ∀ k, k < t.layers.size → k ≠ l →
    ((evalNode limit depth n l t).2.bindings k).names = (t.bindings k).names
  /-- What is defined is the layer's own, whatever there is in the other. -/
  define : ∀ x v u, n.definition? = some x → evalNode limit depth n l t = (.ok v, u) →
    u.owner? l x = some l
  /-- So is the name of a loop, whatever becomes of the loop. -/
  loop : ∀ inner x, depth = inner + 1 → HasTurn (evalNode limit inner) l t n x →
    (evalNode limit depth n l t).2.owner? l x = some l
  /-- What the layer does not bind is written where the other has it. -/
  write : ∀ inner x w u k, depth = inner + 1 → Writes (evalNode limit inner) l t n x w u →
    (u.bindings l).holds x = false → u.owner? e x = some k →
    evalNode limit depth n l t = (.ok .nothing, u.bind k x w)

end Eval

/-! ## Definitions -/

section Definitions

variable {limit depth : Nat} {l : LayerId} {x : String} {v : Value} {t u : Store}

theorem owner?_of_assign {target value : Node} (hx : target.identName? = some x)
    (hl : l < t.layers.size) (h : assign (evalNode limit depth) l [target, value] t = (.ok v, u)) :
    u.owner? l x = some l := by
  rw [assign, expectIdent_eq hx] at h
  obtain ⟨_, _, hname, h⟩ := bind_eq_ok h
  cases hname
  obtain ⟨w, t₁, hw, h⟩ := bind_eq_ok h
  have hlinks := Policy.links_evalNode limit depth value l t
  rw [hw] at hlinks
  obtain ⟨bound, _, hbound, h⟩ := bind_eq_ok h
  cases hbound
  split at h
  · cases h
  · cases h
    exact Store.owner?_of_holds (t₁.holds_bind_self x w (Nat.lt_of_lt_of_le hl hlinks.size))

theorem owner?_of_funDef {target params body : Node} (hx : target.identName? = some x)
    (hl : l < t.layers.size) (h : funDef l [target, params, body] t = (.ok v, u)) :
    u.owner? l x = some l := by
  rw [funDef, expectIdent_eq hx] at h
  obtain ⟨_, _, hname, h⟩ := bind_eq_ok h
  cases hname
  obtain ⟨b, _, hb, h⟩ := bind_eq_ok h
  cases hb
  split at h
  · cases h
  · obtain ⟨xs, t₁, hxs, h⟩ := bind_eq_ok h
    cases h
    obtain rfl := store_of_identList hxs
    exact Store.owner?_of_holds (t₁.holds_bind_self x _ hl)

theorem owner?_of_structDef {target fields : Node} (hx : target.identName? = some x)
    (hl : l < t.layers.size) (h : structDef l [target, fields] t = (.ok v, u)) :
    u.owner? l x = some l := by
  rw [structDef, expectIdent_eq hx] at h
  obtain ⟨_, _, hname, h⟩ := bind_eq_ok h
  cases hname
  obtain ⟨xs, t₁, hxs, h⟩ := bind_eq_ok h
  cases h
  obtain rfl := store_of_identList hxs
  exact Store.owner?_of_holds ((t₁.addStruct x xs []).1.holds_bind_self x _ hl)

theorem holds_turn (s : Store) (body : Node) (item : Value) :
    (Policy.logic (Policy.lawful_later s)).Holds (0 : Nat) (turn limit depth l x body item)
      (Policy.logic (Policy.lawful_later s)).value :=
  have hknows : (Policy.onLayers (fun _ => True) s.Later).Knows 0 l := ⟨trivial, False.elim⟩
  ((Policy.logic (Policy.lawful_later s)).bindName x hknows (Domain.value_ofLayers _ item)).bind
    fun _ _ => (Policy.logic (Policy.lawful_later s)).sound_evalNode trivial limit depth body l
      hknows False.elim

/-- After the first turn of a loop its name stays bound, whatever becomes of the loop. -/
theorem owner?_of_turn {body : Node} {item : Value} {rest : Value → Eval Value}
    (hl : l < t.layers.size)
    (hrest : ∀ s r, (Policy.logic (Policy.lawful_later s)).Holds (0 : Nat) (rest r)
      (Policy.logic (Policy.lawful_later s)).value) :
    ((turn limit depth l x body item >>= rest) t).2.owner? l x = some l := by
  let start := t.bind l x item
  have hbody : (Policy.logic (Policy.lawful_later start)).Holds (0 : Nat)
      (evalNode limit depth body l >>= rest) (Policy.logic (Policy.lawful_later start)).value :=
    ((Policy.logic (Policy.lawful_later start)).sound_evalNode trivial limit depth body l
      ⟨trivial, False.elim⟩ False.elim).bind fun r _ => hrest start r
  have hbind : (turn limit depth l x body item >>= rest) t =
      (evalNode limit depth body l >>= rest) start :=
    congrFun (bind_assoc (bindName l x item) (fun _ => evalNode limit depth body l) rest) t
  have hlater : start.Later ((evalNode limit depth body l >>= rest) start).2 :=
    Policy.keeps_of_safe hbody rfl .refl
  rw [hbind]
  exact Store.owner?_of_holds (hlater.holds (t.holds_bind_self x item hl))

/-- A loop that has a turn has bound its name in the layer itself. -/
theorem owner?_of_hasTurn {n : Node} (hn : HasTurn (evalNode limit depth) l t n x)
    (hl : l < t.layers.size) : (evalNode limit (depth + 1) n l t).2.owner? l x = some l := by
  cases hn with
  | @intro target iterable body pos _ w item u hx hw hitem =>
      have hlinks := Policy.links_evalNode limit depth iterable l t
      rw [hw] at hlinks
      have hlu : l < u.layers.size := Nat.lt_of_lt_of_le hl hlinks.size
      have hloop :
          (evalNode limit (depth + 1) (.tree .forLoop [target, iterable, body] pos) l t).2 =
            (forLoop (evalNode limit depth) l [target, iterable, body] t).2 := snd_located ..
      rw [hloop, forLoop, expectIdent_eq hx]
      simp only [bind_apply, pure_apply, hw]
      cases w with
      | list items =>
          cases items with
          | nil => cases hitem
          | cons v rest =>
              refine owner?_of_turn hlu fun s r => ?_
              exact Logic.holds_overItems (Domain.value_ofLayers _ r) fun a _ => holds_turn s body a
      | range start stop =>
          simp only [Value.firstItem?] at hitem
          split at hitem
          · next hlt =>
            obtain ⟨y, hy, rfl⟩ := Option.map_eq_some_iff.mp hitem
            obtain ⟨n, hn⟩ : ∃ n, (stop - start).toNat = n + 1 :=
              Nat.exists_eq_succ_of_ne_zero (by omega)
            simp only [hn, overRange, wholeTurn, hy]
            refine owner?_of_turn hlu fun s r => ?_
            refine Logic.holds_overRange (Domain.value_ofLayers _ r) fun i _ _ => ?_
            exact Logic.holds_wholeTurn (fun y => holds_turn s body (.number y)) fun _ => trivial
          · cases hitem
      | _ => cases hitem

/-- A definition that succeeds has bound its name in the layer itself. -/
theorem owner?_of_definition {n : Node} (hn : n.definition? = some x) (hl : l < t.layers.size)
    (h : evalNode limit (depth + 1) n l t = (.ok v, u)) : u.owner? l x = some l := by
  have hstep : step limit (evalNode limit depth) n l t = (.ok v, u) := located_eq_ok.mp h
  unfold Node.definition? at hn
  split at hn
  · exact owner?_of_assign hn hl hstep
  · exact owner?_of_funDef hn hl hstep
  · exact owner?_of_structDef hn hl hstep
  · cases hn

end Definitions

/-! ## Writing -/

section Writing

variable {limit depth : Nat} {l e k : LayerId} {x : String} {w : Value} {t u : Store}

/-- Beside a layer, an evaluation in it leaves the owners of all names as they are. -/
theorem owner?_evalNode (h : t.LiesOver l e) (limit depth : Nat) (n : Node) (x : String) :
    (evalNode limit depth n l t).2.owner? e x = t.owner? e x := by
  refine (h.rooted.parent h.parent).owner?_eq (Policy.links_evalNode limit depth n l t)
    (fun a ha => ?_) x
  have hlt : a < l := Nat.lt_of_le_of_lt ha h.lt
  exact (names_evalNode limit depth n l t).2.1 a (Nat.lt_trans hlt h.rooted.lt) (Nat.ne_of_lt hlt)

/-- What is not bound in the layer is written in the layer that has it further outward. -/
theorem evalNode_of_writes (h : t.LiesOver l e) {n : Node}
    (hn : Writes (evalNode limit depth) l t n x w u) (hfree : (u.bindings l).holds x = false)
    (hk : u.owner? e x = some k) :
    evalNode limit (depth + 1) n l t = (.ok .nothing, u.bind k x w) := by
  have howner {value : Node} {v : Value} (hv : evalNode limit depth value l t = (.ok v, u)) :
      u.owner? l x = some k := by
    have hlinks := Policy.links_evalNode limit depth value l t
    rw [hv] at hlinks
    rw [(h.of_links hlinks).owner?_eq, hfree]
    exact hk
  cases hn with
  | @setVar _ value _ _ _ _ hx hv =>
      -- The assignment looks for the name before its value is evaluated, and finds the same owner.
      have hbefore : t.owner? e x = some k := by
        rw [← owner?_evalNode h limit depth value x, hv]
        exact hk
      have hbound : (t.lookup? l x).isSome = true := by
        have hl := h.owner?_eq x
        rw [hbefore] at hl
        split at hl <;> exact Store.isSome_lookup?_of_owner? hl
      exact located_eq_ok.mpr (setVar_of_owner? hx hbound hv (howner hv))
  | inPlace hx hop hv ha =>
      exact located_eq_ok.mpr (inPlace_of_number hx hop hv ha (howner hv))

/-- So it is with every node in a layer that lies over another. -/
theorem scopedOver_of_liesOver (h : t.LiesOver l e) (limit depth : Nat) (n : Node) :
    ScopedOver l t limit depth e n where
  read := h.rooted.lookup?_of_parent h.parent
  names := (names_evalNode limit depth n l t).2.1
  define x v u hn hrun := by
    cases depth with
    | zero => cases hrun
    | succ inner => exact owner?_of_definition hn h.rooted.lt hrun
  loop inner x hdepth hn := by
    subst hdepth
    exact owner?_of_hasTurn hn h.rooted.lt
  write inner x w u k hdepth hn hfree hk := by
    subst hdepth
    exact evalNode_of_writes h hn hfree hk

end Writing

/-! ## What is kept from definitions -/

/-- From a store on, layers are for good, and the first ones get no more names. -/
structure Store.Sealed (s : Store) (count : Nat) (t : Store) : Prop where
  links : s.Links t
  names : ∀ l, l < count → (t.bindings l).names = (s.bindings l).names

namespace Store.Sealed

variable {s t : Store} {count : Nat}

theorem of_layers (h : s.Sealed count t) {u : Store} (hu : u.layers = t.layers) :
    s.Sealed count u := by
  refine ⟨h.links.trans (links_of_layers hu), fun l hl => ?_⟩
  rw [bindings_of_layers hu]
  exact h.names l hl

theorem bind (h : s.Sealed count t) {a : LayerId} {name : String} (v : Value)
    (ha : count ≤ a ∨ (t.bindings a).holds name = true) : s.Sealed count (t.bind a name v) := by
  refine ⟨h.links.trans (t.links_bind a name v), fun l hl => ?_⟩
  rw [← h.names l hl]
  obtain hb | ⟨rfl, hb⟩ := t.bindings_bind a name v l
  · rw [hb]
  · obtain ha | ha := ha
    · exact absurd hl (Nat.not_lt.mpr ha)
    · rw [hb, Bindings.names_put_of_holds ha]

theorem spawn (h : s.Sealed count t) (a : LayerId) (p : Option LayerId) :
    s.Sealed count (t.spawn a p).1 :=
  ⟨h.links.trans (t.links_spawn a p), fun l hl => by rw [bindings_spawn, h.names l hl]⟩

end Store.Sealed

namespace Policy

/-- Nodes are evaluated in other layers than the first ones, which get no more names. -/
def sealed (s : Store) (count : Nat) : Policy := onLayers (fun l => count ≤ l) (s.Sealed count)

theorem lawful_sealed {s : Store} {count : Nat} (h : count ≤ s.layers.size) :
    (sealed s count).Lawful :=
  lawful_onLayers (fun _ _ hu ht => ht.of_layers hu)
    (fun _ _ _ v ht ha => ht.bind v (.inl ha))
    (fun _ _ _ _ v ht _ hl => ht.bind v (.inr (Store.within_of_owner? hl).2))
    (fun _ a p ht _ _ => ⟨ht.spawn a p, Nat.le_trans h ht.links.size⟩)

end Policy

/-! ## The body of a method -/

namespace Store

/-- Binds names to values, one after the other. -/
def bindAll (s : Store) (l : LayerId) (entries : List (String × Value)) : Store :=
  entries.foldl (fun t entry => t.bind l entry.1 entry.2) s

theorem links_bindAll (l : LayerId) : ∀ {s : Store} (entries : List (String × Value)),
    s.Links (s.bindAll l entries)
  | s, [] => .refl s
  | s, (x, v) :: rest => (s.links_bind l x v).trans (links_bindAll l rest)

theorem bindings_bindAll {l : LayerId} : ∀ {s : Store} (entries : List (String × Value)),
    l < s.layers.size → (s.bindAll l entries).bindings l = (s.bindings l).putAll entries
  | _, [], _ => rfl
  | s, (y, v) :: rest, hl => by
      have hrest := bindings_bindAll (s := s.bind l y v) rest (by rwa [size_bind])
      rwa [bindings_bind_self s y v hl] at hrest

/-- The layer for the body of a method: it binds `self`, and then the names to the values. -/
def enterMethod (u : Store) (e : LayerId) (t : MethodTarget) (binding : MethodArgs)
    (entries : List (String × Value)) : Store × LayerId :=
  let (u', callee) := u.spawn e (if (u.config e).lexicalScope then t.method.frame else none)
  ((u'.bindAll callee (("self", t.receiver) :: entries)).record
    (.calledMethod t.struct.name t.method.name binding), callee)

theorem get?_enterMethod (u : Store) (e : LayerId) (t : MethodTarget) (binding : MethodArgs)
    (entries : List (String × Value)) (x : String) :
    ((u.enterMethod e t binding entries).1.bindings u.layers.size).get? x =
      (("self", t.receiver) :: entries).reverse.lookup x := by
  let parent := if (u.config e).lexicalScope then t.method.frame else none
  have hbound := bindings_bindAll (s := (u.spawn e parent).1) (("self", t.receiver) :: entries)
    (l := u.layers.size) (by simp)
  rw [bindings_spawn, bindings_eq_nil u (Nat.le_refl _)] at hbound
  refine (congrArg (Bindings.get? · x) hbound).trans ?_
  rw [Bindings.get?_putAll, Bindings.get?_nil, Option.or_none]

/-- A method call that resolves, with the names that are bound and the arguments that are
evaluated. -/
inductive CallsMethod (s : Store) (e : LayerId) :
    List Node → MethodTarget → List String → List Node → Prop
  | fields {x m args : Node} {name method : String} {t : MethodTarget}
      (hx : x.identName? = some name) (hm : m.identName? = some method)
      (ht : resolveMethod e name method s = (.ok t, s)) (hc : (s.config e).methodArgs = .fields) :
      CallsMethod s e [x, m, args] t t.struct.fields args.children
  | params {x m args : Node} {name method : String} {t : MethodTarget}
      (hx : x.identName? = some name) (hm : m.identName? = some method)
      (ht : resolveMethod e name method s = (.ok t, s)) (hc : (s.config e).methodArgs = .params)
      (hle : t.method.params.length ≤ args.children.length) :
      CallsMethod s e [x, m, args] t t.method.params (args.children.take t.method.params.length)

end Store

namespace Eval

variable {ev : Evaluator} {e : LayerId} {s : Store} {t : MethodTarget} {names : List String}
  {args : List Node}

theorem forAll_bindName (l : LayerId) : ∀ (entries : List (String × Value)) (s : Store),
    forAll (fun entry => bindName l entry.1 entry.2) entries s = (.ok (), s.bindAll l entries)
  | [], _ => rfl
  | (x, v) :: rest, s => forAll_bindName l rest (s.bind l x v)

theorem getFunc_of_callsMethod {cs : List Node} (h : s.CallsMethod e cs t names args) :
    getFunc ev e cs s = runMethod ev e t (s.config e).methodArgs names args s := by
  cases h with
  | fields hx hm ht hc =>
      rw [getFunc_eq_callMethod hx hm ht, hc]
      simp only [callMethod, configOf, bind_apply, view, hc]
  | params hx hm ht hc hle =>
      rw [getFunc_eq_callMethod hx hm ht, callMethod_params hc, if_neg (Nat.not_lt.mpr hle), hc]

/-- A method call that does not come to its arguments fails, and nothing has changed. -/
theorem getFunc_cases (ev : Evaluator) (e : LayerId) (cs : List Node) (s : Store) :
    (∃ f, getFunc ev e cs s = (.error f, s)) ∨ ∃ t names args, s.CallsMethod e cs t names args := by
  match cs with
  | [x, m, argsNode] =>
      cases hx : x.identName? with
      | none => exact .inl ⟨_, by rw [getFunc, expectIdent, hx]; rfl⟩
      | some name =>
          cases hm : m.identName? with
          | none => exact .inl ⟨_, by rw [getFunc, expectIdent_eq hx, expectIdent, hm]; rfl⟩
          | some method =>
              by_cases hr : s.Resolves e (.method name method)
              · obtain ⟨structName, slots, r, f, hobject, hstruct, hmethod⟩ := hr
                have ht := resolveMethod_eq hobject hstruct hmethod
                cases hc : (s.config e).methodArgs with
                | fields => exact .inr ⟨_, _, _, .fields hx hm ht hc⟩
                | params =>
                    by_cases hlt : argsNode.children.length < f.params.length
                    · exact .inl ⟨_, by
                        rw [getFunc_eq_callMethod hx hm ht, callMethod_params hc, if_pos hlt]
                        rfl⟩
                    · exact .inr ⟨_, _, _, .params hx hm ht hc (Nat.le_of_not_lt hlt)⟩
              · exact .inl ⟨_, getFunc_of_unresolved hx hm hr⟩
  | [] | [_] | [_, _] | _ :: _ :: _ :: _ :: _ => exact .inl ⟨_, rfl⟩

theorem enterMethod_apply (binding : MethodArgs) : enterMethod ev e t binding names args s =
    (each (fun n => ev n s.layers.size) args >>= fun values => do
      let callee ← calleeLayer e t.method
      bindName callee "self" t.receiver
      forAll (fun entry => bindName callee entry.1 entry.2) (names.zip values)
      record (.calledMethod t.struct.name t.method.name binding)
      pure callee) (s.spawn e (some e)).1 := rfl

theorem runMethod_of_error {f : Failure} {u : Store} (binding : MethodArgs)
    (h : each (fun n => ev n s.layers.size) args (s.spawn e (some e)).1 = (.error f, u)) :
    runMethod ev e t binding names args s = (.error f, u) := by
  rw [runMethod, bind_apply, enterMethod_apply, bind_apply, h]

theorem runMethod_of_ok {values : List Value} {u : Store} (binding : MethodArgs)
    (h : each (fun n => ev n s.layers.size) args (s.spawn e (some e)).1 = (.ok values, u)) :
    runMethod ev e t binding names args s =
      ev t.method.body (u.enterMethod e t binding (names.zip values)).2
        (u.enterMethod e t binding (names.zip values)).1 := by
  rw [runMethod, bind_apply, enterMethod_apply, bind_apply, h]
  dsimp only
  rw [bind_apply, Policy.calleeLayer_apply]
  dsimp only
  rw [bind_apply, bindName, update]
  dsimp only
  rw [bind_apply, forAll_bindName]
  rfl

end Eval

/-! ## Method calls -/

namespace Policy

variable {layer : LayerId → Prop} {keeps : Store → Prop} {ev : Evaluator}

theorem keeps_bindAll (hP : (onLayers layer keeps).Lawful) {l : LayerId} (hl : layer l) :
    ∀ {s : Store} (entries : List (String × Value)), keeps s → keeps (s.bindAll l entries)
  | _, [], hs => hs
  | _, (x, v) :: rest, hs => keeps_bindAll hP hl rest (hP.bind x v (admits_onLayers hs) hl)

/-- What a method call does after its scratch layer has been made is right by a policy on layers
when the layer for the body is. -/
theorem keeps_runMethod (hP : (onLayers layer keeps).Lawful) (hev : (logic hP).Sound ev)
    {e : LayerId} {s : Store}
    (hspawn : ∀ u p, keeps u → keeps (u.spawn e p).1 ∧ layer (u.spawn e p).2)
    (hs : keeps (s.spawn e (some e)).1) (hlayer : layer s.layers.size) (t : MethodTarget)
    (binding : MethodArgs) (names : List String) (args : List Node) :
    keeps (runMethod ev e t binding names args s).2 := by
  have hargs : (onLayers layer keeps).Safe 0 (each (fun n => ev n s.layers.size) args)
      fun vs => ∀ v ∈ vs, (onLayers layer keeps).value v :=
    (logic hP).each fun n _ => hev n s.layers.size ⟨hlayer, False.elim⟩ False.elim
  rcases hrun : each (fun n => ev n s.layers.size) args (s.spawn e (some e)).1 with ⟨f | values, u⟩
  · rw [runMethod_of_error binding hrun]
    exact keeps_of_safe hargs hrun hs
  · rw [runMethod_of_ok binding hrun]
    obtain ⟨hcallee, hknown⟩ := hspawn u
      (if (u.config e).lexicalScope then t.method.frame else none) (keeps_of_safe hargs hrun hs)
    have hbound := keeps_bindAll hP hknown (("self", t.receiver) :: names.zip values) hcallee
    have hentered : keeps (u.enterMethod e t binding (names.zip values)).1 :=
      hP.record nofun (admits_onLayers hbound)
    exact keeps_of_safe (hev t.method.body u.layers.size ⟨hknown, False.elim⟩ False.elim) rfl
      hentered

end Policy

section Calls

variable {limit depth : Nat} {e : LayerId} {s : Store}

/-- A method call gives no layer from before a name. -/
theorem names_getFunc (limit depth : Nat) (cs : List Node) (pos : Option Pos) (e : LayerId)
    {l : LayerId} (hl : l < s.layers.size) :
    ((evalNode limit depth (.tree .getFunc cs pos) e s).2.bindings l).names =
      (s.bindings l).names := by
  cases depth with
  | zero => rfl
  | succ depth =>
      have hsnd : (evalNode limit (depth + 1) (.tree .getFunc cs pos) e s).2 =
          (getFunc (evalNode limit depth) e cs s).2 := snd_located ..
      rw [hsnd]
      obtain ⟨f, hfail⟩ | ⟨t, names, args, hcalls⟩ := getFunc_cases (evalNode limit depth) e cs s
      · rw [hfail]
      · let base := (s.spawn e (some e)).1
        have hle : s.layers.size ≤ base.layers.size := (s.links_spawn e (some e)).size
        have hP := Policy.lawful_sealed hle
        have hkeeps := Policy.keeps_runMethod hP
          ((Policy.logic hP).sound_evalNode trivial limit depth)
          (fun u p hu => ⟨hu.spawn e p, Nat.le_trans hle hu.links.size⟩)
          ⟨.refl base, fun _ _ => rfl⟩ (Nat.le_refl _) t (s.config e).methodArgs names args
        rw [getFunc_of_callsMethod hcalls, hkeeps.names l hl, Store.bindings_spawn]

/-- Inside a method call all nodes are evaluated in new layers, and those in the scratch layer are
scoped over the caller's. -/
theorem not_happens_getFunc (he : s.Rooted e) (limit depth : Nat) (cs : List Node)
    (pos : Option Pos) :
    ¬Happens (fun d n l t _ => d ≤ depth ∧ ¬(s.layers.size ≤ l ∧
        (l = s.layers.size → t.LiesOver l e ∧ ScopedOver l t limit d e n)))
      limit (depth + 1) (.tree .getFunc cs pos) e s := by
  let p : Watch := fun d n l t _ => d ≤ depth ∧ ¬(s.layers.size ≤ l ∧
    (l = s.layers.size → t.LiesOver l e ∧ ScopedOver l t limit d e n))
  -- What is kept is kept from the store on that has the scratch layer.
  let start : Store := { s with log := #[] }
  let base := (start.spawn e (some e)).1
  have hstart : start.Rooted e := he.of_links ⟨Nat.le_refl _, fun _ _ => rfl, fun _ _ => rfl⟩
  have hover : base.LiesOver s.layers.size e := by
    refine ⟨.spawn e fun q hq => Option.some.inj hq ▸ hstart, ?_⟩
    exact (start.parent?_spawn e (some e) _).trans (if_pos rfl)
  have hle : s.layers.size ≤ base.layers.size := (start.links_spawn e (some e)).size
  have hP := Policy.lawful_sealed hle
  have hquiet : (Policy.onLayers (fun l => s.layers.size ≤ l)
      fun t => base.Sealed s.layers.size t ∧ alarm ∉ t.log).Lawful := Policy.lawful_quiet hP
  have hsound : (Policy.logic hquiet).Sound (evalWatching p limit depth) := by
    refine Policy.sound_quiet hP (fun _ d n l t _ hl ht _ _ hfound => hfound.2 ⟨hl.layer, ?_⟩) _ _
    rintro rfl
    have hover' := hover.of_links ht.keeps.links
    exact ⟨hover', scopedOver_of_liesOver hover' limit d n⟩
  have hstep : step limit (evalWatching p limit depth) (.tree .getFunc cs pos) e =
      getFunc (evalWatching p limit depth) e cs := rfl
  intro hmem
  rw [happens_iff_step fun _ hfound => Nat.not_succ_le_self depth hfound.1, hstep] at hmem
  obtain ⟨f, hfail⟩ | ⟨t, names, args, hcalls⟩ :=
    getFunc_cases (evalWatching p limit depth) e cs start
  · rw [hfail] at hmem
    exact Array.not_mem_empty alarm hmem
  · rw [getFunc_of_callsMethod hcalls] at hmem
    have hkeeps := Policy.keeps_runMethod hquiet hsound
      (fun u p hu => ⟨⟨hu.1.spawn e p, hu.2⟩, Nat.le_trans hle hu.1.links.size⟩)
      ⟨⟨.refl base, fun _ _ => rfl⟩, Array.not_mem_empty alarm⟩ (Nat.le_refl _) t
      (start.config e).methodArgs names args
    exact hkeeps.2 hmem

end Calls

/-- Whatever becomes of a method call, no layer from before gets a name. All that is evaluated
inside is evaluated in new layers; what is evaluated in the scratch layer defines its names there,
and what it writes and the scratch layer does not bind it writes in the layer that has it outward
from the caller's. The arguments are evaluated in the scratch layer one after the other. When one
fails so does the call. Else the body runs in a new layer that binds `self` and the names that the
method call binds, of two values for one name the later. -/
theorem evalNode_getFunc {e : LayerId} {s : Store} (he : s.Rooted e) (limit depth : Nat)
    (cs : List Node) (pos : Option Pos) :
    (∀ d l, l < s.layers.size →
      ((evalNode limit d (.tree .getFunc cs pos) e s).2.bindings l).names = (s.bindings l).names) ∧
    ¬Happens (fun d n l t _ => d ≤ depth ∧ ¬(s.layers.size ≤ l ∧
        (l = s.layers.size → t.LiesOver l e ∧ ScopedOver l t limit d e n)))
      limit (depth + 1) (.tree .getFunc cs pos) e s ∧
    ∀ t names args, s.CallsMethod e cs t names args →
      (∀ f u, each (fun n => evalNode limit depth n s.layers.size) args (s.spawn e (some e)).1 =
          (.error f, u) → evalNode limit (depth + 1) (.tree .getFunc cs pos) e s =
            (.error (f.at (Node.tree .getFunc cs pos).position?), u)) ∧
      ∀ values u, each (fun n => evalNode limit depth n s.layers.size) args
          (s.spawn e (some e)).1 = (.ok values, u) →
        let entered := u.enterMethod e t (s.config e).methodArgs (names.zip values)
        evalNode limit (depth + 1) (.tree .getFunc cs pos) e s =
          (evalNode limit depth t.method.body entered.2 entered.1).at
            (Node.tree .getFunc cs pos).position? ∧
        entered.2 = u.layers.size ∧
        ∀ x, (entered.1.bindings entered.2).get? x =
          (("self", t.receiver) :: names.zip values).reverse.lookup x := by
  refine ⟨fun d l hl => names_getFunc limit d cs pos e hl,
    not_happens_getFunc he limit depth cs pos, fun t names args hcalls => ?_⟩
  have hstep : step limit (evalNode limit depth) (.tree .getFunc cs pos) e s =
      runMethod (evalNode limit depth) e t (s.config e).methodArgs names args s :=
    getFunc_of_callsMethod hcalls
  refine ⟨fun f u hargs => located_error _ (hstep.trans (runMethod_of_error _ hargs)),
    fun values u hargs => ⟨?_, rfl, fun x => Store.get?_enterMethod ..⟩⟩
  exact (located_apply ..).trans (congrArg (Outcome.at _) (hstep.trans (runMethod_of_ok _ hargs)))

/-- A struct with a field `a` and the method `fn get() { a }`. -/
def definesGet : Store :=
  ((Store.root {}).addStruct "P" ["a"] [("get", ⟨"get", [], .token .ident "a" none, none⟩)]).1

/-- With an instance `p` of the struct, and a variable `x`. -/
def withGet : Store :=
  definesGet.bindAll 0
    [("P", .struct ⟨0, "P", ["a"]⟩), ("p", .object "P" []), ("x", .bool false)]

/-- The tree of `p.get({ let x = true; y = x; y })`, for any two names. -/
def getOf (x y : String) : Node :=
  .tree .getFunc [.token .ident "p" none, .token .ident "get" none, argsOf [.tree .block
    [.letOf x (.token .trueWord "true" none) none none,
      .tree .setVar [.token .ident y none, .token .ident x none] none,
      .token .ident y none] none]] none

/-- The argument of `p.get` writes to `x` where it is, or hides it, and defines nothing outside. The
body finds the value of the argument under the name of the field. -/
theorem evalNode_getFunc_withGet :
    withGet.Rooted 0 ∧
    ((evaluate (getOf "y" "x") 0 withGet).2.bindings 0).names = ["P", "p", "x"] ∧
    ((evaluate (getOf "y" "x") 0 withGet).2.bindings 0).get? "x" = some (.bool true) ∧
    ((evaluate (getOf "x" "x") 0 withGet).2.bindings 0).names = ["P", "p", "x"] ∧
    ((evaluate (getOf "x" "x") 0 withGet).2.bindings 0).get? "x" = some (.bool false) ∧
    ∃ callee u, evaluate (getOf "x" "x") 0 withGet =
        (evalNode turnLimit 999 (.token .ident "a" none) callee u).at none ∧
      (u.bindings callee).get? "a" = some (.bool true) := by
  have hstart : definesGet.Rooted 0 :=
    (Store.rooted_root {}).of_links ⟨Nat.le_refl _, fun _ _ => rfl, fun _ _ => rfl⟩
  have hrooted : withGet.Rooted 0 := hstart.of_links (Store.links_bindAll 0 _)
  have hnames (x y : String) : ((evaluate (getOf x y) 0 withGet).2.bindings 0).names =
      ["P", "p", "x"] :=
    (evalNode_getFunc hrooted turnLimit 999 _ none).1 depthLimit 0 hrooted.lt
  obtain ⟨-, -, hbody⟩ := evalNode_getFunc hrooted turnLimit 999 (getOf "x" "x").children none
  obtain ⟨-, hentered⟩ := hbody _ _ _ (.fields rfl rfl rfl rfl)
  obtain ⟨hrun, -, hget⟩ := hentered [.bool true] _ rfl
  exact ⟨hrooted, hnames "y" "x", rfl, hnames "x" "x", rfl, _, _, hrun, hget "a"⟩

end Tern
