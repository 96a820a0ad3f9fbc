import Tern.Proofs.Names
import Tern.Proofs.Surfacing

/-!
# Arguments of builtins

A builtin evaluates its arguments one after the other and goes on after each that raises an error,
in the store that it has left (`Tried`). Nothing of that is undone: what has been written and bound
by then is there when the call is over (`Store.Remains`). Then the builtin writes the texts of all
arguments in one piece, or it writes nothing and fails, when one of them has no text
(`evalNode_callBuiltin`).

So a call never raises an error of its own. What is not a runtime error is not caught, and ends the
call at the argument that fails (`Halts`); the arguments after it are not evaluated.
-/

namespace Tern

open Eval

/-! ## What remains -/

/-- What has been written, and in each layer the names that have been bound, come first in what is
written and bound later. -/
structure Store.Remains (s t : Store) : Prop where
  written : s.written.toList <+: t.written.toList
  names : ∀ l, (s.bindings l).names <+: (t.bindings l).names

namespace Store

variable {s t u : Store}

theorem remains_refl (s : Store) : s.Remains s := ⟨List.prefix_refl _, fun _ => List.prefix_refl _⟩

/-- Only layers and what is written matter. -/
theorem Remains.of_eq (h : s.Remains t) (hlayers : u.layers = t.layers)
    (hwritten : u.written = t.written) : s.Remains u where
  written := hwritten ▸ h.written
  names l := bindings_of_layers hlayers l ▸ h.names l

theorem Remains.bind (h : s.Remains t) (e : LayerId) (name : String) (v : Value) :
    s.Remains (t.bind e name v) where
  written := h.written
  names l := by
    obtain hb | ⟨-, hb⟩ := t.bindings_bind e name v l
    · exact hb ▸ h.names l
    · exact hb ▸ (h.names l).trans (Bindings.names_prefix_put ..)

theorem Remains.spawn (h : s.Remains t) (e : LayerId) (p : Option LayerId) :
    s.Remains (t.spawn e p).1 where
  written := h.written
  names l := t.bindings_spawn e p l ▸ h.names l

theorem Remains.write (h : s.Remains t) (text : String) : s.Remains (t.write text) where
  written := h.written.trans (by simp [Store.write])
  names := h.names

end Store

namespace Policy

/-- Nothing is taken back. -/
def remains (s₀ : Store) : Policy := onLayers (fun _ => True) s₀.Remains

theorem lawful_remains (s₀ : Store) : (remains s₀).Lawful where
  domain := Domain.lawful_ofLayers _
  bind name v hs _ := hs.keeps.bind _ name v
  rebind v hs _ _ := hs.keeps.bind _ _ v
  spawn hs _ _ _ := ⟨hs.keeps.spawn _ _, trivial⟩
  addStruct _ _ hs := ⟨hs.keeps.of_eq rfl rfl, trivial⟩
  putMethod _ _ _ hs := hs.keeps.of_eq rfl rfl
  write text hs := hs.keeps.write text
  record _ hs := hs.keeps.of_eq rfl rfl
  builtin? _ _ _ := trivial

end Policy

/-! ## Arguments in turn -/

/-- What a builtin adds to the texts of its arguments. -/
def Builtin.ending : Builtin → String
  | print => ""
  | println => "\n"

namespace Eval

/-- The text of an argument: that of its value, or of nothing in place of an error. -/
def Shows : Except RuntimeError Value → String → Prop
  | .ok v, text => v.display = .ok text
  | .error _, text => text = "None"

/-- The first value without a text is of this type. -/
def Unshown (results : List (Except RuntimeError Value)) (type : ValueType) : Prop :=
  ∃ before texts v after, results = before ++ .ok v :: after ∧
    List.Forall₂ Shows before texts ∧ v.display = .error type

variable (ev : Evaluator) (e : LayerId) (b : Builtin)

/-- The arguments are evaluated, one after the other, and this is what they come to. After an error
the next argument is evaluated in the store that is left, where the error is on record. -/
inductive Tried : List Node → List (Except RuntimeError Value) → Store → Store → Prop
  | nil {s : Store} : Tried [] [] s s
  | value {n : Node} {v : Value} {args : List Node} {results : List (Except RuntimeError Value)}
      {s s₁ s₂ : Store} (hn : ev n e s = (.ok v, s₁)) (hrest : Tried args results s₁ s₂) :
      Tried (n :: args) (.ok v :: results) s s₂
  | error {n : Node} {err : RuntimeError} {args : List Node}
      {results : List (Except RuntimeError Value)} {s s₁ s₂ : Store}
      (hn : ev n e s = (.error (.raised err), s₁))
      (hrest : Tried args results (s₁.record (.argumentDropped b.name err)) s₂) :
      Tried (n :: args) (.error err :: results) s s₂

/-- The arguments are evaluated, one after the other, up to one that fails with what is not a
runtime error. -/
inductive Halts (s : Store) : List Node → Failure → Store → Prop
  | intro {before after : List Node} {n : Node} {results : List (Except RuntimeError Value)}
      {f : Failure} {s₁ s₂ : Store} (hbefore : Tried ev e b before results s s₁)
      (hn : ev n e s₁ = (.error f, s₂)) (hf : ∀ err, f ≠ .raised err) :
      Halts s (before ++ n :: after) f s₂

variable {ev : Evaluator} {e : LayerId} {b : Builtin}

theorem Halts.ne_raised {s u : Store} {args : List Node} {f : Failure}
    (h : Halts ev e b s args f u) (err : RuntimeError) : f ≠ .raised err := by
  obtain ⟨-, -, hf⟩ := h
  exact hf err

theorem tried_or_halts : ∀ (args : List Node) (s : Store),
    (∃ results u, Tried ev e b args results s u) ∨ ∃ f u, Halts ev e b s args f u
  | [], s => .inl ⟨[], s, .nil⟩
  | n :: args, s => by
      rcases hn : ev n e s with ⟨f | v, s₁⟩
      · by_cases hf : ∀ err, f ≠ .raised err
        · have hfirst : Halts ev e b s ([] ++ n :: args) f s₁ := .intro .nil hn hf
          exact .inr ⟨f, s₁, hfirst⟩
        · obtain ⟨err, herr⟩ := not_forall.mp hf
          obtain rfl := not_not.mp herr
          obtain ⟨results, u, hrest⟩ | ⟨f, u, hrest⟩ :=
            tried_or_halts args (s₁.record (.argumentDropped b.name err))
          · exact .inl ⟨_, u, .error hn hrest⟩
          · obtain ⟨hbefore, hm, hf⟩ := hrest
            exact .inr ⟨f, u, .intro (.error hn hbefore) hm hf⟩
      · obtain ⟨results, u, hrest⟩ | ⟨f, u, hrest⟩ := tried_or_halts args s₁
        · exact .inl ⟨_, u, .value hn hrest⟩
        · obtain ⟨hbefore, hm, hf⟩ := hrest
          exact .inr ⟨f, u, .intro (.value hn hbefore) hm hf⟩

/-- What a builtin gets for an argument. -/
def received : Except RuntimeError Value → Value
  | .ok v => v
  | .error _ => .nothing

section Argument

variable {n : Node} {s s₁ : Store}

theorem argument_of_value {v : Value} (h : ev n e s = (.ok v, s₁)) :
    argument ev e b n s = (.ok v, s₁) := by
  rw [argument, bind_apply, attempt, h]
  rfl

theorem argument_of_error {err : RuntimeError} (h : ev n e s = (.error (.raised err), s₁)) :
    argument ev e b n s = (.ok .nothing, s₁.record (.argumentDropped b.name err)) := by
  rw [argument, bind_apply, attempt, h]
  rfl

theorem argument_of_host {f : Failure} (h : ev n e s = (.error f, s₁))
    (hf : ∀ err, f ≠ .raised err) : argument ev e b n s = (.error f, s₁) := by
  rw [argument, bind_apply, attempt, h]
  cases f with
  | raised err => exact absurd rfl (hf err)
  | _ => rfl

end Argument

theorem each_append {α β : Type} {f : α → Eval β} {rest : List α} :
    ∀ {as : List α} {bs : List β} {s u : Store}, each f as s = (.ok bs, u) →
      each f (as ++ rest) s = ((each f rest u).1.map (bs ++ ·), (each f rest u).2)
  | [], bs, s, u, h => by
      cases h
      rw [List.nil_append]
      rcases each f rest s with ⟨_ | bs, t⟩ <;> rfl
  | a :: as, bs, s, u, h => by
      obtain ⟨b, s₁, hb, h⟩ := bind_eq_ok h
      obtain ⟨bs', s₂, hbs, h⟩ := bind_eq_ok h
      cases h
      rw [List.cons_append, each, bind_apply, hb]
      dsimp only
      rw [bind_apply, each_append hbs]
      rcases each f rest u with ⟨_ | cs, t⟩ <;> rfl

theorem each_of_tried {args : List Node} {results : List (Except RuntimeError Value)} {s u : Store}
    (h : Tried ev e b args results s u) :
    each (argument ev e b) args s = (.ok (results.map received), u) := by
  induction h with
  | nil => rfl
  | value hn hrest ih =>
      rw [each, bind_apply, argument_of_value hn]
      dsimp only
      rw [bind_apply, ih]
      rfl
  | error hn hrest ih =>
      rw [each, bind_apply, argument_of_error hn]
      dsimp only
      rw [bind_apply, ih]
      rfl

theorem each_of_halts {args : List Node} {f : Failure} {s u : Store}
    (h : Halts ev e b s args f u) : each (argument ev e b) args s = (.error f, u) := by
  obtain ⟨hbefore, hn, hf⟩ := h
  rw [each_append (each_of_tried hbefore), each, bind_apply, argument_of_host hn hf]
  rfl

/-! ## Texts -/

theorem display_received {r : Except RuntimeError Value} {text : String} (h : Shows r text) :
    (received r).display = .ok text := by
  cases r with
  | ok v => exact h
  | error err =>
      obtain rfl : text = "None" := h
      rfl

theorem displayItems_append {before : List (Except RuntimeError Value)} {texts : List String}
    (h : List.Forall₂ Shows before texts) (rest : List Value) :
    Value.displayItems (before.map received ++ rest) =
      (Value.displayItems rest).map (texts ++ ·) := by
  induction h with
  | nil =>
      rw [List.map_nil, List.nil_append]
      cases Value.displayItems rest <;> rfl
  | cons hr _ ih =>
      rw [List.map_cons, List.cons_append, Value.displayItems, display_received hr]
      dsimp only
      rw [ih]
      cases Value.displayItems rest <;> rfl

theorem shown_or_unshown : ∀ results : List (Except RuntimeError Value),
    (∃ texts, List.Forall₂ Shows results texts) ∨ ∃ type, Unshown results type
  | [] => .inl ⟨[], .nil⟩
  | r :: results => by
      rcases hr : (received r).display with type | text
      · obtain ⟨v, rfl⟩ : ∃ v, r = .ok v := by
          cases r with
          | ok v => exact ⟨v, rfl⟩
          | error err => cases hr
        exact .inr ⟨type, [], [], v, results, rfl, .nil, hr⟩
      · have hshows : Shows r text := by
          cases r with
          | ok v => exact hr
          | error err => exact (Except.ok.inj hr).symm
        obtain ⟨texts, hrest⟩ | ⟨type, before, texts, v, after, rfl, hbefore, hv⟩ :=
          shown_or_unshown results
        · exact .inl ⟨_, .cons hshows hrest⟩
        · exact .inr ⟨type, r :: before, text :: texts, v, after, rfl, .cons hshows hbefore, hv⟩

theorem runBuiltin_of_shown {results : List (Except RuntimeError Value)} {texts : List String}
    (h : List.Forall₂ Shows results texts) (u : Store) :
    runBuiltin b (results.map received) u =
      (.ok .nothing, u.write (String.join texts ++ b.ending)) := by
  have htexts : Value.displayItems (results.map received) = .ok texts := by
    have happend := displayItems_append h []
    rw [List.append_nil] at happend
    rw [happend, Value.displayItems, Except.map, List.append_nil]
  rw [runBuiltin, htexts]
  cases b with
  | print =>
      rw [Builtin.ending, String.append_empty]
      rfl
  | println => rfl

theorem runBuiltin_of_unshown {results : List (Except RuntimeError Value)} {type : ValueType}
    (h : Unshown results type) (u : Store) :
    runBuiltin b (results.map received) u = (.error (.undisplayable type), u) := by
  obtain ⟨before, texts, v, after, rfl, hbefore, hv⟩ := h
  have hnone : Value.displayItems (before.map received ++ v :: after.map received) =
      .error type := by
    rw [displayItems_append hbefore, Value.displayItems, hv]
    rfl
  rw [List.map_append, List.map_cons, runBuiltin]
  simp only [received, hnone]
  rfl

/-! ## The call -/

theorem callBuiltin_append {before rest : List Node}
    {results : List (Except RuntimeError Value)} {s t : Store}
    (h : Tried ev e b before results s t) : callBuiltin ev e b (before ++ rest) s =
      (each (argument ev e b) rest >>= fun vs => runBuiltin b (results.map received ++ vs)) t := by
  rw [callBuiltin, bind_apply, each_append (each_of_tried h), bind_apply]
  rcases each (argument ev e b) rest t with ⟨_ | vs, u⟩ <;> rfl

theorem callBuiltin_of_tried {args : List Node} {results : List (Except RuntimeError Value)}
    {s u : Store} (h : Tried ev e b args results s u) :
    callBuiltin ev e b args s = runBuiltin b (results.map received) u := by
  rw [callBuiltin, bind_apply, each_of_tried h]

theorem callBuiltin_of_halts {args : List Node} {f : Failure} {s u : Store}
    (h : Halts ev e b s args f u) : callBuiltin ev e b args s = (.error f, u) := by
  rw [callBuiltin, bind_apply, each_of_halts h]

theorem remains_callBuiltin {limit depth : Nat} {before rest : List Node}
    {results : List (Except RuntimeError Value)} {s t : Store}
    (h : Tried (evalNode limit depth) e b before results s t) :
    t.Remains (callBuiltin (evalNode limit depth) e b (before ++ rest) s).2 := by
  have hP := Policy.lawful_remains t
  have hev := (Policy.logic hP).sound_evalNode trivial limit depth
  have hrest : (Policy.remains t).Safe t.layers.size
      (each (argument (evalNode limit depth) e b) rest >>= fun vs =>
        runBuiltin b (results.map received ++ vs)) (Policy.remains t).value :=
    (Logic.each fun n _ =>
      Logic.holds_argument hev ⟨trivial, False.elim⟩ trivial b False.elim).bind
        fun vs _ => Logic.holds_runBuiltin (L := Policy.logic hP) b _
  rw [callBuiltin_append h]
  exact (hrest t (Policy.admits_onLayers t.remains_refl).at).2.keeps

end Eval

section Results

variable {x args : Node} {name : String} (hx : x.identName? = some name) {e : LayerId} {s u : Store}
  {b : Builtin} (hb : s.builtin? e name = some b) {limit depth : Nat} (pos : Option Pos)

include hx hb

theorem step_eq_callBuiltin : step limit (evalNode limit depth) (.tree .call [x, args] pos) e s =
    callBuiltin (evalNode limit depth) e b args.children s :=
  call_eq_callBuiltin hx hb

theorem evalNode_of_shown {results : List (Except RuntimeError Value)} {texts : List String}
    (h : Tried (evalNode limit depth) e b args.children results s u)
    (hshown : List.Forall₂ Shows results texts) :
    evalNode limit (depth + 1) (.tree .call [x, args] pos) e s =
      (.ok .nothing, u.write (String.join texts ++ b.ending)) := by
  refine located_eq_ok.mpr ?_
  rw [step_eq_callBuiltin hx hb, callBuiltin_of_tried h, runBuiltin_of_shown hshown]

theorem evalNode_of_unshown {results : List (Except RuntimeError Value)} {type : ValueType}
    (h : Tried (evalNode limit depth) e b args.children results s u)
    (hunshown : Unshown results type) :
    evalNode limit (depth + 1) (.tree .call [x, args] pos) e s =
      (.error (.undisplayable type), u) := by
  refine located_error (f := .undisplayable type) _ ?_
  rw [step_eq_callBuiltin hx hb, callBuiltin_of_tried h, runBuiltin_of_unshown hunshown]

theorem evalNode_of_halts {f : Failure}
    (h : Halts (evalNode limit depth) e b s args.children f u) :
    evalNode limit (depth + 1) (.tree .call [x, args] pos) e s = (.error f, u) := by
  have hcall := (step_eq_callBuiltin hx hb pos).trans (callBuiltin_of_halts h)
  exact (f.at_of_host h.ne_raised _) ▸ located_error _ hcall

theorem evalNode_ne_raised (err : RuntimeError) :
    (evalNode limit (depth + 1) (.tree .call [x, args] pos) e s).1 ≠ .error (.raised err) := by
  have hcases : (∃ results u, Tried (evalNode limit depth) e b args.children results s u) ∨
      ∃ f u, Halts (evalNode limit depth) e b s args.children f u := tried_or_halts ..
  obtain ⟨results, u, h⟩ | ⟨f, u, h⟩ := hcases
  · obtain ⟨texts, hshown⟩ | ⟨type, hunshown⟩ := shown_or_unshown results
    · rw [evalNode_of_shown hx hb pos h hshown]
      nofun
    · rw [evalNode_of_unshown hx hb pos h hunshown]
      nofun
  · rw [evalNode_of_halts hx hb pos h]
    exact fun herr => h.ne_raised err (Except.error.inj herr)

theorem remains_evalNode {before rest : List Node} {results : List (Except RuntimeError Value)}
    {t : Store} (hargs : args.children = before ++ rest)
    (h : Tried (evalNode limit depth) e b before results s t) :
    t.Remains (evalNode limit (depth + 1) (.tree .call [x, args] pos) e s).2 := by
  have hstore : (evalNode limit (depth + 1) (.tree .call [x, args] pos) e s).2 =
      (callBuiltin (evalNode limit depth) e b (before ++ rest) s).2 := by
    rw [← hargs, ← step_eq_callBuiltin hx hb pos]
    exact snd_located ..
  exact hstore ▸ remains_callBuiltin h

end Results

/-- A call of a builtin evaluates its arguments one after the other, each in the store that the one
before has left, and goes on after runtime errors. Then it writes the texts of all arguments in one
piece, or when one has no text it writes nothing and fails. An argument that fails with what is not
a runtime error ends the call. So it is one of three, and never a runtime error; and what has been
written and bound by any of the arguments remains. -/
theorem evalNode_callBuiltin {x args : Node} {name : String} (hx : x.identName? = some name)
    {e : LayerId} {s : Store} {b : Builtin} (hb : s.builtin? e name = some b) (limit depth : Nat)
    (pos : Option Pos) :
    let ev := evalNode limit depth
    let o := evalNode limit (depth + 1) (.tree .call [x, args] pos) e s
    (∀ results u, Tried ev e b args.children results s u →
      (∀ texts, List.Forall₂ Shows results texts →
        o = (.ok .nothing, u.write (String.join texts ++ b.ending))) ∧
      (∀ type, Unshown results type → o = (.error (.undisplayable type), u)) ∧
      ((∃ texts, List.Forall₂ Shows results texts) ∨ ∃ type, Unshown results type)) ∧
    (∀ f u, Halts ev e b s args.children f u → o = (.error f, u)) ∧
    ((∃ results u, Tried ev e b args.children results s u) ∨
      ∃ f u, Halts ev e b s args.children f u) ∧
    (∀ before rest results t, args.children = before ++ rest → Tried ev e b before results s t →
      t.Remains o.2) ∧
    ∀ err, o.1 ≠ .error (.raised err) := by
  intro ev o
  refine ⟨fun results u h => ⟨fun texts => ?shown, fun type => ?unshown, ?texts⟩, fun f u => ?halts,
    ?cases, fun before rest results t => ?remains, evalNode_ne_raised hx hb pos⟩
  case shown => exact evalNode_of_shown hx hb pos h
  case unshown => exact evalNode_of_unshown hx hb pos h
  case texts => exact shown_or_unshown results
  case halts => exact evalNode_of_halts hx hb pos
  case cases => exact tried_or_halts ..
  case remains => exact remains_evalNode hx hb pos

/-- The tree of a call of `print`. -/
def Node.printOf (args : List Node) : Node :=
  .tree .call [.token .ident "print" none, .tree .args args none] none

/-- The tree of `{ let x = "a"; print(x); y }`. -/
def letPrintY : Node :=
  .tree .block [.tree .assign [.token .ident "x" none, .token .string "\"a\"" none] none,
    .printOf [.token .ident "x" none], .token .ident "y" none] none

/-- What an argument has bound and written before it fails is there for the next one, and when the
call is over. -/
theorem evalNode_callBuiltin_letPrintY : ∃ u,
    evaluate (.printOf [letPrintY, .token .ident "x" none]) 0 (Store.root {}) = (.ok .nothing, u) ∧
    u.written = #["a", "Nonea"] ∧ u.lookup? 0 "x" = some (.string "a") := by
  let args := Node.tree .args [letPrintY, .token .ident "x" none] none
  have hname : (Node.token .ident "print" none).identName? = some "print" := rfl
  have hb : (Store.root {}).builtin? 0 "print" = some .print := rfl
  obtain ⟨u, htried, hwritten, hx⟩ : ∃ u, Tried (evalNode turnLimit 999) 0 .print args.children
      [.error ⟨.variableNotFound "y", none⟩, .ok (.string "a")] (Store.root {}) u ∧
      u.written = #["a"] ∧ u.lookup? 0 "x" = some (.string "a") :=
    ⟨_, .error rfl (.value rfl .nil), rfl, rfl⟩
  obtain ⟨hshown, -⟩ := (evalNode_callBuiltin hname hb turnLimit 999 none).1 _ u htried
  refine ⟨_, hshown ["None", "a"] (.cons rfl (.cons rfl .nil)), ?_, hx⟩
  rw [Store.write, hwritten]
  rfl

/-- In `print(print(S), print("a"))` the first argument fails with what is not a runtime error, and
the second one would write, but it is not evaluated. -/
theorem evaluate_printOf_printS :
    let printA := Node.printOf [.token .string "\"a\"" none]
    let failure := Failure.undisplayable ⟨.struct, some "S"⟩
    evaluate printS 0 withS = (.error failure, withS) ∧
    evaluate printA 0 withS = (.ok .nothing, withS.write "a") ∧
    evaluate (.printOf [printS, printA]) 0 withS = (.error failure, withS) := by
  intro printA failure
  have hfirst : Halts (evalNode turnLimit 999) 0 .print withS ([] ++ [printS, printA]) failure
    withS := .intro .nil rfl nofun
  exact ⟨rfl, rfl, evalNode_of_halts rfl rfl none hfirst⟩

end Tern
