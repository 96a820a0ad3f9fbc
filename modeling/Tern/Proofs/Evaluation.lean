import Tern.Eval.Node
import Tern.Proofs.Echoes
import Tern.Proofs.Logic

/-!
# Evaluation within a logic

Every handler is as a logic says when the evaluator for the nodes inside is (`Logic.Sound`), one
lemma for each kind of node, and so is the evaluator that ties the knot (`sound_evalNode`). Where
a handler gives up on the shape of its children, a well-shaped tree cannot be there; a logic
without shapes lets anything fail. Only calls of builtins and legacy matches need a logic in which
evaluation goes on after errors.
-/

namespace Tern

open Eval

/-- What a call does when no builtin has the name. -/
def Eval.callBound (ev : Evaluator) (e : LayerId) (name : String) (args : List Node) :
    Eval Value := do
  match ← lookup? e name with
  | none => raise (.functionNotFound name)
  | some (.function f) => callFunction ev e f args
  | some v => mismatch "function" v

namespace Logic

/-- An evaluator that is as it should be on every tree that may be evaluated. -/
def Sound (L : Logic) (ev : Evaluator) : Prop :=
  ∀ ⦃σ⦄ n e, L.knows σ e → L.node n → L.Holds σ (ev n e) L.value

variable {L : Logic} {σ : L.Stage}

/-- A simple value is within the domain when it is allowed as a part. -/
theorem value_of_part {v : Value} (hl : ∀ items, v ≠ .list items)
    (ho : ∀ name fields, v ≠ .object name fields) (h : L.part v) : L.value v :=
  Value.all_of_simple hl ho h

section Values

theorem value_nothing : L.value .nothing :=
  value_of_part (by rintro _ ⟨⟩) (by rintro _ _ ⟨⟩) (L.lawful.plain rfl)

theorem value_number (x : Float) : L.value (.number x) :=
  value_of_part (by rintro _ ⟨⟩) (by rintro _ _ ⟨⟩) (L.lawful.plain rfl)

theorem value_string (text : String) : L.value (.string text) :=
  value_of_part (by rintro _ ⟨⟩) (by rintro _ _ ⟨⟩) (L.lawful.plain rfl)

theorem value_bool (b : Bool) : L.value (.bool b) :=
  value_of_part (by rintro _ ⟨⟩) (by rintro _ _ ⟨⟩) (L.lawful.plain rfl)

theorem value_list {items : List Value} (h : ∀ v ∈ items, L.value v) : L.value (.list items) :=
  Value.all_list (L.lawful.plain rfl) h

theorem value_object {name : String} {fields : List (String × Value)}
    (h : ∀ q ∈ fields, L.value q.2) : L.value (.object name fields) :=
  Value.all_object (L.lawful.plain rfl) h

theorem value_function {f : Function} (h : L.part (.function f)) : L.value (.function f) :=
  value_of_part (by rintro _ ⟨⟩) (by rintro _ _ ⟨⟩) h

theorem value_range (x y : Float) :
    L.value (.range (Number.truncate x) (Number.truncate y)) :=
  value_of_part (by rintro _ ⟨⟩) (by rintro _ _ ⟨⟩) (L.lawful.range x y)

/-- Operators give numbers and truth values only. -/
theorem value_of_value? {op : Operator} {a b v : Value} (h : op.value? a b = some v) :
    L.value v := by
  unfold Operator.value? at h
  split at h
  · cases h
    exact value_number _
  · obtain ⟨b, -, rfl⟩ := Option.map_eq_some_iff.mp h
    exact value_bool _
  · obtain ⟨b, -, rfl⟩ := Option.map_eq_some_iff.mp h
    exact value_bool _
  · cases h
    exact value_bool _
  · cases h
    exact value_bool _
  · cases h
    exact value_bool _
  · cases h

end Values

section Handlers

variable {ev : Evaluator} (hev : L.Sound ev) {e : LayerId} (he : L.knows σ e)

/-! ## Tokens and variables -/

include he

theorem holds_token {kind : TokenKind} {text : String} {pos : Option Pos}
    (hn : L.node (.token kind text pos)) : L.Holds σ (token kind text e) L.value := by
  unfold token
  split
  · exact getName text he
  · split
    · exact L.pure (value_number _)
    · next hnone =>
      refine fail_of_shape fun h => ?_
      cases hn h with
      | number _ hsome => simp [hnone] at hsome
  · exact L.pure (value_string _)
  · exact L.pure (value_bool _)
  · exact L.pure (value_bool _)
  · refine fail_of_shape fun h => ?_
    cases hn h <;> simp_all

include hev

theorem holds_assign {cs : List Node} {pos : Option Pos}
    (hn : L.node (.tree .assign cs pos)) : L.Holds σ (assign ev e cs) L.value := by
  unfold assign
  split
  · next name value =>
    have hx : L.shaped → name.IsName := fun h => by cases hn h; assumption
    have hv : L.node value := fun h => by cases hn h; assumption
    refine (expectIdent hx).bind fun x _ => ?_
    refine (hev value e he hv).bind fun v hv => ?_
    refine (L.bound x he).bind fun bound _ => ?_
    split
    · exact raise rfl
    · refine (L.bindName x he hv).bind fun _ _ => ?_
      exact L.pure (value_nothing)
  · next hne =>
    refine fail_of_shape fun h => ?_
    cases hn h
    exact hne _ _ rfl

theorem holds_setVar {cs : List Node} {pos : Option Pos}
    (hn : L.node (.tree .setVar cs pos)) : L.Holds σ (setVar ev e cs) L.value := by
  unfold setVar
  split
  · next name value =>
    have hx : L.shaped → name.IsName := fun h => by cases hn h; assumption
    have hv : L.node value := fun h => by cases hn h; assumption
    refine (expectIdent hx).bind fun x _ => ?_
    refine L.lookup? x he rfl rfl fun _ _ => ?_
    refine (hev value e he hv).bind fun v hv => ?_
    refine (L.setName x he hv).bind fun _ _ => ?_
    exact L.pure (value_nothing)
  · next hne =>
    refine fail_of_shape fun h => ?_
    cases hn h
    exact hne _ _ rfl

theorem holds_inPlace {cs : List Node} {pos : Option Pos}
    (hn : L.node (.tree .inPlace cs pos)) : L.Holds σ (inPlace ev e cs) L.value := by
  unfold inPlace
  split
  · next name op value =>
    have hx : L.shaped → name.IsName := fun h => by cases hn h; assumption
    have ho : L.shaped → op.IsUpdate := fun h => by cases hn h; assumption
    have hv : L.node value := fun h => by cases hn h; assumption
    refine (expectIdent hx).bind fun x _ => ?_
    split
    · next hnone =>
      refine fail_of_shape fun h => ?_
      cases ho h with
      | intro kind pos hsome => simp [Node.operatorText] at hnone; simp [hnone] at hsome
    · refine (hev value e he hv).bind fun v hv => ?_
      split
      · refine L.lookup? x he rfl rfl fun o _ => ?_
        split
        · refine (L.setName x he (value_number _)).bind fun _ _ => ?_
          exact L.pure (value_nothing)
        · exact mismatch (by decide)
        · exact raise rfl
      · exact mismatch (by decide)
  · next hne =>
    refine fail_of_shape fun h => ?_
    cases hn h
    exact hne _ _ _ rfl

omit hev he in
/-- Operands that are refused have only ranges in them that are allowed. -/
theorem holds_refusal (op : Operator) {a b : Value} (ha : L.value a) (hb : L.value b) :
    L.Holds σ (Eval.fail (op.refusal a b)) L.value := by
  refine L.fail ?_
  obtain h | ⟨i, hlong, h⟩ := op.refusal_overlong a b
  · exact L.lawful.documented h
  · rw [h]
    obtain ⟨start, stop, hpart, hrange⟩ | ⟨start, stop, hpart, hrange⟩ := hlong
    · exact L.lawful.ranged (ha _ hpart) hrange
    · exact L.lawful.ranged (hb _ hpart) hrange

theorem holds_binop {cs : List Node} {pos : Option Pos}
    (hn : L.node (.tree .binop cs pos)) : L.Holds σ (binop ev e cs) L.value := by
  unfold binop
  split
  · next left op right =>
    have hl : L.node left := fun h => by cases hn h; assumption
    have ho : L.shaped → op.IsOperator := fun h => by cases hn h; assumption
    have hr : L.node right := fun h => by cases hn h; assumption
    refine (hev left e he hl).bind fun a ha => ?_
    refine (hev right e he hr).bind fun b hb => ?_
    unfold applyOperator
    split
    · unfold Operator.apply
      split
      · next hv => exact L.pure (value_of_value? hv)
      · exact holds_refusal _ ha hb
    · next hnone =>
      refine fail_of_shape fun h => ?_
      cases ho h with
      | intro kind pos hsome => simp [Node.operatorText] at hnone; simp [hnone] at hsome
  · next hne =>
    refine fail_of_shape fun h => ?_
    cases hn h
    exact hne _ _ _ rfl

/-! ## Blocks, conditionals and loops -/

theorem holds_block : ∀ {body : List Node} {result : Value}, L.value result →
    (∀ n ∈ body, L.node n) → L.Holds σ (block ev e result body) L.value
  | [], _, hv, _ => L.pure hv
  | n :: rest, _, _, hn => by
      unfold block
      refine (hev n e he (hn n (List.mem_cons_self ..))).bind fun v hv => ?_
      exact holds_block hv fun n' hn' => hn n' (List.mem_cons_of_mem _ hn')

theorem holds_condition {n : Node} (hn : L.node n) :
    L.Holds σ (condition ev e n) fun _ => True := by
  unfold condition
  refine (hev n e he hn).bind fun v _ => ?_
  split
  · exact L.pure trivial
  · exact mismatch (by decide)

theorem holds_conditional {cs : List Node} (hn : ∀ n ∈ cs, L.node n)
    (hl : L.shaped → 2 ≤ cs.length) : L.Holds σ (conditional ev e cs) L.value := by
  unfold conditional
  split
  · next cond yes rest =>
    refine (holds_condition hev he (hn cond (by simp))).bind fun b _ => ?_
    split
    · exact hev yes e he (hn yes (by simp))
    · split
      · next no _ => exact hev no e he (hn no (by simp))
      · exact L.pure (value_nothing)
  · next hne =>
    refine fail_of_shape fun h => ?_
    have h2 := hl h
    match cs, h2 with
    | cond :: yes :: rest, _ => exact hne _ _ _ rfl

omit hev he in
theorem refines_turns {cond cond' : Eval Bool} {body : Eval Value} (h : Refines cond cond') :
    ∀ n, Refines (turns cond body n) (turns cond' body n)
  | 0 => .refl _
  | n + 1 => by
      unfold turns
      refine h.bind fun b => ?_
      cases b with
      | false => exact .refl _
      | true => exact (Refines.refl body).bind fun _ => refines_turns h n

omit hev he in
/-- Where a strict loop goes on or ends, so does one that is not strict. -/
theorem refines_loopCondition {c c' : Config} (h : c.Relaxes c') (n : Node) :
    Refines (loopCondition ev e c.strictWhile n) (loopCondition ev e c'.strictWhile n) := by
  refine (Refines.refl (ev n e)).bind fun v => ?_
  have hother : Refines (if c.strictWhile then Eval.mismatch "bool" v else Pure.pure false)
      (if c'.strictWhile then Eval.mismatch "bool" v else Pure.pure false) := by
    cases hc : c.strictWhile with
    | true => exact .of_fail _
    | false =>
        have hc' : c'.strictWhile = false := by
          by_contra hstrict
          have := h.strictWhile (by simpa using hstrict)
          simp [hc] at this
        rw [hc']
        exact .refl _
  cases v with
  | bool b => exact .refl _
  | _ => exact hother

omit hev he in
theorem holds_turns {cond : Eval Bool} {body : Eval Value} {Q : Value → Prop}
    (hc : L.Holds σ cond fun _ => True) (hb : L.Holds σ body Q) :
    ∀ n, L.Holds σ (turns cond body n) L.value
  | 0 => L.fail (L.lawful.documented trivial)
  | n + 1 => by
      unfold turns
      refine hc.bind fun b _ => ?_
      split
      · exact hb.bind fun _ _ => holds_turns hc hb n
      · exact L.pure (value_nothing)

theorem holds_whileLoop {limit : Nat} {cs : List Node} {pos : Option Pos}
    (hn : L.node (.tree .whileLoop cs pos)) : L.Holds σ (whileLoop limit ev e cs) L.value := by
  unfold whileLoop
  split
  · next cond body =>
    have hc : L.node cond := fun h => by cases hn h; assumption
    have hb : L.node body := fun h => by cases hn h; assumption
    refine L.configOf he (fun c c' h => refines_turns (refines_loopCondition h cond) limit)
      fun c => ?_
    refine holds_turns ?_ (hev body e he hb) limit
    refine (hev cond e he hc).bind fun v _ => ?_
    split
    · exact L.pure trivial
    · split
      · exact mismatch (by decide)
      · exact L.pure trivial
  · next hne =>
    refine fail_of_shape fun h => ?_
    cases hn h
    exact hne _ _ rfl

omit hev he in
theorem holds_overItems {turn : Value → Eval Value} : ∀ {items : List Value} {last : Value},
    L.value last → (∀ v ∈ items, L.Holds σ (turn v) L.value) →
    L.Holds σ (overItems turn last items) L.value
  | [], _, hl, _ => L.pure hl
  | v :: rest, _, _, ht => by
      unfold overItems
      refine (ht v (List.mem_cons_self ..)).bind fun result hr => ?_
      exact holds_overItems hr fun v' hv' => ht v' (List.mem_cons_of_mem _ hv')

omit hev he in
theorem holds_overRange {turn : Int → Eval Value} : ∀ {count : Nat} {i : Int} {last : Value},
    L.value last → (∀ j, i ≤ j → j < i + count → L.Holds σ (turn j) L.value) →
    L.Holds σ (overRange turn last count i) L.value
  | 0, _, _, hl, _ => L.pure hl
  | n + 1, i, _, _, ht => by
      unfold overRange
      refine (ht i (Int.le_refl i) (by omega)).bind fun result hr => ?_
      exact holds_overRange hr fun j h1 h2 => ht j (by omega) (by push_cast; omega)

omit hev he in
/-- An integer has a turn, or may fail to have one. -/
theorem holds_wholeTurn {turn : Value → Eval Value} {i : Int}
    (ht : ∀ x, L.Holds σ (turn (.number x)) L.value)
    (hf : Number.ofInt? i = none → L.failure (.beyondDoubles i)) :
    L.Holds σ (wholeTurn turn i) L.value := by
  unfold wholeTurn
  cases hx : Number.ofInt? i with
  | some x => exact ht x
  | none => exact L.fail (hf hx)

theorem holds_forLoop {cs : List Node} {pos : Option Pos}
    (hn : L.node (.tree .forLoop cs pos)) : L.Holds σ (forLoop ev e cs) L.value := by
  unfold forLoop
  split
  · next target iterable body =>
    have hx : L.shaped → target.IsName := fun h => by cases hn h; assumption
    have hi : L.node iterable := fun h => by cases hn h; assumption
    have hb : L.node body := fun h => by cases hn h; assumption
    refine (expectIdent hx).bind fun x _ => ?_
    have hturn : ∀ {v}, L.value v →
        L.Holds σ (Eval.bindName e x v >>= fun _ => ev body e) L.value :=
      fun hv => (L.bindName x he hv).bind fun _ _ => hev body e he hb
    refine (hev iterable e he hi).bind fun v hv => ?_
    split
    · exact holds_overItems (value_nothing) fun v hm => hturn (hv.item hm)
    · next start stop =>
      refine holds_overRange (value_nothing) fun j h1 h2 => ?_
      exact holds_wholeTurn (fun x => hturn (value_number x))
        fun hnone => L.lawful.ranged hv.here (.beyondDoubles h1 (by omega) hnone)
    · exact mismatch (by decide)
  · next hne =>
    refine fail_of_shape fun h => ?_
    cases hn h
    exact hne _ _ _ rfl

/-! ## Calls -/

omit hev he in
theorem holds_runBuiltin (b : Builtin) (args : List Value) :
    L.Holds σ (runBuiltin b args) L.value := by
  unfold runBuiltin
  split
  · exact L.fail (L.lawful.documented trivial)
  · cases b with
    | print => exact (L.write _).bind fun _ _ => L.pure (value_nothing)
    | println => exact (L.write _).bind fun _ _ => L.pure (value_nothing)

theorem holds_argument (hc : L.catches) (b : Builtin) {n : Node} (hn : L.node n) :
    L.Holds σ (argument ev e b n) L.value :=
  L.attempt hc (hev n e he hn) (fun _ hv => L.pure hv) fun _ =>
    ⟨_, _, rfl, rfl, L.pure (value_nothing)⟩

theorem holds_callBuiltin (hc : L.catches) (b : Builtin) {args : List Node}
    (ha : ∀ n ∈ args, L.node n) :
    L.Holds σ (callBuiltin ev e b args) L.value := by
  unfold callBuiltin
  exact (each (R := L.value) fun n hn => holds_argument hev he hc b (ha n hn)).bind
    fun vs _ => holds_runBuiltin b vs

/-- Whatever holds in all layers that may be new holds in the layer of a function's body. -/
theorem holds_enterFunction {β : Type} {R : β → Prop} {k : LayerId → Eval β}
    (hk : ∀ τ l, L.knows τ l → L.Holds τ (k l) R) {f : Function} (hf : L.value (.function f))
    {args : List Node} (ha : ∀ n ∈ args, L.node n) :
    L.Holds σ (enterFunction ev e f args >>= k) R := by
  unfold enterFunction
  split
  · exact Holds.bind (Q := fun _ => False) (raise rfl) nofun
  · rw [bind_assoc]
    refine L.calleeLayer f he fun τ callee hlater hc => ?_
    refine Holds.bind (Q := L.knows τ) ?_ fun l hl => hk τ l hl
    refine (L.bindName _ hc hf).bind fun _ _ => ?_
    refine (forAll fun p hp => ?_).bind fun _ _ => ?_
    · refine (hev p.2 e (hlater e he) (ha p.2 (List.of_mem_zip hp).2)).bind fun v hv => ?_
      exact L.bindName p.1 hc hv
    · exact (L.record (by nofun)).bind fun _ _ => L.pure hc

theorem holds_callFunction {f : Function} (hf : L.value (.function f)) {args : List Node}
    (ha : ∀ n ∈ args, L.node n) : L.Holds σ (callFunction ev e f args) L.value := by
  unfold callFunction
  refine holds_enterFunction hev he (fun τ callee hc => ?_) hf ha
  exact hev f.body callee hc (L.lawful.body hf.here)

theorem holds_callBound (name : String) {args : List Node} (ha : ∀ n ∈ args, L.node n) :
    L.Holds σ (callBound ev e name args) L.value := by
  refine L.lookup? name he rfl rfl fun v hv => ?_
  cases v with
  | function f => exact holds_callFunction hev he hv ha
  | _ => exact mismatch (by decide)

theorem holds_call (hc : L.catches) {cs : List Node} {pos : Option Pos}
    (hn : L.node (.tree .call cs pos)) :
    L.Holds σ (call ev e cs) L.value := by
  unfold call
  split
  · next name args =>
    have hx : L.shaped → name.IsName := fun h => by cases hn h; assumption
    have ha : ∀ n ∈ args.children, L.node n := fun n hmem h => by
      cases hn h with
      | call _ _ _ ha => exact ha n hmem
    refine (expectIdent hx).bind fun x _ => ?_
    refine (L.builtin? x he).bind fun b _ => ?_
    split
    · exact holds_callBuiltin hev he hc _ ha
    · exact holds_callBound hev he x ha
  · next hne =>
    refine fail_of_shape fun h => ?_
    cases hn h
    exact hne _ _ rfl

omit hev in
theorem holds_funDef {cs : List Node} {pos : Option Pos} (hn : L.node (.tree .funDef cs pos)) :
    L.Holds σ (funDef e cs) L.value := by
  unfold funDef
  split
  · next name params body =>
    have hx : L.shaped → name.IsName := fun h => by cases hn h; assumption
    have hp : L.shaped → params.IsNames .params := fun h => by cases hn h; assumption
    have hb : L.node body := fun h => by cases hn h; assumption
    refine (expectIdent hx).bind fun x _ => ?_
    refine (L.builtin? x he).bind fun b hb? => ?_
    split
    · exact raise rfl
    · next hnone =>
      have hx : L.defines x := hb? (by simpa using hnone)
      refine (identList hp).bind fun ps _ => ?_
      have hf : L.value (.function ⟨x, ps, body, some e⟩) :=
        value_function (L.lawful.define ps (L.layer_of_knows he) hx hb)
      refine (L.bindName x he hf).bind fun _ _ => ?_
      exact (L.record (by nofun)).bind fun _ _ => L.pure hf
  · next hne =>
    refine fail_of_shape fun h => ?_
    cases hn h
    exact hne _ _ _ rfl

/-! ## Methods -/

omit hev in
/-- The receiver is a value within the domain and the method's body a tree that may be
evaluated. -/
theorem holds_resolveMethod (receiver method : String) :
    L.Holds σ (resolveMethod e receiver method) fun t =>
      L.value t.receiver ∧ L.node t.method.body := by
  unfold resolveMethod
  refine L.lookup? receiver he rfl rfl fun v hv => ?_
  cases v with
  | object structName fields =>
      refine L.lookup? structName he rfl rfl fun u _ => ?_
      cases u with
      | struct r =>
          refine (L.method? r method).bind fun m hm => ?_
          split
          · exact L.pure ⟨hv, hm _ rfl⟩
          · exact raise rfl
      | _ => exact raise (by decide)
  | _ => exact raise (by decide)

theorem holds_enterMethod {β : Type} {R : β → Prop} {k : LayerId → Eval β}
    (hk : ∀ τ l, L.knows τ l → L.Holds τ (k l) R) {t : MethodTarget} (ht : L.value t.receiver)
    (binding : MethodArgs) (names : List String) {args : List Node}
    (ha : ∀ n ∈ args, L.node n) : L.Holds σ (enterMethod ev e t binding names args >>= k) R := by
  unfold enterMethod
  rw [bind_assoc]
  refine L.spawn he (fun q hq => (Option.some.inj hq).symm) fun τ scratch hlater hs => ?_
  rw [bind_assoc]
  refine (each fun n hn => hev n scratch hs (ha n hn)).bind fun vs hvs => ?_
  rw [bind_assoc]
  refine L.calleeLayer t.method (hlater e he) fun υ callee _ hc => ?_
  refine Holds.bind (Q := L.knows υ) ?_ fun l hl => hk υ l hl
  refine (L.bindName _ hc ht).bind fun _ _ => ?_
  refine (forAll fun p hp => ?_).bind fun _ _ => ?_
  · exact L.bindName p.1 hc (hvs p.2 (List.of_mem_zip hp).2)
  · exact (L.record (by nofun)).bind fun _ _ => L.pure hc

theorem holds_runMethod {t : MethodTarget} (ht : L.value t.receiver)
    (hb : L.node t.method.body) (binding : MethodArgs) (names : List String)
    {args : List Node} (ha : ∀ n ∈ args, L.node n) :
    L.Holds σ (runMethod ev e t binding names args) L.value := by
  unfold runMethod
  refine holds_enterMethod hev he (fun τ callee hc => ?_) ht binding names ha
  exact hev t.method.body callee hc hb

theorem holds_callMethod {t : MethodTarget} (ht : L.value t.receiver)
    (hb : L.node t.method.body) {args : List Node} (ha : ∀ n ∈ args, L.node n) :
    L.Holds σ (callMethod ev e t args) L.value := by
  unfold callMethod
  refine L.configOf he (fun c c' h => ?_) fun c => ?_
  · rw [h.methodArgs]
    exact fun _ _ _ hs => hs
  split
  · exact holds_runMethod hev he ht hb _ _ ha
  · dsimp only
    split
    · exact raise rfl
    · exact holds_runMethod hev he ht hb _ _ fun n hn => ha n (List.mem_of_mem_take hn)

theorem holds_getFunc {cs : List Node} {pos : Option Pos} (hn : L.node (.tree .getFunc cs pos)) :
    L.Holds σ (getFunc ev e cs) L.value := by
  unfold getFunc
  split
  · next receiver method args =>
    have hr : L.shaped → receiver.IsName := fun h => by cases hn h; assumption
    have hm : L.shaped → method.IsName := fun h => by cases hn h; assumption
    have ha : ∀ n ∈ args.children, L.node n := fun n hmem h => by
      cases hn h with
      | getFunc _ _ _ _ ha => exact ha n hmem
    refine (expectIdent hr).bind fun r _ => ?_
    refine (expectIdent hm).bind fun m _ => ?_
    refine (holds_resolveMethod he r m).bind fun t ht => ?_
    exact holds_callMethod hev he ht.1 ht.2 ha
  · next hne =>
    refine fail_of_shape fun h => ?_
    cases hn h
    exact hne _ _ _ rfl

/-! ## Structs -/

omit hev in
theorem holds_lookupStruct (name : String) :
    L.Holds σ (lookupStruct e name) fun _ => True := by
  unfold lookupStruct
  refine L.lookup? name he rfl rfl fun v _ => ?_
  cases v with
  | struct r => exact L.pure trivial
  | _ => exact mismatch (by decide)

omit hev in
theorem holds_structDef {cs : List Node} {pos : Option Pos}
    (hn : L.node (.tree .structDef cs pos)) : L.Holds σ (structDef e cs) L.value := by
  unfold structDef
  split
  · next name fields =>
    have hx : L.shaped → name.IsName := fun h => by cases hn h; assumption
    have hf : L.shaped → fields.IsNames .fields := fun h => by cases hn h; assumption
    refine (expectIdent hx).bind fun x _ => ?_
    refine (identList hf).bind fun fs _ => ?_
    refine (L.addStruct x fs).bind fun r hr => ?_
    refine (L.bindName x he hr).bind fun _ _ => ?_
    exact (L.record (by nofun)).bind fun _ _ => L.pure (value_nothing)
  · next hne =>
    refine fail_of_shape fun h => ?_
    cases hn h
    exact hne _ _ rfl

theorem holds_pair {n : Node} (hn : L.shaped → n.IsPair) :
    L.Holds σ (pair ev e n) fun q => L.value q.2 := by
  unfold pair
  split
  · split
    · next key value hcs =>
      have hk : L.shaped → key.IsName := fun h => by
        cases hn h
        cases hcs
        assumption
      have hv : L.node value := fun h => by
        cases hn h
        cases hcs
        assumption
      refine (expectIdent hk).bind fun k _ => ?_
      exact (hev value e he hv).bind fun v hv => L.pure hv
    · next hne =>
      refine fail_of_shape fun h => ?_
      cases hn h
      exact hne _ _ rfl
  · next hlabel =>
    refine fail_of_shape fun h => ?_
    cases hn h
    exact hlabel rfl

theorem holds_slots (declared : List String) : ∀ {pairs : List Node} {filled : Bindings Value},
    (∀ q ∈ filled, L.value q.2) → (∀ n ∈ pairs, L.shaped → n.IsPair) →
    L.Holds σ (slots ev e declared filled pairs) fun fields => ∀ q ∈ fields, L.value q.2
  | [], _, hf, _ => L.pure hf
  | n :: rest, _, hf, hn => by
      unfold slots
      refine (holds_pair hev he (hn n (List.mem_cons_self ..))).bind fun q hq => ?_
      refine holds_slots declared ?_ fun n' hn' => hn n' (List.mem_cons_of_mem _ hn')
      intro p hp
      split at hp
      · rcases Bindings.mem_put hp with hp | rfl
        · exact hf p hp
        · exact hq
      · exact hf p hp

theorem holds_callStruct {cs : List Node} {pos : Option Pos}
    (hn : L.node (.tree .callStruct cs pos)) : L.Holds σ (callStruct ev e cs) L.value := by
  unfold callStruct
  split
  · next name pairs =>
    have hx : L.shaped → name.IsName := fun h => by cases hn h; assumption
    have hp : ∀ n ∈ pairs, L.shaped → n.IsPair := fun n hmem h => by
      cases hn h with
      | callStruct _ _ hp => exact hp n hmem
    refine (expectIdent hx).bind fun x _ => ?_
    refine (holds_lookupStruct he x).bind fun r _ => ?_
    refine (holds_slots hev he r.fields (by simp) hp).bind fun fields hf => ?_
    exact L.pure (value_object hf)
  · refine fail_of_shape fun h => ?_
    cases hn h

omit hev in
theorem holds_getAttr {cs : List Node} {pos : Option Pos}
    (hn : L.node (.tree .getAttr cs pos)) : L.Holds σ (getAttr e cs) L.value := by
  unfold getAttr
  split
  · next name attr =>
    have hx : L.shaped → name.IsName := fun h => by cases hn h; assumption
    have ha : L.shaped → attr.IsName := fun h => by cases hn h; assumption
    refine (expectIdent ha).bind fun a _ => ?_
    refine (expectIdent hx).bind fun x _ => ?_
    refine L.lookup? x he rfl rfl fun v hv => ?_
    cases v with
    | object structName slots =>
        dsimp only
        split
        · next hget => exact L.pure (hv.slot (Bindings.mem_of_get? hget))
        · exact raise rfl
    | _ => exact raise (by decide)
  · next hne =>
    refine fail_of_shape fun h => ?_
    cases hn h
    exact hne _ _ rfl

omit hev in
theorem holds_impl {cs : List Node} {pos : Option Pos}
    (hn : L.node (.tree .impl cs pos)) : L.Holds σ (impl e cs) L.value := by
  unfold impl
  split
  · next struct method params body =>
    have hs : L.shaped → struct.IsName := fun h => by cases hn h; assumption
    have hm : L.shaped → method.IsName := fun h => by cases hn h; assumption
    have hp : L.shaped → params.IsNames .params := fun h => by cases hn h; assumption
    have hb : L.node body := fun h => by cases hn h; assumption
    refine (expectIdent hs).bind fun x _ => ?_
    refine (holds_lookupStruct he x).bind fun r _ => ?_
    refine (expectIdent hm).bind fun m _ => ?_
    refine (identList hp).bind fun ps _ => ?_
    refine (L.putMethod r m hb).bind fun _ _ => ?_
    exact (L.record (by nofun)).bind fun _ _ => L.pure (value_nothing)
  · next hne =>
    refine fail_of_shape fun h => ?_
    cases hn h
    exact hne _ _ _ _ rfl

/-! ## Lists and ranges -/

theorem holds_list {items : List Node} (hn : ∀ n ∈ items, L.node n) :
    L.Holds σ (list ev e items) L.value := by
  unfold list
  refine (each fun n hmem => hev n e he (hn n hmem)).bind fun vs hvs => ?_
  exact L.pure (value_list hvs)

theorem holds_range {cs : List Node} {pos : Option Pos} (hn : L.node (.tree .range cs pos)) :
    L.Holds σ (range ev e cs) L.value := by
  unfold range
  split
  · next start stop =>
    have h1 : L.node start := fun h => by cases hn h; assumption
    have h2 : L.node stop := fun h => by cases hn h; assumption
    refine (hev start e he h1).bind fun a _ => ?_
    refine (hev stop e he h2).bind fun b _ => ?_
    split
    · exact L.pure (value_range _ _)
    · exact mismatch (by decide)
    · exact mismatch (by decide)
  · next hne =>
    refine fail_of_shape fun h => ?_
    cases hn h
    exact hne _ _ rfl

omit hev he in
theorem holds_refuseIndex (name : String) {i : Int}
    (hf : Number.inFull i = .error i → L.failure (.unwritable i)) :
    L.Holds σ (refuseIndex name i) L.value := by
  unfold refuseIndex
  cases hi : Number.inFull i with
  | ok text => exact raise rfl
  | error j =>
      obtain rfl := Number.inFull_eq_error hi
      exact L.fail (hf hi)

omit hev he in
theorem holds_itemAt (name : String) {items : List Value} (hi : ∀ v ∈ items, L.value v)
    (x : Float) : L.Holds σ (itemAt name items x) L.value := by
  unfold itemAt
  split
  · dsimp only
    rw [Eval.refuseIndex_truncate]
    split
    · exact raise rfl
    · split
      · next v hv => exact L.pure (hi v (List.mem_of_getElem? hv))
      · exact raise rfl
  · exact raise rfl

omit hev he in
theorem holds_slice (name : String) {items : List Value} (hi : ∀ v ∈ items, L.value v)
    {start stop : Int} (hr : L.value (.range start stop)) :
    L.Holds σ (slice name items start stop) L.value := by
  unfold slice
  dsimp only
  split
  · exact holds_refuseIndex name fun h => L.lawful.ranged hr.here (.unwritable (.inl rfl) h)
  · split
    · exact holds_refuseIndex name fun h => L.lawful.ranged hr.here (.unwritable (.inr rfl) h)
    · refine L.pure (value_list fun v hv => ?_)
      exact hi v (List.mem_of_mem_drop (List.mem_of_mem_take hv))

theorem holds_index {cs : List Node} {pos : Option Pos} (hn : L.node (.tree .index cs pos)) :
    L.Holds σ (index ev e cs) L.value := by
  unfold index
  split
  · next target idx =>
    have hx : L.shaped → target.IsName := fun h => by cases hn h; assumption
    have hi : L.node idx := fun h => by cases hn h; assumption
    refine (expectIdent hx).bind fun x _ => ?_
    refine L.lookup? x he rfl rfl fun v hv => ?_
    cases v with
    | list items =>
        have hitems := fun u hu => hv.item (v := u) hu
        refine (hev idx e he hi).bind fun i hi => ?_
        split
        · exact holds_itemAt x hitems _
        · exact holds_slice x hitems hi
        · exact mismatch (by decide)
    | _ => exact mismatch (by decide)
  · next hne =>
    refine fail_of_shape fun h => ?_
    cases hn h
    exact hne _ _ rfl

/-! ## Match -/

omit hev he in
theorem holds_arm {n : Node} (hn : L.shaped → n.IsArm) :
    L.Holds σ (arm n) fun a => L.node a.1 ∧ L.node a.2 := by
  unfold arm
  split
  · split
    · next pattern body hcs =>
      refine L.pure ⟨fun h => ?_, fun h => ?_⟩
      · cases hn h
        cases hcs
        assumption
      · cases hn h
        cases hcs
        assumption
    · next hne =>
      refine fail_of_shape fun h => ?_
      cases hn h
      exact hne _ _ rfl
  · next hlabel =>
    refine fail_of_shape fun h => ?_
    cases hn h
    exact hlabel rfl

theorem holds_allArms (hc : L.catches) {subject : Node} (hs : L.node subject) :
    ∀ {arms : List (Node × Node)} {result : Value}, L.value result →
      (∀ a ∈ arms, L.node a.1 ∧ L.node a.2) →
      L.Holds σ (allArms ev e subject result arms) L.value
  | [], _, hr, _ => L.pure hr
  | (pattern, body) :: rest, _, _, ha => by
      obtain ⟨hp, hb⟩ := ha _ (List.mem_cons_self ..)
      have hrest : L.Holds σ (do
          let _ ← ev subject e
          let value ← ev body (← Eval.armLayer e)
          allArms ev e subject value rest) L.value := by
        refine (hev subject e he hs).bind fun _ _ => ?_
        -- What follows the body is judged at the stage before its layer was made.
        rw [← bind_assoc]
        refine Holds.bind (L.armLayer he fun τ l _ hl => hev body l hl hb) fun v hv => ?_
        exact holds_allArms hc hs hv fun a hmem => ha a (List.mem_cons_of_mem _ hmem)
      unfold allArms
      refine L.attempt hc (hev pattern e he hp) (fun _ _ => hrest) fun err => ?_
      exact ⟨_, _, rfl, rfl, hrest⟩

theorem holds_takes (v : Value) {pattern : Node} (hp : L.node pattern) :
    L.Holds σ (takes ev e v pattern) fun _ => True := by
  unfold takes
  split
  · exact L.pure trivial
  · exact (hev pattern e he hp).bind fun _ _ => L.pure trivial

theorem holds_firstArm (v : Value) : ∀ {arms : List (Node × Node)} {i : Nat},
    (∀ a ∈ arms, L.node a.1 ∧ L.node a.2) → L.Holds σ (firstArm ev e v i arms) L.value
  | [], _, _ => L.pure (value_nothing)
  | (pattern, body) :: rest, i, ha => by
      obtain ⟨hp, hb⟩ := ha _ (List.mem_cons_self ..)
      unfold firstArm
      refine (holds_takes hev he v hp).bind fun b _ => ?_
      split
      · refine (L.record (by nofun)).bind fun _ _ => ?_
        exact L.armLayer he fun τ l _ hl => hev body l hl hb
      · exact holds_firstArm v fun a hmem => ha a (List.mem_cons_of_mem _ hmem)

theorem holds_matching (hc : L.catches) {cs : List Node} {pos : Option Pos}
    (hn : L.node (.tree .matching cs pos)) : L.Holds σ (matching ev e cs) L.value := by
  unfold matching
  split
  · next subject cases' =>
    have hs : L.node subject := fun h => by cases hn h; assumption
    have ha : ∀ n ∈ cases', L.shaped → n.IsArm := fun n hmem h => by
      cases hn h with
      | matching _ _ ha => exact ha n hmem
    refine (each (R := fun a : Node × Node => L.node a.1 ∧ L.node a.2)
      fun n hmem => holds_arm (ha n hmem)).bind fun arms harms => ?_
    refine L.configOf he (fun c c' h => ?_) fun c => ?_
    · rw [h.matchMode]
      exact fun _ _ _ hs => hs
    split
    · exact (hev subject e he hs).bind fun v _ => holds_firstArm hev he v harms
    · refine (L.record (by nofun)).bind fun _ _ => ?_
      exact holds_allArms hev he hc hs (value_nothing) harms
  · refine fail_of_shape fun h => ?_
    cases hn h

/-! ## All nodes -/

/-- Only calls and matches go on after errors. -/
theorem holds_tree (limit : Nat) {label : Label} {cs : List Node} {pos : Option Pos}
    (hc : label = .call ∨ label = .matching → L.catches) (hn : L.node (.tree label cs pos)) :
    L.Holds σ (tree limit ev label cs e) L.value := by
  unfold tree
  split
  · exact L.pure (value_nothing)
  · exact holds_block hev he (value_nothing) fun n hmem h => by
      cases hn h with
      | block _ h => exact h n hmem
  · exact holds_binop hev he hn
  · refine holds_conditional hev he (fun n hmem h => ?_) fun h => ?_
    · cases hn h with
      | ifThen _ hc hy =>
        simp only [List.mem_cons, List.not_mem_nil, or_false] at hmem
        rcases hmem with rfl | rfl <;> assumption
    · cases hn h
      exact Nat.le_refl 2
  · refine holds_conditional hev he (fun n hmem h => ?_) fun h => ?_
    · cases hn h with
      | ifThenElse _ hc hy hno =>
        simp only [List.mem_cons, List.not_mem_nil, or_false] at hmem
        rcases hmem with rfl | rfl | rfl <;> assumption
    · cases hn h
      exact Nat.le_succ 2
  · exact holds_assign hev he hn
  · exact holds_setVar hev he hn
  · exact holds_inPlace hev he hn
  · exact holds_whileLoop hev he hn
  · exact holds_forLoop hev he hn
  · exact holds_funDef he hn
  · exact holds_call hev he (hc (.inl rfl)) hn
  · exact holds_list hev he fun n hmem h => by
      cases hn h with
      | list _ h => exact h n hmem
  · exact holds_index hev he hn
  · exact holds_range hev he hn
  · exact holds_structDef he hn
  · exact holds_callStruct hev he hn
  · exact holds_getAttr he hn
  · exact holds_impl he hn
  · exact holds_getFunc hev he hn
  · exact holds_matching hev he (hc (.inr rfl)) hn
  · refine fail_of_shape fun h => ?_
    cases hn h <;> simp_all

theorem holds_step (hc : L.catches) (limit : Nat) {n : Node} (hn : L.node n) :
    L.Holds σ (step limit ev n e) L.value := by
  unfold step
  split
  · exact holds_token he hn
  · exact holds_tree hev he limit (fun _ => hc) hn
  · refine fail_of_shape fun h => ?_
    cases hn h

end Handlers

/-- However deep evaluation may nest, it is as every logic says. -/
theorem sound_evalNode (L : Logic) (hc : L.catches) (limit : Nat) :
    ∀ depth, L.Sound (evalNode limit depth)
  | 0 => fun _ _ _ _ _ => L.fail (L.lawful.documented trivial)
  | depth + 1 => fun _ _ _ he hn =>
      L.located _ (holds_step (sound_evalNode L hc limit depth) he hc limit hn)

end Logic

end Tern
