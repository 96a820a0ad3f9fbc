import Tern.Proofs.Lockstep

/-!
# Mirrored evaluations

Every handler goes in lockstep with itself on mirrored nodes when the evaluators for the nodes
inside do (`Mirror.Sound`), one lemma for each kind of node, and hence so does evaluation
(`Mirror.Lawful.sound`). Both sides see the same number of children, so that they give up on the
shape of a tree together. Shapes matter for one thing only: a well-shaped tree has well-shaped
trees inside, where these are evaluated.
-/

namespace Tern

open Eval

namespace Mirror

/-- Evaluators that go in lockstep on mirrored trees. -/
def Sound (M : Mirror) (ev ev' : Evaluator) : Prop :=
  ∀ n n' e, n.Mirrored M n' → M.Holds (ev n e) (ev' n' e) (Value.Mirrored M)

variable {M : Mirror}

/-! ## What depends on the store alone -/

theorem holds_runBuiltin (hM : M.Lawful) (b : Builtin) {vs vs' : List Value}
    (h : List.Forall₂ (Value.Mirrored M) vs vs') :
    M.Holds (runBuiltin b vs) (runBuiltin b vs') (Value.Mirrored M) := by
  have htexts := hM.displayItems h
  unfold runBuiltin
  generalize Value.displayItems vs = r at htexts
  generalize Value.displayItems vs' = r' at htexts
  cases htexts with
  | error h => exact holds_fail (.undisplayable h)
  | ok h =>
      subst h
      cases b with
      | print => exact (holds_write _).bind fun _ _ _ => holds_pure .nothing
      | println => exact (holds_write _).bind fun _ _ _ => holds_pure .nothing

theorem holds_calleeLayer (e : LayerId) {f f' : Function} (h : f.Mirrored M f') :
    M.Holds (calleeLayer e f) (calleeLayer e f') fun l l' => l' = l := by
  unfold calleeLayer scopeParent
  refine Holds.bind (Q := fun p p' => p' = p) ?_ fun p _ hp => by subst hp; exact holds_spawn e _
  refine (holds_configOf e).bind fun c _ hc => ?_
  subst hc
  split
  · exact holds_pure h.frame
  · exact holds_pure rfl

theorem holds_armLayer (e : LayerId) :
    M.Holds (armLayer e) (armLayer e) fun l l' => l' = l := by
  unfold armLayer
  refine (holds_configOf e).bind fun c _ hc => ?_
  subst hc
  exact holds_spawn e _

theorem holds_lookupStruct (hM : M.Lawful) (e : LayerId) (x : String) :
    M.Holds (lookupStruct e x) (lookupStruct e (M.name x)) (StructRef.Mirrored M) := by
  unfold lookupStruct
  refine (hM.holds_lookup? e x).bind fun o o' ho => ?_
  cases ho with
  | none => exact hM.holds_raise ⟨rfl, fun h => by rw [hM.spelled h]⟩
  | some hv =>
      have hother := hv
      cases hv with
      | struct h => exact holds_pure h
      | _ => exact hM.holds_mismatch _ hother

theorem holds_outOfBounds (hM : M.Lawful) (index x : String) :
    M.Holds (Eval.raise (.indexOutOfBounds index x) : Eval Value)
      (Eval.raise (.indexOutOfBounds index (M.name x))) (Value.Mirrored M) :=
  hM.holds_raise ⟨rfl, fun h => by rw [hM.spelled h]⟩

theorem holds_refuseIndex (hM : M.Lawful) (x : String) (i : Int) :
    M.Holds (refuseIndex x i) (refuseIndex (M.name x) i) (Value.Mirrored M) := by
  unfold refuseIndex
  split
  · exact holds_outOfBounds hM _ x
  · exact holds_fail (.host nofun)

section Items

variable (hM : M.Lawful) (x : String) {items items' : List Value}
  (h : List.Forall₂ (Value.Mirrored M) items items')

include hM h

theorem holds_itemAt (i : Float) :
    M.Holds (itemAt x items i) (itemAt (M.name x) items' i) (Value.Mirrored M) := by
  unfold itemAt
  split
  · dsimp only
    split
    · exact holds_refuseIndex hM x _
    · have hrel := rel_getElem? h (Number.truncate i).toNat
      generalize items[(Number.truncate i).toNat]? = o at hrel
      generalize items'[(Number.truncate i).toNat]? = o' at hrel
      cases hrel with
      | some hv => exact holds_pure hv
      | none => exact holds_refuseIndex hM x _
  · exact holds_outOfBounds hM _ x

theorem holds_slice (start stop : Int) :
    M.Holds (slice x items start stop) (slice (M.name x) items' start stop)
      (Value.Mirrored M) := by
  unfold slice
  dsimp only
  rw [← h.length_eq]
  split
  · exact holds_refuseIndex hM x _
  · split
    · exact holds_refuseIndex hM x _
    · exact holds_pure (.list (List.forall₂_take _ (List.forall₂_drop _ h)))

end Items

theorem holds_token (hM : M.Lawful) (e : LayerId) {kind : TokenKind} {text : String} :
    M.Holds (Eval.token kind text e)
      (Eval.token kind (if kind = .ident then M.name text else text) e) (Value.Mirrored M) := by
  by_cases hkind : kind = .ident
  · subst hkind
    exact hM.holds_getName e text
  · rw [if_neg hkind]
    unfold Eval.token
    split
    · exact absurd rfl hkind
    · split
      · exact holds_pure (.number _)
      · exact holds_fail (.host nofun)
    · exact holds_pure (.string _)
    · exact holds_pure (.bool _)
    · exact holds_pure (.bool _)
    · exact hM.holds_raise ⟨rfl, fun _ => rfl⟩

theorem holds_funDef (hM : M.Lawful) (e : LayerId) {cs cs' : List Node} {p p' : Option Pos}
    (hn : (Node.tree .funDef cs p).Mirrored M (.tree .funDef cs' p')) :
    M.Holds (funDef e cs) (funDef e cs') (Value.Mirrored M) := by
  match cs, cs', hM.forall₂_children hn.node, hn with
  | [], [], .nil, _ => exact holds_misshapen
  | [_], [_], .cons _ .nil, _ => exact holds_misshapen
  | [_, _], [_, _], .cons _ (.cons _ .nil), _ => exact holds_misshapen
  | _ :: _ :: _ :: _ :: _, _, .cons _ (.cons _ (.cons _ (.cons _ _))), _ => exact holds_misshapen
  | [name, params, body], [name', params', body'], .cons hx (.cons hp (.cons hb .nil)), hn =>
    have hb : body.Mirrored M body' := ⟨hb, fun h => by cases hn.shape h; assumption⟩
    unfold funDef
    refine (hM.holds_expectIdent hx).bind fun x _ hx => ?_
    subst hx
    refine (hM.holds_builtin? e x).bind fun b _ hb => ?_
    subst hb
    split
    · exact hM.holds_raise ⟨rfl, fun h => by rw [hM.spelled h]⟩
    · refine (hM.holds_identList hp).bind fun ps _ hps => ?_
      have hf : (Value.function ⟨x, ps, body, some e⟩).Mirrored M
          (.function ⟨M.name x, _, body', some e⟩) := .function ⟨rfl, hps, hb, rfl⟩
      refine (hM.holds_bindName e x hf).bind fun _ _ _ => ?_
      exact (holds_record _ _).bind fun _ _ _ => holds_pure hf

theorem holds_structDef (hM : M.Lawful) (e : LayerId) {cs cs' : List Node}
    (hcs : List.Forall₂ M.node cs cs') :
    M.Holds (structDef e cs) (structDef e cs') (Value.Mirrored M) := by
  match cs, cs', hcs with
  | [], [], .nil => exact holds_misshapen
  | [_], [_], .cons _ .nil => exact holds_misshapen
  | _ :: _ :: _ :: _, _, .cons _ (.cons _ (.cons _ _)) => exact holds_misshapen
  | [name, fields], [name', fields'], .cons hx (.cons hf .nil) =>
    unfold structDef
    refine (hM.holds_expectIdent hx).bind fun x _ hx => ?_
    subst hx
    refine (hM.holds_identList hf).bind fun fs fs' hfs => ?_
    refine Holds.bind (Q := StructRef.Mirrored M) ?_ fun r r' hr => ?_
    · exact fun s t hst => ⟨.ok ⟨hst.structs, rfl, hfs⟩, hst.addStruct x fs (M.name x) fs'⟩
    · refine (hM.holds_bindName e x (.struct hr)).bind fun _ _ _ => ?_
      exact (holds_record _ _).bind fun _ _ _ => holds_pure .nothing

theorem holds_getAttr (hM : M.Lawful) (e : LayerId) {cs cs' : List Node}
    (hcs : List.Forall₂ M.node cs cs') :
    M.Holds (getAttr e cs) (getAttr e cs') (Value.Mirrored M) := by
  match cs, cs', hcs with
  | [], [], .nil => exact holds_misshapen
  | [_], [_], .cons _ .nil => exact holds_misshapen
  | _ :: _ :: _ :: _, _, .cons _ (.cons _ (.cons _ _)) => exact holds_misshapen
  | [name, attr], [name', attr'], .cons hx (.cons ha .nil) =>
    unfold getAttr
    refine (hM.holds_expectIdent ha).bind fun a _ ha => ?_
    subst ha
    refine (hM.holds_expectIdent hx).bind fun x _ hx => ?_
    subst hx
    refine (hM.holds_lookup? e x).bind fun o o' ho => ?_
    cases ho with
    | none => exact hM.holds_raise ⟨rfl, fun _ => rfl⟩
    | some hv =>
        cases hv with
        | object h =>
            have hrel := Bindings.rel_get? hM.injective h a
            dsimp only
            generalize Bindings.get? _ a = o at hrel
            generalize Bindings.get? _ (M.name a) = o' at hrel
            cases hrel with
            | some hv => exact holds_pure hv
            | none => exact hM.holds_raise ⟨rfl, fun h => by rw [hM.spelled h]⟩
        | _ => exact hM.holds_raise ⟨rfl, fun _ => rfl⟩

theorem holds_impl (hM : M.Lawful) (e : LayerId) {cs cs' : List Node} {p p' : Option Pos}
    (hn : (Node.tree .impl cs p).Mirrored M (.tree .impl cs' p')) :
    M.Holds (impl e cs) (impl e cs') (Value.Mirrored M) := by
  match cs, cs', hM.forall₂_children hn.node, hn with
  | [], [], .nil, _ => exact holds_misshapen
  | [_], [_], .cons _ .nil, _ => exact holds_misshapen
  | [_, _], [_, _], .cons _ (.cons _ .nil), _ => exact holds_misshapen
  | [_, _, _], [_, _, _], .cons _ (.cons _ (.cons _ .nil)), _ => exact holds_misshapen
  | _ :: _ :: _ :: _ :: _ :: _, _, .cons _ (.cons _ (.cons _ (.cons _ (.cons _ _)))), _ =>
    exact holds_misshapen
  | [struct, method, params, body], [struct', method', params', body'],
      .cons hs (.cons hm (.cons hp (.cons hb .nil))), hn =>
    have hb : body.Mirrored M body' := ⟨hb, fun h => by cases hn.shape h; assumption⟩
    unfold impl
    refine (hM.holds_expectIdent hs).bind fun x _ hx => ?_
    subst hx
    refine (holds_lookupStruct hM e x).bind fun r r' hr => ?_
    refine (hM.holds_expectIdent hm).bind fun m _ hm => ?_
    subst hm
    refine (hM.holds_identList hp).bind fun ps _ hps => ?_
    refine Holds.bind (Q := fun _ _ => True) ?_ fun _ _ _ => ?_
    · exact holds_update fun s t hst => hst.putMethod hM hr m ⟨rfl, hps, hb, rfl⟩
    · exact (holds_record _ _).bind fun _ _ _ => holds_pure .nothing

section Handlers

variable (hM : M.Lawful) {ev ev' : Evaluator} (hev : M.Sound ev ev') (e : LayerId)

include hM hev

/-! ## Variables -/

theorem holds_assign {cs cs' : List Node} {p p' : Option Pos}
    (hn : (Node.tree .assign cs p).Mirrored M (.tree .assign cs' p')) :
    M.Holds (assign ev e cs) (assign ev' e cs') (Value.Mirrored M) := by
  match cs, cs', hM.forall₂_children hn.node, hn with
  | [], [], .nil, _ => exact holds_misshapen
  | [_], [_], .cons _ .nil, _ => exact holds_misshapen
  | _ :: _ :: _ :: _, _, .cons _ (.cons _ (.cons _ _)), _ => exact holds_misshapen
  | [name, value], [name', value'], .cons hx (.cons hv .nil), hn =>
    have hv : value.Mirrored M value' := ⟨hv, fun h => by cases hn.shape h; assumption⟩
    unfold assign
    refine (hM.holds_expectIdent hx).bind fun x _ hx => ?_
    subst hx
    refine (hev value value' e hv).bind fun v v' hv => ?_
    refine (hM.holds_bound e x).bind fun b _ hb => ?_
    subst hb
    split
    · exact hM.holds_raise ⟨rfl, fun h => by rw [hM.spelled h]⟩
    · exact (hM.holds_bindName e x hv).bind fun _ _ _ => holds_pure .nothing

theorem holds_setVar {cs cs' : List Node} {p p' : Option Pos}
    (hn : (Node.tree .setVar cs p).Mirrored M (.tree .setVar cs' p')) :
    M.Holds (setVar ev e cs) (setVar ev' e cs') (Value.Mirrored M) := by
  match cs, cs', hM.forall₂_children hn.node, hn with
  | [], [], .nil, _ => exact holds_misshapen
  | [_], [_], .cons _ .nil, _ => exact holds_misshapen
  | _ :: _ :: _ :: _, _, .cons _ (.cons _ (.cons _ _)), _ => exact holds_misshapen
  | [name, value], [name', value'], .cons hx (.cons hv .nil), hn =>
    have hv : value.Mirrored M value' := ⟨hv, fun h => by cases hn.shape h; assumption⟩
    unfold setVar
    refine (hM.holds_expectIdent hx).bind fun x _ hx => ?_
    subst hx
    refine (hM.holds_lookup? e x).bind fun o o' ho => ?_
    cases ho with
    | none => exact hM.holds_notFound x
    | some _ =>
        refine (hev value value' e hv).bind fun v v' hv => ?_
        exact (hM.holds_setName e x hv).bind fun _ _ _ => holds_pure .nothing

theorem holds_inPlace {cs cs' : List Node} {p p' : Option Pos}
    (hn : (Node.tree .inPlace cs p).Mirrored M (.tree .inPlace cs' p')) :
    M.Holds (inPlace ev e cs) (inPlace ev' e cs') (Value.Mirrored M) := by
  match cs, cs', hM.forall₂_children hn.node, hn with
  | [], [], .nil, _ => exact holds_misshapen
  | [_], [_], .cons _ .nil, _ => exact holds_misshapen
  | [_, _], [_, _], .cons _ (.cons _ .nil), _ => exact holds_misshapen
  | _ :: _ :: _ :: _ :: _, _, .cons _ (.cons _ (.cons _ (.cons _ _))), _ => exact holds_misshapen
  | [name, op, value], [name', op', value'], .cons hx (.cons _ (.cons hv .nil)), hn =>
    have hv : value.Mirrored M value' := ⟨hv, fun h => by cases hn.shape h; assumption⟩
    unfold inPlace
    dsimp only
    rw [hM.operator (.inr rfl) hn]
    refine (hM.holds_expectIdent hx).bind fun x _ hx => ?_
    subst hx
    cases Arith.ofInPlace? op.operatorText with
    | none => exact hM.holds_raise ⟨rfl, fun _ => rfl⟩
    | some op =>
        refine (hev value value' e hv).bind fun v v' hv => ?_
        have hother := hv
        cases hv with
        | number b =>
            refine (hM.holds_lookup? e x).bind fun o o' ho => ?_
            cases ho with
            | none => exact hM.holds_notFound x
            | some hu =>
                have hother := hu
                cases hu with
                | number a =>
                    exact (hM.holds_setName e x (.number _)).bind fun _ _ _ => holds_pure .nothing
                | _ => exact hM.holds_mismatch _ hother
        | _ => exact hM.holds_mismatch _ hother

theorem holds_binop {cs cs' : List Node} {p p' : Option Pos}
    (hn : (Node.tree .binop cs p).Mirrored M (.tree .binop cs' p')) :
    M.Holds (binop ev e cs) (binop ev' e cs') (Value.Mirrored M) := by
  match cs, cs', hM.forall₂_children hn.node, hn with
  | [], [], .nil, _ => exact holds_misshapen
  | [_], [_], .cons _ .nil, _ => exact holds_misshapen
  | [_, _], [_, _], .cons _ (.cons _ .nil), _ => exact holds_misshapen
  | _ :: _ :: _ :: _ :: _, _, .cons _ (.cons _ (.cons _ (.cons _ _))), _ => exact holds_misshapen
  | [left, op, right], [left', op', right'], .cons hl (.cons _ (.cons hr .nil)), hn =>
    have hl : left.Mirrored M left' := ⟨hl, fun h => by cases hn.shape h; assumption⟩
    have hr : right.Mirrored M right' := ⟨hr, fun h => by cases hn.shape h; assumption⟩
    unfold binop
    dsimp only
    rw [hM.operator (.inl rfl) hn]
    refine (hev left left' e hl).bind fun a a' ha => ?_
    refine (hev right right' e hr).bind fun b b' hb => ?_
    have happly := hM.applyOperator op.operatorText ha hb
    generalize applyOperator op.operatorText a b = r at happly
    generalize applyOperator op.operatorText a' b' = r' at happly
    cases happly with
    | ok h => exact holds_pure h
    | error h => exact holds_fail h

/-! ## Blocks, conditionals and loops -/

omit hM in
theorem holds_block {body body' : List Node} (hb : List.Forall₂ (Node.Mirrored M) body body') :
    ∀ {result result' : Value}, result.Mirrored M result' →
      M.Holds (block ev e result body) (block ev' e result' body') (Value.Mirrored M) := by
  induction hb with
  | nil => exact fun hr => holds_pure hr
  | cons hn _ ih =>
      intro result result' _
      unfold block
      exact (hev _ _ e hn).bind fun v v' hv => ih hv

theorem holds_condition {n n' : Node} (hn : n.Mirrored M n') :
    M.Holds (condition ev e n) (condition ev' e n') fun b b' => b' = b := by
  unfold condition
  refine (hev n n' e hn).bind fun v v' hv => ?_
  have hother := hv
  cases hv with
  | bool b => exact holds_pure rfl
  | _ => exact hM.holds_mismatch _ hother

theorem holds_conditional {cs cs' : List Node} (hcs : List.Forall₂ (Node.Mirrored M) cs cs') :
    M.Holds (conditional ev e cs) (conditional ev' e cs') (Value.Mirrored M) := by
  match cs, cs', hcs with
  | [], [], .nil => exact holds_misshapen
  | [_], [_], .cons _ .nil => exact holds_misshapen
  | cond :: yes :: rest, cond' :: yes' :: rest', .cons hc (.cons hy hrest) =>
    unfold conditional
    refine (holds_condition hM hev e hc).bind fun b _ hb => ?_
    subst hb
    split
    · exact hev yes yes' e hy
    · cases hrest with
      | nil => exact holds_pure .nothing
      | cons hno _ => exact hev _ _ e hno

omit hM hev in
theorem holds_turns {cond cond' : Eval Bool} {body body' : Eval Value} {Q : Value → Value → Prop}
    (hc : M.Holds cond cond' fun b b' => b' = b) (hb : M.Holds body body' Q) :
    ∀ n, M.Holds (turns cond body n) (turns cond' body' n) (Value.Mirrored M)
  | 0 => holds_fail (.host nofun)
  | n + 1 => by
      unfold turns
      refine hc.bind fun b _ hb' => ?_
      subst hb'
      split
      · exact hb.bind fun _ _ _ => holds_turns hc hb n
      · exact holds_pure .nothing

theorem holds_whileLoop {limit : Nat} {cs cs' : List Node} {p p' : Option Pos}
    (hn : (Node.tree .whileLoop cs p).Mirrored M (.tree .whileLoop cs' p')) :
    M.Holds (whileLoop limit ev e cs) (whileLoop limit ev' e cs') (Value.Mirrored M) := by
  match cs, cs', hM.forall₂_children hn.node, hn with
  | [], [], .nil, _ => exact holds_misshapen
  | [_], [_], .cons _ .nil, _ => exact holds_misshapen
  | _ :: _ :: _ :: _, _, .cons _ (.cons _ (.cons _ _)), _ => exact holds_misshapen
  | [cond, body], [cond', body'], .cons hc (.cons hb .nil), hn =>
    have hc : cond.Mirrored M cond' := ⟨hc, fun h => by cases hn.shape h; assumption⟩
    have hb : body.Mirrored M body' := ⟨hb, fun h => by cases hn.shape h; assumption⟩
    unfold whileLoop
    refine (holds_configOf e).bind fun _ c hc' => ?_
    subst hc'
    refine holds_turns ?_ (hev body body' e hb) limit
    unfold loopCondition
    refine (hev cond cond' e hc).bind fun v v' hv => ?_
    have hother : M.Holds (if c.strictWhile then Eval.mismatch "bool" v else pure false)
        (if c.strictWhile then Eval.mismatch "bool" v' else pure false) fun b b' => b' = b := by
      split
      · exact hM.holds_mismatch _ hv
      · exact holds_pure rfl
    cases hv with
    | bool b => exact holds_pure rfl
    | _ => exact hother

omit hM hev in
theorem holds_overItems {turn turn' : Value → Eval Value} {items items' : List Value}
    (hitems : List.Forall₂ (Value.Mirrored M) items items')
    (ht : ∀ v v', v.Mirrored M v' → M.Holds (turn v) (turn' v') (Value.Mirrored M)) :
    ∀ {last last' : Value}, last.Mirrored M last' →
      M.Holds (overItems turn last items) (overItems turn' last' items') (Value.Mirrored M) := by
  induction hitems with
  | nil => exact fun hl => holds_pure hl
  | cons hv _ ih =>
      intro last last' _
      unfold overItems
      exact (ht _ _ hv).bind fun r r' hr => ih hr

omit hM hev in
theorem holds_overRange {turn turn' : Int → Eval Value}
    (ht : ∀ i, M.Holds (turn i) (turn' i) (Value.Mirrored M)) :
    ∀ (count : Nat) (i : Int) {last last' : Value}, last.Mirrored M last' →
      M.Holds (overRange turn last count i) (overRange turn' last' count i) (Value.Mirrored M)
  | 0, _, _, _, hl => holds_pure hl
  | n + 1, i, _, _, _ => by
      unfold overRange
      exact (ht i).bind fun r r' hr => holds_overRange ht n (i + 1) hr

theorem holds_forLoop {cs cs' : List Node} {p p' : Option Pos}
    (hn : (Node.tree .forLoop cs p).Mirrored M (.tree .forLoop cs' p')) :
    M.Holds (forLoop ev e cs) (forLoop ev' e cs') (Value.Mirrored M) := by
  match cs, cs', hM.forall₂_children hn.node, hn with
  | [], [], .nil, _ => exact holds_misshapen
  | [_], [_], .cons _ .nil, _ => exact holds_misshapen
  | [_, _], [_, _], .cons _ (.cons _ .nil), _ => exact holds_misshapen
  | _ :: _ :: _ :: _ :: _, _, .cons _ (.cons _ (.cons _ (.cons _ _))), _ => exact holds_misshapen
  | [target, iterable, body], [target', iterable', body'],
      .cons hx (.cons hi (.cons hb .nil)), hn =>
    have hi : iterable.Mirrored M iterable' := ⟨hi, fun h => by cases hn.shape h; assumption⟩
    have hb : body.Mirrored M body' := ⟨hb, fun h => by cases hn.shape h; assumption⟩
    unfold forLoop
    refine (hM.holds_expectIdent hx).bind fun x _ hx => ?_
    subst hx
    have hturn : ∀ v v', v.Mirrored M v' →
        M.Holds (bindName e x v >>= fun _ => ev body e)
          (bindName e (M.name x) v' >>= fun _ => ev' body' e) (Value.Mirrored M) :=
      fun v v' hv => (hM.holds_bindName e x hv).bind fun _ _ _ => hev body body' e hb
    refine (hev iterable iterable' e hi).bind fun v v' hv => ?_
    have hother := hv
    cases hv with
    | list h => exact holds_overItems h hturn .nothing
    | range start stop =>
        refine holds_overRange (fun i => ?_) _ _ .nothing
        unfold wholeTurn
        cases Number.ofInt? i with
        | some x => exact hturn _ _ (.number x)
        | none => exact holds_fail (.host nofun)
    | _ => exact hM.holds_mismatch _ hother

/-! ## Calls -/

theorem holds_callBuiltin (b : Builtin) {args args' : List Node}
    (ha : List.Forall₂ (Node.Mirrored M) args args') :
    M.Holds (callBuiltin ev e b args) (callBuiltin ev' e b args') (Value.Mirrored M) := by
  unfold callBuiltin
  refine (holds_each (Q := Value.Mirrored M) (ha.imp fun n n' hn => ?_)).bind
    fun vs vs' hvs => holds_runBuiltin hM b hvs
  unfold argument
  refine (holds_attempt (hev n n' e hn)).bind fun r r' hr => ?_
  cases hr with
  | ok hv => exact holds_pure hv
  | error _ => exact (holds_record _ _).bind fun _ _ _ => holds_pure .nothing

omit hM hev in
/-- Parameters and what they are bound to. -/
theorem forall₂_zip_map {α : Type} {R : α → α → Prop} (name : String → String) :
    ∀ (xs : List String) {as bs : List α}, List.Forall₂ R as bs →
      List.Forall₂ (Entry name R) (xs.zip as) ((xs.map name).zip bs)
  | [], _, _, _ => .nil
  | _ :: _, _, _, .nil => .nil
  | _ :: xs, _, _, .cons h hs => .cons (.mk h) (forall₂_zip_map name xs hs)

theorem holds_callFunction {f f' : Function} (hf : f.Mirrored M f') {args args' : List Node}
    (ha : List.Forall₂ (Node.Mirrored M) args args') :
    M.Holds (callFunction ev e f args) (callFunction ev' e f' args') (Value.Mirrored M) := by
  unfold callFunction
  refine Holds.bind (Q := fun l l' => l' = l) ?_ fun l _ hl => by
    subst hl
    exact hev _ _ _ hf.body
  unfold enterFunction
  rw [hf.name, hf.params, List.length_map, ← ha.length_eq]
  split
  · exact hM.holds_raise ⟨rfl, fun h => by rw [hM.spelled h]⟩
  · refine (holds_calleeLayer e hf).bind fun callee _ hc => ?_
    subst hc
    refine (hM.holds_bindName _ f.name (.function hf)).bind fun _ _ _ => ?_
    have hzip := forall₂_zip_map M.name f.params ha
    refine (holds_forAll (hzip.imp fun q q' hq => ?_)).bind fun _ _ _ => ?_
    · obtain ⟨hn⟩ := hq
      exact (hev _ _ e hn).bind fun v v' hv => hM.holds_bindName _ _ hv
    · exact (holds_record _ _).bind fun _ _ _ => holds_pure rfl

theorem holds_call {cs cs' : List Node} {p p' : Option Pos}
    (hn : (Node.tree .call cs p).Mirrored M (.tree .call cs' p')) :
    M.Holds (call ev e cs) (call ev' e cs') (Value.Mirrored M) := by
  match cs, cs', hM.forall₂_children hn.node, hn with
  | [], [], .nil, _ => exact holds_misshapen
  | [_], [_], .cons _ .nil, _ => exact holds_misshapen
  | _ :: _ :: _ :: _, _, .cons _ (.cons _ (.cons _ _)), _ => exact holds_misshapen
  | [name, args], [name', args'], .cons hx (.cons ha .nil), hn =>
    have ha : List.Forall₂ (Node.Mirrored M) args.children args'.children :=
      forall₂_mirrored (hM.children ha) fun n hmem h => by
        cases hn.shape h with
        | call _ _ _ hargs => exact hargs n hmem
    unfold call
    refine (hM.holds_expectIdent hx).bind fun x _ hx => ?_
    subst hx
    refine (hM.holds_builtin? e x).bind fun b _ hb => ?_
    subst hb
    split
    · exact holds_callBuiltin hM hev e _ ha
    · refine (hM.holds_lookup? e x).bind fun o o' ho => ?_
      cases ho with
      | none => exact hM.holds_raise ⟨rfl, fun h => by rw [hM.spelled h]⟩
      | some hv =>
          have hother := hv
          cases hv with
          | function hf => exact holds_callFunction hM hev e hf ha
          | _ => exact hM.holds_mismatch _ hother

/-! ## Methods -/

omit hev in
theorem holds_resolveMethod (receiver method : String) :
    M.Holds (resolveMethod e receiver method)
      (resolveMethod e (M.name receiver) (M.name method)) (MethodTarget.Mirrored M) := by
  have hmismatch : M.Holds (Eval.raise (.typeMismatch "struct" "unknown"))
      (Eval.raise (.typeMismatch "struct" "unknown")) (MethodTarget.Mirrored M) :=
    hM.holds_raise ⟨rfl, fun _ => rfl⟩
  unfold resolveMethod
  refine (hM.holds_lookup? e receiver).bind fun o o' ho => ?_
  cases ho with
  | none => exact hmismatch
  | some hv =>
      cases hv with
      | object hfields =>
          refine (hM.holds_lookup? e _).bind fun o o' ho => ?_
          cases ho with
          | none => exact hmismatch
          | some hr =>
              cases hr with
              | struct hr =>
                  refine (holds_view fun s t hst => hst.method? hM hr method).bind
                    fun o o' ho => ?_
                  cases ho with
                  | none => exact hM.holds_raise ⟨rfl, fun h => by rw [hM.spelled h]⟩
                  | some hf => exact holds_pure ⟨.object hfields, hr, hf⟩
              | _ => exact hmismatch
      | _ => exact hmismatch

theorem holds_runMethod {t t' : MethodTarget} (ht : t.Mirrored M t') (binding : MethodArgs)
    (names : List String) {args args' : List Node}
    (ha : List.Forall₂ (Node.Mirrored M) args args') :
    M.Holds (runMethod ev e t binding names args)
      (runMethod ev' e t' binding (names.map M.name) args') (Value.Mirrored M) := by
  unfold runMethod
  refine Holds.bind (Q := fun l l' => l' = l) ?_ fun l _ hl => by
    subst hl
    exact hev _ _ _ ht.method.body
  unfold enterMethod
  refine (holds_spawn e _).bind fun _ scratch hs => ?_
  subst hs
  refine (holds_each (ha.imp fun n n' hn => hev n n' _ hn)).bind fun vs vs' hvs => ?_
  refine (holds_calleeLayer e ht.method).bind fun _ callee hc => ?_
  subst hc
  have hself := hM.holds_bindName callee "self" ht.receiver
  rw [hM.receiver] at hself
  refine hself.bind fun _ _ _ => ?_
  refine (holds_forAll ((forall₂_zip_map M.name names hvs).imp fun q q' hq => ?_)).bind
    fun _ _ _ => ?_
  · obtain ⟨hv⟩ := hq
    exact hM.holds_bindName _ _ hv
  · exact (holds_record _ _).bind fun _ _ _ => holds_pure rfl

theorem holds_callMethod {t t' : MethodTarget} (ht : t.Mirrored M t') {args args' : List Node}
    (ha : List.Forall₂ (Node.Mirrored M) args args') :
    M.Holds (callMethod ev e t args) (callMethod ev' e t' args') (Value.Mirrored M) := by
  unfold callMethod
  refine (holds_configOf e).bind fun _ c hc => ?_
  subst hc
  split
  · rw [ht.struct.fields]
    exact holds_runMethod hM hev e ht _ _ ha
  · dsimp only
    rw [ht.method.params, List.length_map, ← ha.length_eq]
    split
    · exact hM.holds_raise ⟨rfl, fun h => by
        rw [ht.struct.name, ht.method.name, hM.spelled h, hM.spelled h]⟩
    · exact holds_runMethod hM hev e ht _ _ (List.forall₂_take _ ha)

theorem holds_getFunc {cs cs' : List Node} {p p' : Option Pos}
    (hn : (Node.tree .getFunc cs p).Mirrored M (.tree .getFunc cs' p')) :
    M.Holds (getFunc ev e cs) (getFunc ev' e cs') (Value.Mirrored M) := by
  match cs, cs', hM.forall₂_children hn.node, hn with
  | [], [], .nil, _ => exact holds_misshapen
  | [_], [_], .cons _ .nil, _ => exact holds_misshapen
  | [_, _], [_, _], .cons _ (.cons _ .nil), _ => exact holds_misshapen
  | _ :: _ :: _ :: _ :: _, _, .cons _ (.cons _ (.cons _ (.cons _ _))), _ => exact holds_misshapen
  | [receiver, method, args], [receiver', method', args'],
      .cons hx (.cons hm (.cons ha .nil)), hn =>
    have ha : List.Forall₂ (Node.Mirrored M) args.children args'.children :=
      forall₂_mirrored (hM.children ha) fun n hmem h => by
        cases hn.shape h with
        | getFunc _ _ _ _ hargs => exact hargs n hmem
    unfold getFunc
    refine (hM.holds_expectIdent hx).bind fun x _ hx => ?_
    subst hx
    refine (hM.holds_expectIdent hm).bind fun m _ hm => ?_
    subst hm
    refine (holds_resolveMethod hM e x m).bind fun t t' ht => ?_
    exact holds_callMethod hM hev e ht ha

/-! ## Structs -/

theorem holds_pair {n n' : Node} (hn : M.node n n') (hs : M.shaped → n.IsPair) :
    M.Holds (pair ev e n) (pair ev' e n') (Entry M.name (Value.Mirrored M)) := by
  unfold pair
  rw [hM.label? hn]
  split
  · have hcs := hM.children hn
    generalize hc : n.children = cs at hcs
    generalize n'.children = cs' at hcs
    match cs, cs', hcs, hc with
    | [], [], .nil, _ => exact holds_misshapen
    | [_], [_], .cons _ .nil, _ => exact holds_misshapen
    | _ :: _ :: _ :: _, _, .cons _ (.cons _ (.cons _ _)), _ => exact holds_misshapen
    | [key, value], [key', value'], .cons hk (.cons hv .nil), hc =>
      have hv : value.Mirrored M value' := ⟨hv, fun h => by
        cases hs h
        cases hc
        assumption⟩
      refine (hM.holds_expectIdent hk).bind fun k _ hk => ?_
      subst hk
      exact (hev value value' e hv).bind fun v v' hv => holds_pure (.mk hv)
  · exact hM.holds_raise ⟨rfl, fun _ => rfl⟩

theorem holds_slots (declared : List String) {pairs pairs' : List Node}
    (hp : List.Forall₂ M.node pairs pairs') (hs : ∀ n ∈ pairs, M.shaped → n.IsPair) :
    ∀ {filled filled' : Bindings Value},
      List.Forall₂ (Entry M.name (Value.Mirrored M)) filled filled' →
      M.Holds (slots ev e declared filled pairs)
        (slots ev' e (declared.map M.name) filled' pairs')
        (List.Forall₂ (Entry M.name (Value.Mirrored M))) := by
  induction hp with
  | nil => exact fun hf => holds_pure hf
  | cons hn _ ih =>
      intro filled filled' hf
      obtain ⟨hpair, hs⟩ := List.forall_mem_cons.mp hs
      unfold slots
      refine (holds_pair hM hev e hn hpair).bind fun q q' hq => ?_
      obtain ⟨hv⟩ := hq
      refine ih hs ?_
      simp only [List.mem_map_of_injective hM.injective]
      split
      · exact Bindings.forall₂_put hM.injective hf _ hv
      · exact hf

theorem holds_callStruct {cs cs' : List Node} {p p' : Option Pos}
    (hn : (Node.tree .callStruct cs p).Mirrored M (.tree .callStruct cs' p')) :
    M.Holds (callStruct ev e cs) (callStruct ev' e cs') (Value.Mirrored M) := by
  match cs, cs', hM.forall₂_children hn.node, hn with
  | [], [], .nil, _ => exact holds_misshapen
  | name :: pairs, name' :: pairs', .cons hx hp, hn =>
    have hs : ∀ n ∈ pairs, M.shaped → n.IsPair := fun n hmem h => by
      cases hn.shape h with
      | callStruct _ _ hp => exact hp n hmem
    unfold callStruct
    refine (hM.holds_expectIdent hx).bind fun x _ hx => ?_
    subst hx
    refine (holds_lookupStruct hM e x).bind fun r r' hr => ?_
    rw [hr.fields]
    exact (holds_slots hM hev e r.fields hp hs .nil).bind fun fs fs' hfs => holds_pure (.object hfs)

/-! ## Lists and ranges -/

omit hM in
theorem holds_list {items items' : List Node} (h : List.Forall₂ (Node.Mirrored M) items items') :
    M.Holds (list ev e items) (list ev' e items') (Value.Mirrored M) := by
  unfold list
  exact (holds_each (h.imp fun n n' hn => hev n n' e hn)).bind fun vs vs' hvs =>
    holds_pure (.list hvs)

theorem holds_range {cs cs' : List Node} {p p' : Option Pos}
    (hn : (Node.tree .range cs p).Mirrored M (.tree .range cs' p')) :
    M.Holds (range ev e cs) (range ev' e cs') (Value.Mirrored M) := by
  match cs, cs', hM.forall₂_children hn.node, hn with
  | [], [], .nil, _ => exact holds_misshapen
  | [_], [_], .cons _ .nil, _ => exact holds_misshapen
  | _ :: _ :: _ :: _, _, .cons _ (.cons _ (.cons _ _)), _ => exact holds_misshapen
  | [start, stop], [start', stop'], .cons ha (.cons hb .nil), hn =>
    have ha : start.Mirrored M start' := ⟨ha, fun h => by cases hn.shape h; assumption⟩
    have hb : stop.Mirrored M stop' := ⟨hb, fun h => by cases hn.shape h; assumption⟩
    unfold range
    refine (hev start start' e ha).bind fun a a' ha => ?_
    refine (hev stop stop' e hb).bind fun b b' hb => ?_
    have hleft := ha
    have hright := hb
    cases ha with
    | number x =>
        cases hb with
        | number y => exact holds_pure (.range _ _)
        | _ => exact hM.holds_mismatch _ hright
    | _ => exact hM.holds_mismatch _ hleft

theorem holds_index {cs cs' : List Node} {p p' : Option Pos}
    (hn : (Node.tree .index cs p).Mirrored M (.tree .index cs' p')) :
    M.Holds (index ev e cs) (index ev' e cs') (Value.Mirrored M) := by
  match cs, cs', hM.forall₂_children hn.node, hn with
  | [], [], .nil, _ => exact holds_misshapen
  | [_], [_], .cons _ .nil, _ => exact holds_misshapen
  | _ :: _ :: _ :: _, _, .cons _ (.cons _ (.cons _ _)), _ => exact holds_misshapen
  | [target, idx], [target', idx'], .cons hx (.cons hi .nil), hn =>
    have hi : idx.Mirrored M idx' := ⟨hi, fun h => by cases hn.shape h; assumption⟩
    unfold index
    refine (hM.holds_expectIdent hx).bind fun x _ hx => ?_
    subst hx
    refine (hM.holds_lookup? e x).bind fun o o' ho => ?_
    cases ho with
    | none => exact hM.holds_notFound x
    | some hv =>
        have hother := hv
        cases hv with
        | list hitems =>
            refine (hev idx idx' e hi).bind fun i i' hi => ?_
            have hother := hi
            cases hi with
            | number i => exact holds_itemAt hM x hitems i
            | range start stop => exact holds_slice hM x hitems start stop
            | _ => exact hM.holds_mismatch _ hother
        | _ => exact hM.holds_mismatch _ hother

/-! ## Match -/

omit hev in
theorem holds_arm {n n' : Node} (hn : M.node n n') (hs : M.shaped → n.IsArm) :
    M.Holds (arm n) (arm n') M.Arm := by
  unfold arm
  rw [hM.label? hn]
  split
  · have hcs := hM.children hn
    generalize hc : n.children = cs at hcs
    generalize n'.children = cs' at hcs
    match cs, cs', hcs, hc with
    | [], [], .nil, _ => exact holds_misshapen
    | [_], [_], .cons _ .nil, _ => exact holds_misshapen
    | _ :: _ :: _ :: _, _, .cons _ (.cons _ (.cons _ _)), _ => exact holds_misshapen
    | [pattern, body], [pattern', body'], .cons hp (.cons hb .nil), hc =>
      have hshapes : M.shaped → pattern.WellShaped ∧ body.WellShaped := fun h => by
        cases hs h
        cases hc
        exact ⟨by assumption, by assumption⟩
      exact holds_pure ⟨⟨hp, fun h => (hshapes h).1⟩, ⟨hb, fun h => (hshapes h).2⟩⟩
  · exact hM.holds_raise ⟨rfl, fun hv => by rw [hM.inspect hv hn]⟩

omit hM in
theorem holds_allArms {subject subject' : Node} (hs : subject.Mirrored M subject')
    {arms arms' : List (Node × Node)} (harms : List.Forall₂ M.Arm arms arms') :
    ∀ {result result' : Value}, result.Mirrored M result' →
      M.Holds (allArms ev e subject result arms) (allArms ev' e subject' result' arms')
        (Value.Mirrored M) := by
  induction harms with
  | nil => exact fun hr => holds_pure hr
  | @cons a a' rest rest' ha _ ih =>
      intro result result' _
      obtain ⟨pattern, body⟩ := a
      obtain ⟨pattern', body'⟩ := a'
      -- An error in the pattern is dropped, and the arm goes on as it does without one.
      have hrest : M.Holds
          (do
            let _ ← ev subject e
            let value ← ev body (← Eval.armLayer e)
            allArms ev e subject value rest)
          (do
            let _ ← ev' subject' e
            let value ← ev' body' (← Eval.armLayer e)
            allArms ev' e subject' value rest') (Value.Mirrored M) := by
        refine (hev subject subject' e hs).bind fun _ _ _ => ?_
        refine (holds_armLayer e).bind fun _ l hl => ?_
        subst hl
        exact (hev body body' _ ha.body).bind fun v v' hv => ih hv
      unfold allArms
      refine (holds_attempt (hev pattern pattern' e ha.pattern)).bind fun r r' hr => ?_
      cases hr with
      | ok _ => exact hrest
      | error _ => exact (holds_record _ _).bind fun _ _ _ => hrest

theorem holds_takes {v v' : Value} (hv : v.Mirrored M v') {n n' : Node} (hn : n.Mirrored M n') :
    M.Holds (takes ev e v n) (takes ev' e v' n') fun b b' => b' = b := by
  have hwildcard : n'.identName? = some "_" ↔ n.identName? = some "_" := by
    rw [hM.identName? hn.node, Option.map_eq_some_iff]
    constructor
    · rintro ⟨x, hx, hname⟩
      rw [hx, hM.injective (hname.trans hM.wildcard.symm)]
    · exact fun hx => ⟨"_", hx, hM.wildcard⟩
  unfold takes
  simp only [hwildcard]
  split
  · exact holds_pure rfl
  · refine (hev n n' e hn).bind fun u u' hu => ?_
    exact holds_pure (Lawful.matching hv hu)

theorem holds_firstArm {v v' : Value} (hv : v.Mirrored M v') {arms arms' : List (Node × Node)}
    (harms : List.Forall₂ M.Arm arms arms') : ∀ i : Nat,
      M.Holds (firstArm ev e v i arms) (firstArm ev' e v' i arms') (Value.Mirrored M) := by
  induction harms with
  | nil => exact fun _ => holds_pure .nothing
  | @cons a a' _ _ ha _ ih =>
      intro i
      obtain ⟨pattern, body⟩ := a
      obtain ⟨pattern', body'⟩ := a'
      unfold firstArm
      refine (holds_takes hM hev e hv ha.pattern).bind fun _ b hb => ?_
      subst hb
      split
      · refine (holds_record _ _).bind fun _ _ _ => ?_
        refine (holds_armLayer e).bind fun _ l hl => ?_
        subst hl
        exact hev body body' _ ha.body
      · exact ih (i + 1)

theorem holds_matching {cs cs' : List Node} {p p' : Option Pos}
    (hn : (Node.tree .matching cs p).Mirrored M (.tree .matching cs' p')) :
    M.Holds (Eval.matching ev e cs) (Eval.matching ev' e cs') (Value.Mirrored M) := by
  match cs, cs', hM.forall₂_children hn.node, hn with
  | [], [], .nil, _ => exact holds_misshapen
  | subject :: cases, subject' :: cases', .cons hs hcases, hn =>
    have hs : subject.Mirrored M subject' := ⟨hs, fun h => by cases hn.shape h; assumption⟩
    have hshapes : ∀ n ∈ cases, M.shaped → n.IsArm := fun n hmem h => by
      cases hn.shape h with
      | matching _ _ ha => exact ha n hmem
    have harms : List.Forall₂ (fun n n' => M.Holds (arm n) (arm n') M.Arm) cases cases' := by
      clear hn
      induction hcases with
      | nil => exact .nil
      | cons hn _ ih =>
          obtain ⟨hfirst, hshapes⟩ := List.forall_mem_cons.mp hshapes
          exact .cons (holds_arm hM hn hfirst) (ih hshapes)
    unfold Eval.matching
    refine (holds_each harms).bind fun arms arms' harms => ?_
    refine (holds_configOf e).bind fun _ c hc => ?_
    subst hc
    split
    · exact (hev subject subject' e hs).bind fun v v' hv => holds_firstArm hM hev e hv harms 0
    · refine (holds_record _ _).bind fun _ _ _ => ?_
      exact holds_allArms hev e hs harms .nothing

/-! ## All nodes -/

theorem holds_tree (limit : Nat) {label : Label} {cs cs' : List Node} {p p' : Option Pos}
    (hn : (Node.tree label cs p).Mirrored M (.tree label cs' p')) :
    M.Holds (Eval.tree limit ev label cs e) (Eval.tree limit ev' label cs' e)
      (Value.Mirrored M) := by
  have hcs := hM.forall₂_children hn.node
  have hall : (∀ n ∈ cs, M.shaped → n.WellShaped) → List.Forall₂ (Node.Mirrored M) cs cs' :=
    forall₂_mirrored hcs
  unfold Eval.tree
  split
  · exact holds_pure .nothing
  · refine holds_block hev e (hall fun n hmem h => ?_) .nothing
    cases hn.shape h with
    | block _ hbody => exact hbody n hmem
  · exact holds_binop hM hev e hn
  · refine holds_conditional hM hev e (hall fun n hmem h => ?_)
    cases hn.shape h with
    | ifThen _ hc hy =>
        simp only [List.mem_cons, List.not_mem_nil, or_false] at hmem
        rcases hmem with rfl | rfl <;> assumption
  · refine holds_conditional hM hev e (hall fun n hmem h => ?_)
    cases hn.shape h with
    | ifThenElse _ hc hy hno =>
        simp only [List.mem_cons, List.not_mem_nil, or_false] at hmem
        rcases hmem with rfl | rfl | rfl <;> assumption
  · exact holds_assign hM hev e hn
  · exact holds_setVar hM hev e hn
  · exact holds_inPlace hM hev e hn
  · exact holds_whileLoop hM hev e hn
  · exact holds_forLoop hM hev e hn
  · exact holds_funDef hM e hn
  · exact holds_call hM hev e hn
  · refine holds_list hev e (hall fun n hmem h => ?_)
    cases hn.shape h with
    | list _ hitems => exact hitems n hmem
  · exact holds_index hM hev e hn
  · exact holds_range hM hev e hn
  · exact holds_structDef hM e hcs
  · exact holds_callStruct hM hev e hn
  · exact holds_getAttr hM e hcs
  · exact holds_impl hM e hn
  · exact holds_getFunc hM hev e hn
  · exact holds_matching hM hev e hn
  · exact hM.holds_raise ⟨rfl, fun _ => rfl⟩

theorem holds_step (limit : Nat) {n n' : Node} (hn : n.Mirrored M n') :
    M.Holds (step limit ev n e) (step limit ev' n' e) (Value.Mirrored M) := by
  cases n with
  | token kind text p =>
      obtain ⟨p', rfl⟩ := hM.token hn.node
      exact holds_token hM e
  | tree label cs p =>
      obtain ⟨cs', p', rfl, -⟩ := hM.tree hn.node
      exact holds_tree hM hev e limit hn
  | stray d =>
      obtain rfl := hM.stray hn.node
      exact hM.holds_raise ⟨rfl, fun _ => rfl⟩

end Handlers

/-- However deep evaluation may nest, mirrored trees are evaluated in lockstep. -/
theorem Lawful.sound (hM : M.Lawful) (limit : Nat) :
    ∀ depth, M.Sound (evalNoting M.note limit depth) (evalNoting M.note' limit depth)
  | 0 => fun _ _ _ _ => holds_fail (.host nofun)
  | depth + 1 => fun _ _ e hn =>
      holds_noted (holds_step hM (hM.sound limit depth) e limit hn) fun _ _ he => hM.left hn he

end Mirror

end Tern
