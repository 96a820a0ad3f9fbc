import Tern.Proofs.Trails
import Tern.Proofs.Watching

/-!
# How deep evaluation nests

A tree without `while`, without method calls and with calls of builtins only never has a body
entered that is not its own: a definition puts its body into the store, and only a call would take
it out again. So no node is evaluated but those inside the tree, each within its parent's
evaluation, and evaluation nests no deeper than the tree is high, whatever its loops run through.

That no limit plays a part is said of two evaluations at once: from every store in which a layer
has the builtins that are called they come to the same, and not by a limit (`Agrees`). A step does
so if the evaluators for the nodes inside do (`agrees_step`), and by induction over how deep
evaluation may nest so do all evaluations that may nest as deep as the tree is high, a watched one
included (`agrees_evalWatching`).
-/

namespace Tern

open Eval

/-! ## Heights -/

mutual

/-- How many nodes there are at most from a node down to one without children. -/
def Node.height : Node → Nat
  | .tree _ cs _ => heightAll cs + 1
  | _ => 1

def Node.heightAll : List Node → Nat
  | [] => 0
  | n :: rest => max n.height (heightAll rest)

end

namespace Node

theorem height_pos (n : Node) : 0 < n.height := by
  cases n <;> exact Nat.succ_pos _

theorem height_le_heightAll {c : Node} {cs : List Node} (h : c ∈ cs) :
    c.height ≤ heightAll cs := by
  induction cs with
  | nil => cases h
  | cons d rest ih =>
      rcases List.mem_cons.mp h with rfl | h
      · exact Nat.le_max_left ..
      · exact (ih h).trans (Nat.le_max_right ..)

theorem height_child_lt {c n : Node} (h : c ∈ n.children) : c.height < n.height := by
  cases n with
  | tree label cs pos => exact Nat.lt_succ_of_le (height_le_heightAll h)
  | token _ _ _ => cases h
  | stray _ => cases h

theorem mem_inside_of_child {m c n : Node} (hc : c ∈ n.children) (hm : m ∈ c.inside) :
    m ∈ n.inside := by
  cases n with
  | tree label cs pos => exact List.mem_cons_of_mem _ (mem_insideAll.mpr ⟨c, hc, hm⟩)
  | token _ _ _ => cases hc
  | stray _ => cases hc

end Node

/-! ## Trees that enter no body but their own -/

/-- A node that is no loop with a condition and no method call, and as a call goes to a builtin. -/
structure Node.Tame (builtin : String → Prop) (n : Node) : Prop where
  noWhile : n.label? ≠ some .whileLoop
  noMethodCall : n.label? ≠ some .getFunc
  call : n.label? = some .call → ∀ name ∈ n.children.head?.bind Node.identName?, builtin name

instance (builtin : String → Prop) [DecidablePred builtin] (n : Node) :
    Decidable (n.Tame builtin) :=
  decidable_of_iff (n.label? ≠ some .whileLoop ∧ n.label? ≠ some .getFunc ∧
      (n.label? = some .call → ∀ name ∈ n.children.head?.bind Node.identName?, builtin name))
    ⟨fun ⟨hw, hm, hc⟩ => ⟨hw, hm, hc⟩, fun h => ⟨h.noWhile, h.noMethodCall, h.call⟩⟩

/-- A tree of at most some height, and tame all through. -/
structure Node.Low (builtin : String → Prop) (height : Nat) (n : Node) : Prop where
  height : n.height ≤ height
  tame : ∀ m ∈ n.inside, m.Tame builtin

namespace Node.Low

variable {builtin : String → Prop} {height : Nat} {n : Node}

theorem child (h : n.Low builtin (height + 1)) {c : Node} (hc : c ∈ n.children) :
    c.Low builtin height :=
  ⟨Nat.le_of_lt_succ (Nat.lt_of_lt_of_le (height_child_lt hc) h.height),
    fun _ hm => h.tame _ (mem_inside_of_child hc hm)⟩

theorem succ (h : n.Low builtin height) : n.Low builtin (height + 1) :=
  ⟨Nat.le_succ_of_le h.height, h.tame⟩

theorem children (h : n.Low builtin height) : ∀ c ∈ n.children, c.Low builtin height :=
  fun _ hc => h.succ.child hc

end Node.Low

/-! ## The builtins of layers -/

/-- A layer is there and has builtins of all these names. -/
structure Store.Offers (s : Store) (builtin : String → Prop) (e : LayerId) : Prop where
  present : e < s.layers.size
  found : ∀ name, builtin name → (s.builtin? e name).isSome

/-- Layers that have the builtins still have them. -/
def Store.Keeps (s : Store) (builtin : String → Prop) (t : Store) : Prop :=
  ∀ l, s.Offers builtin l → t.Offers builtin l

namespace Store

variable {builtin : String → Prop} {s t : Store}

theorem builtin?_congr {e l : LayerId} (hregistry : (t.layer l).registry = (s.layer e).registry)
    (hregistries : t.registries = s.registries) (name : String) :
    t.builtin? l name = s.builtin? e name := by
  rw [builtin?, builtins, hregistry, hregistries]
  rfl

theorem keeps_of_layers (hlayers : t.layers = s.layers)
    (hregistries : t.registries = s.registries) : s.Keeps builtin t := by
  refine fun l h => ⟨hlayers ▸ h.present, fun name hname => ?_⟩
  rw [builtin?_congr (congrArg Layer.registry (layer_of_layers hlayers l)) hregistries]
  exact h.found name hname

theorem keeps_bind (s : Store) (e : LayerId) (name : String) (v : Value) :
    s.Keeps builtin (s.bind e name v) := by
  refine fun l h => ⟨by simpa using h.present, fun x hx => ?_⟩
  rw [builtin?_congr (s.registry_bind e name v l) rfl]
  exact h.found x hx

theorem keeps_spawn (s : Store) (e : LayerId) (p : Option LayerId) :
    s.Keeps builtin (s.spawn e p).1 := by
  refine fun l h => ⟨by simpa using Nat.lt_succ_of_lt h.present, fun x hx => ?_⟩
  have hlayer : (s.spawn e p).1.layer l = s.layer l := by
    rw [layer_spawn, if_neg (Nat.ne_of_lt h.present)]
  rw [builtin?_congr (congrArg Layer.registry hlayer) rfl]
  exact h.found x hx

/-- A new layer has the builtins of the one that it is made in. -/
theorem Offers.spawn {e : LayerId} (h : s.Offers builtin e) (p : Option LayerId) :
    (s.spawn e p).1.Offers builtin (s.spawn e p).2 := by
  refine ⟨by simp [Store.spawn, push], fun x hx => ?_⟩
  have hregistry : ((s.spawn e p).1.layer s.layers.size).registry = (s.layer e).registry := by
    rw [layer_spawn, if_pos rfl]
  exact (congrArg Option.isSome (builtin?_congr hregistry rfl x)).trans (h.found x hx)

end Store

/-! ## Two evaluations that agree -/

def Failure.isLimit : Failure → Bool
  | tooDeep | tooLong => true
  | _ => false

/-- An evaluation ends in a value like this, or in a failure that is not for a limit. -/
def Eval.Unlimited {α : Type} (Q : α → Prop) : Except Failure α → Prop
  | .ok a => Q a
  | .error f => f.isLimit = false

/-- From every store where the layer has the builtins, both evaluations come to the same, which no
limit has a part in, and layers keep their builtins. -/
def Agrees (builtin : String → Prop) (e : LayerId) {α : Type} (x y : Eval α) (Q : α → Prop) :
    Prop :=
  ∀ s, s.Offers builtin e →
    x s = y s ∧ Eval.Unlimited Q (x s).1 ∧ s.Keeps builtin (x s).2

namespace Agrees

variable {builtin : String → Prop} {e : LayerId} {α β : Type} {Q : α → Prop} {R : β → Prop}

theorem pure {a : α} (h : Q a) : Agrees builtin e (pure a) (pure a) Q :=
  fun _ _ => ⟨rfl, h, fun _ hl => hl⟩

theorem fail {f : Failure} (h : f.isLimit = false) : Agrees builtin e (fail f) (fail f) Q :=
  fun _ _ => ⟨rfl, h, fun _ hl => hl⟩

theorem raise (cause : Cause) : Agrees builtin e (raise cause) (raise cause) Q := fail rfl

theorem misshapen : Agrees builtin e (misshapen : Eval α) misshapen Q := fail rfl

theorem mono {Q' : α → Prop} {x y : Eval α} (h : Agrees builtin e x y Q)
    (hQ : ∀ a, Q a → Q' a) : Agrees builtin e x y Q' := by
  intro s hs
  obtain ⟨heq, hends, hkeeps⟩ := h s hs
  refine ⟨heq, ?_, hkeeps⟩
  cases hx : (x s).1 <;> rw [hx] at hends
  · exact hends
  · exact hQ _ hends

theorem bind {x y : Eval α} {f g : α → Eval β} (h : Agrees builtin e x y Q)
    (hf : ∀ a, Q a → Agrees builtin e (f a) (g a) R) :
    Agrees builtin e (x >>= f) (y >>= g) R := by
  intro s hs
  obtain ⟨heq, hends, hkeeps⟩ := h s hs
  rw [bind_apply, bind_apply, ← heq]
  rcases hx : x s with ⟨f' | a, s'⟩ <;> rw [hx] at hends hkeeps
  · exact ⟨rfl, hends, hkeeps⟩
  · obtain ⟨heq', hends', hkeeps'⟩ := hf a hends s' (hkeeps e hs)
    exact ⟨heq', hends', fun l hl => hkeeps' l (hkeeps l hl)⟩

theorem view (f : Store → α) :
    Agrees builtin e (Eval.view f) (Eval.view f) fun _ => True :=
  fun _ _ => ⟨rfl, trivial, fun _ hl => hl⟩

theorem update {f : Store → Store} (h : ∀ s : Store, s.Keeps builtin (f s)) :
    Agrees builtin e (Eval.update f) (Eval.update f) fun _ => True :=
  fun s _ => ⟨rfl, trivial, h s⟩

theorem attempt {x y : Eval α} (h : Agrees builtin e x y Q) :
    Agrees builtin e (attempt x) (attempt y) fun _ => True := by
  intro s hs
  obtain ⟨heq, hends, hkeeps⟩ := h s hs
  unfold Eval.attempt
  rw [← heq]
  rcases hx : x s with ⟨f | a, s'⟩ <;> rw [hx] at hends hkeeps
  · cases f with
    | raised err => exact ⟨rfl, trivial, hkeeps⟩
    | _ => exact ⟨rfl, hends, hkeeps⟩
  · exact ⟨rfl, trivial, hkeeps⟩

theorem located (n : Node) {x y : Eval α} (h : Agrees builtin e x y Q) :
    Agrees builtin e (located n x) (located n y) Q := by
  intro s hs
  obtain ⟨heq, hends, hkeeps⟩ := h s hs
  unfold Eval.located
  rw [← heq]
  rcases hx : x s with ⟨f | a, s'⟩ <;> rw [hx] at hends hkeeps
  · cases f with
    | raised err => exact ⟨rfl, rfl, hkeeps⟩
    | _ => exact ⟨rfl, hends, hkeeps⟩
  · exact ⟨rfl, hends, hkeeps⟩

/-! ### Operations -/

theorem bindName (l : LayerId) (name : String) (v : Value) :
    Agrees builtin e (Eval.bindName l name v) (Eval.bindName l name v) fun _ => True :=
  update fun s => s.keeps_bind l name v

theorem setName (l : LayerId) (name : String) (v : Value) :
    Agrees builtin e (Eval.setName l name v) (Eval.setName l name v) fun _ => True := by
  intro s hs
  refine ⟨rfl, ?_⟩
  unfold Eval.setName
  split
  · exact ⟨trivial, s.keeps_bind _ name v⟩
  · exact ⟨rfl, fun _ hl => hl⟩

theorem record (event : Event) :
    Agrees builtin e (Eval.record event) (Eval.record event) fun _ => True :=
  update fun _ => Store.keeps_of_layers rfl rfl

theorem write (text : String) :
    Agrees builtin e (Eval.write text) (Eval.write text) fun _ => True :=
  update fun _ => Store.keeps_of_layers rfl rfl

theorem addStruct (name : String) (fields : List String) :
    Agrees builtin e (create (·.addStruct name fields [])) (create (·.addStruct name fields []))
      fun _ => True :=
  fun _ _ => ⟨rfl, trivial, Store.keeps_of_layers rfl rfl⟩

theorem putMethod (r : StructRef) (name : String) (f : Function) :
    Agrees builtin e (Eval.update (·.putMethod r name f)) (Eval.update (·.putMethod r name f))
      fun _ => True :=
  update fun _ => Store.keeps_of_layers rfl rfl

theorem expectIdent (n : Node) : Agrees builtin e (Eval.expectIdent n) (Eval.expectIdent n)
    fun name => n.identName? = some name := by
  unfold Eval.expectIdent
  split
  · next h => exact pure h
  · exact raise _

theorem mismatch (expected : String) (v : Value) :
    Agrees builtin e (Eval.mismatch expected v : Eval α) (Eval.mismatch expected v) Q := raise _

/-- What is done in a new layer for an arm is done where the builtins are too. -/
theorem armLayer {f g : LayerId → Eval α} (h : ∀ l, Agrees builtin l (f l) (g l) Q) :
    Agrees builtin e (Eval.armLayer e >>= f) (Eval.armLayer e >>= g) Q := by
  intro s hs
  obtain ⟨p, -, hrun⟩ := Policy.exists_spawn_armLayer e s
  obtain ⟨heq, hends, hkeeps⟩ := h _ _ (hs.spawn p)
  rw [bind_apply, bind_apply, hrun]
  exact ⟨heq, hends, fun l hl => hkeeps l (s.keeps_spawn e p l hl)⟩

theorem each {γ : Type} {f g : γ → Eval β} : ∀ {as : List γ},
    (∀ a ∈ as, Agrees builtin e (f a) (g a) R) →
      Agrees builtin e (Eval.each f as) (Eval.each g as) fun bs => ∀ b ∈ bs, R b
  | [], _ => pure (List.forall_mem_nil _)
  | a :: rest, h => by
      unfold Eval.each
      refine (h a List.mem_cons_self).bind fun b hb => ?_
      refine (each fun c hc => h c (List.mem_cons_of_mem _ hc)).bind fun bs hbs => ?_
      exact pure (List.forall_mem_cons.mpr ⟨hb, hbs⟩)

theorem identList (n : Node) :
    Agrees builtin e (Eval.identList n) (Eval.identList n) fun _ => True :=
  (each fun c _ => (expectIdent c).mono fun _ _ => trivial).mono (Q := fun ns => ∀ n ∈ ns, True)
    fun _ _ => trivial

end Agrees

/-- Evaluators that agree on all low trees, in every layer. -/
def AgreeBelow (builtin : String → Prop) (height : Nat) (ev ev' : Evaluator) : Prop :=
  ∀ ⦃n⦄, n.Low builtin height → ∀ e, Agrees builtin e (ev n e) (ev' n e) fun _ => True

/-! ## The handlers -/

section Handlers

variable {builtin : String → Prop} {height : Nat} {ev ev' : Evaluator} {e : LayerId}

/-! ### Without nodes inside -/

theorem agrees_getName (name : String) :
    Agrees builtin e (getName e name) (getName e name) fun _ => True := by
  refine (Agrees.view _).bind fun o _ => ?_
  cases o with
  | none => exact .raise _
  | some v => exact .pure trivial

theorem agrees_token (kind : TokenKind) (text : String) :
    Agrees builtin e (token kind text e) (token kind text e) fun _ => True := by
  unfold token
  split
  · exact agrees_getName text
  · split
    · exact .pure trivial
    · exact .fail rfl
  · exact .pure trivial
  · exact .pure trivial
  · exact .pure trivial
  · exact .raise _

theorem agrees_funDef (cs : List Node) :
    Agrees builtin e (funDef e cs) (funDef e cs) fun _ => True := by
  unfold funDef
  split
  · refine (Agrees.expectIdent _).bind fun name _ => ?_
    refine (Agrees.view _).bind fun b _ => ?_
    split
    · exact .raise _
    · refine (Agrees.identList _).bind fun params _ => ?_
      refine (Agrees.bindName _ _ _).bind fun _ _ => ?_
      exact (Agrees.record _).bind fun _ _ => .pure trivial
  · exact .misshapen

theorem agrees_lookupStruct (name : String) :
    Agrees builtin e (lookupStruct e name) (lookupStruct e name) fun _ => True := by
  refine (Agrees.view _).bind fun o _ => ?_
  split
  · exact .raise _
  · exact .pure trivial
  · exact .mismatch _ _

theorem agrees_structDef (cs : List Node) :
    Agrees builtin e (structDef e cs) (structDef e cs) fun _ => True := by
  unfold structDef
  split
  · refine (Agrees.expectIdent _).bind fun name _ => ?_
    refine (Agrees.identList _).bind fun fields _ => ?_
    refine (Agrees.addStruct _ _).bind fun r _ => ?_
    refine (Agrees.bindName _ _ _).bind fun _ _ => ?_
    exact (Agrees.record _).bind fun _ _ => .pure trivial
  · exact .misshapen

theorem agrees_getAttr (cs : List Node) :
    Agrees builtin e (getAttr e cs) (getAttr e cs) fun _ => True := by
  unfold getAttr
  split
  · refine (Agrees.expectIdent _).bind fun attr _ => ?_
    refine (Agrees.expectIdent _).bind fun name _ => ?_
    refine (Agrees.view _).bind fun o _ => ?_
    split
    · split
      · exact .pure trivial
      · exact .raise _
    · exact .raise _
  · exact .misshapen

theorem agrees_impl (cs : List Node) :
    Agrees builtin e (impl e cs) (impl e cs) fun _ => True := by
  unfold impl
  split
  · refine (Agrees.expectIdent _).bind fun name _ => ?_
    refine (agrees_lookupStruct name).bind fun r _ => ?_
    refine (Agrees.expectIdent _).bind fun method _ => ?_
    refine (Agrees.identList _).bind fun params _ => ?_
    refine (Agrees.putMethod r method _).bind fun _ _ => ?_
    exact (Agrees.record _).bind fun _ _ => .pure trivial
  · exact .misshapen

theorem agrees_runBuiltin (b : Builtin) (args : List Value) :
    Agrees builtin e (runBuiltin b args) (runBuiltin b args) fun _ => True := by
  unfold runBuiltin
  split
  · exact .fail rfl
  · cases b <;> exact (Agrees.write _).bind fun _ _ => .pure trivial

/-! ### Variables -/

variable (hev : AgreeBelow builtin height ev ev')

include hev

theorem agrees_assign {cs : List Node} (hcs : ∀ c ∈ cs, c.Low builtin height) :
    Agrees builtin e (assign ev e cs) (assign ev' e cs) fun _ => True := by
  unfold assign
  split
  · refine (Agrees.expectIdent _).bind fun name _ => ?_
    refine (hev (hcs _ (by simp)) e).bind fun v _ => ?_
    refine (Agrees.view _).bind fun b _ => ?_
    split
    · exact .raise _
    · exact (Agrees.bindName _ _ _).bind fun _ _ => .pure trivial
  · exact .misshapen

theorem agrees_setVar {cs : List Node} (hcs : ∀ c ∈ cs, c.Low builtin height) :
    Agrees builtin e (setVar ev e cs) (setVar ev' e cs) fun _ => True := by
  unfold setVar
  split
  · refine (Agrees.expectIdent _).bind fun name _ => ?_
    refine (Agrees.view _).bind fun o _ => ?_
    split
    · exact .raise _
    · refine (hev (hcs _ (by simp)) e).bind fun v _ => ?_
      exact (Agrees.setName _ _ _).bind fun _ _ => .pure trivial
  · exact .misshapen

theorem agrees_inPlace {cs : List Node} (hcs : ∀ c ∈ cs, c.Low builtin height) :
    Agrees builtin e (inPlace ev e cs) (inPlace ev' e cs) fun _ => True := by
  unfold inPlace
  split
  · refine (Agrees.expectIdent _).bind fun name _ => ?_
    split
    · exact .raise _
    · refine (hev (hcs _ (by simp)) e).bind fun v _ => ?_
      split
      · refine (Agrees.view _).bind fun o _ => ?_
        split
        · exact (Agrees.setName _ _ _).bind fun _ _ => .pure trivial
        · exact .mismatch _ _
        · exact .raise _
      · exact .mismatch _ _
  · exact .misshapen

omit hev in
/-- An operation that fails does not do so at a limit. -/
theorem agrees_operation (op : String) (a b : Value) :
    Agrees builtin e (Eval.ofExcept (applyOperator op a b)) (Eval.ofExcept (applyOperator op a b))
      fun _ => True := by
  unfold applyOperator
  split
  · next op _ =>
      unfold Operator.apply
      split
      · exact .pure trivial
      · refine .fail ?_
        obtain ⟨left, right, -, -, h⟩ | ⟨i, -, h⟩ := op.refusal_cases a b
        · rw [h]
          rfl
        · rw [h]
          rfl
  · exact .fail rfl

theorem agrees_binop {cs : List Node} (hcs : ∀ c ∈ cs, c.Low builtin height) :
    Agrees builtin e (binop ev e cs) (binop ev' e cs) fun _ => True := by
  unfold binop
  split
  · refine (hev (hcs _ (by simp)) e).bind fun a _ => ?_
    refine (hev (hcs _ (by simp)) e).bind fun b _ => ?_
    exact agrees_operation _ a b
  · exact .misshapen

/-! ### Blocks, conditionals and loops -/

theorem agrees_block : ∀ {cs : List Node} {v : Value}, (∀ c ∈ cs, c.Low builtin height) →
    Agrees builtin e (block ev e v cs) (block ev' e v cs) fun _ => True
  | [], _, _ => .pure trivial
  | c :: rest, _, hcs => by
      obtain ⟨hc, hrest⟩ := List.forall_mem_cons.mp hcs
      exact (hev hc e).bind fun v _ => agrees_block hrest

theorem agrees_conditional {cs : List Node} (hcs : ∀ c ∈ cs, c.Low builtin height) :
    Agrees builtin e (conditional ev e cs) (conditional ev' e cs) fun _ => True := by
  have hcondition {n : Node} (hn : n.Low builtin height) :
      Agrees builtin e (condition ev e n) (condition ev' e n) fun _ => True := by
    refine (hev hn e).bind fun v _ => ?_
    split
    · exact .pure trivial
    · exact .mismatch _ _
  unfold conditional
  split
  · refine (hcondition (hcs _ (by simp))).bind fun b _ => ?_
    split
    · exact hev (hcs _ (by simp)) e
    · split
      · exact hev (hcs _ (by simp)) e
      · exact .pure trivial
  · exact .misshapen

omit hev in
theorem agrees_overItems {turn turn' : Value → Eval Value}
    (h : ∀ v, Agrees builtin e (turn v) (turn' v) fun _ => True) : ∀ {items : List Value}
    {last : Value}, Agrees builtin e (overItems turn last items) (overItems turn' last items)
      fun _ => True
  | [], _ => .pure trivial
  | v :: _, _ => (h v).bind fun _ _ => agrees_overItems h

omit hev in
theorem agrees_overRange {turn turn' : Int → Eval Value}
    (h : ∀ i, Agrees builtin e (turn i) (turn' i) fun _ => True) : ∀ {count : Nat} {i : Int}
    {last : Value}, Agrees builtin e (overRange turn last count i) (overRange turn' last count i)
      fun _ => True
  | 0, _, _ => .pure trivial
  | _ + 1, i, _ => (h i).bind fun _ _ => agrees_overRange h

theorem agrees_forLoop {cs : List Node} (hcs : ∀ c ∈ cs, c.Low builtin height) :
    Agrees builtin e (forLoop ev e cs) (forLoop ev' e cs) fun _ => True := by
  unfold forLoop
  split
  · next target iterable body =>
    refine (Agrees.expectIdent _).bind fun name _ => ?_
    have hturn (v : Value) : Agrees builtin e (do bindName e name v; ev body e)
        (do bindName e name v; ev' body e) fun _ => True :=
      (Agrees.bindName _ _ _).bind fun _ _ => hev (hcs _ (by simp)) e
    refine (hev (hcs _ (by simp)) e).bind fun v _ => ?_
    split
    · exact agrees_overItems hturn
    · refine agrees_overRange fun i => ?_
      unfold wholeTurn
      split
      · exact hturn _
      · exact .fail rfl
    · exact .mismatch _ _
  · exact .misshapen

/-! ### Calls of builtins -/

theorem agrees_callBuiltin (b : Builtin) {args : List Node}
    (hargs : ∀ c ∈ args, c.Low builtin height) :
    Agrees builtin e (callBuiltin ev e b args) (callBuiltin ev' e b args) fun _ => True := by
  refine Agrees.bind (Agrees.each (R := fun _ => True) fun c hc => ?_)
    fun vs _ => agrees_runBuiltin b vs
  refine (hev (hargs c hc) e).attempt.bind fun r _ => ?_
  split
  · exact .pure trivial
  · exact (Agrees.record _).bind fun _ _ => .pure trivial

theorem agrees_call {cs : List Node} {pos : Option Pos}
    (hn : (Node.tree .call cs pos).Low builtin (height + 1)) :
    Agrees builtin e (call ev e cs) (call ev' e cs) fun _ => True := by
  unfold call
  split
  · next nameNode argsNode =>
    refine (Agrees.expectIdent _).bind fun name hname => ?_
    have hbuiltin : builtin name :=
      (hn.tame _ (Node.self_mem_inside _)).call rfl name hname
    have hargs : ∀ c ∈ argsNode.children, c.Low builtin height :=
      (hn.child (by simp [Node.children])).children
    intro s hs
    obtain ⟨b, hb⟩ := Option.isSome_iff_exists.mp (hs.found name hbuiltin)
    have hrun := agrees_callBuiltin hev b hargs s hs
    simp only [view, bind_apply, hb]
    exact hrun
  · exact .misshapen

/-! ### Structs -/

theorem agrees_pair {n : Node} (hn : n.Low builtin height) :
    Agrees builtin e (pair ev e n) (pair ev' e n) fun _ => True := by
  unfold pair
  split
  · split
    · next key value hcs =>
      refine (Agrees.expectIdent _).bind fun k _ => ?_
      refine (hev (hn.children value (by simp [hcs])) e).bind fun v _ => ?_
      exact .pure trivial
    · exact .misshapen
  · exact .raise _

theorem agrees_slots (declared : List String) : ∀ {cs : List Node} {filled : Bindings Value},
    (∀ c ∈ cs, c.Low builtin height) →
    Agrees builtin e (slots ev e declared filled cs) (slots ev' e declared filled cs) fun _ => True
  | [], _, _ => .pure trivial
  | c :: rest, _, hcs => by
      obtain ⟨hc, hrest⟩ := List.forall_mem_cons.mp hcs
      exact (agrees_pair hev hc).bind fun _ _ => agrees_slots declared hrest

theorem agrees_callStruct {cs : List Node} (hcs : ∀ c ∈ cs, c.Low builtin height) :
    Agrees builtin e (callStruct ev e cs) (callStruct ev' e cs) fun _ => True := by
  unfold callStruct
  split
  · refine (Agrees.expectIdent _).bind fun name _ => ?_
    refine (agrees_lookupStruct name).bind fun r _ => ?_
    refine (agrees_slots hev r.fields fun c hc => hcs c (List.mem_cons_of_mem _ hc)).bind ?_
    exact fun _ _ => .pure trivial
  · exact .misshapen

/-! ### Lists and ranges -/

theorem agrees_list {cs : List Node} (hcs : ∀ c ∈ cs, c.Low builtin height) :
    Agrees builtin e (list ev e cs) (list ev' e cs) fun _ => True :=
  (Agrees.each fun c hc => hev (hcs c hc) e).bind fun _ _ => .pure trivial

theorem agrees_range {cs : List Node} (hcs : ∀ c ∈ cs, c.Low builtin height) :
    Agrees builtin e (range ev e cs) (range ev' e cs) fun _ => True := by
  unfold range
  split
  · refine (hev (hcs _ (by simp)) e).bind fun a _ => ?_
    refine (hev (hcs _ (by simp)) e).bind fun b _ => ?_
    split
    · exact .pure trivial
    · exact .mismatch _ _
    · exact .mismatch _ _
  · exact .misshapen

omit hev in
theorem agrees_refuseIndex (name : String) (i : Int) :
    Agrees builtin e (refuseIndex name i) (refuseIndex name i) fun _ => True := by
  unfold refuseIndex
  split
  · exact .raise _
  · exact .fail rfl

omit hev in
theorem agrees_itemAt (name : String) (items : List Value) (x : Float) :
    Agrees builtin e (itemAt name items x) (itemAt name items x) fun _ => True := by
  unfold itemAt
  dsimp only
  split
  · split
    · exact agrees_refuseIndex _ _
    · split
      · exact .pure trivial
      · exact agrees_refuseIndex _ _
  · exact .raise _

omit hev in
theorem agrees_slice (name : String) (items : List Value) (start stop : Int) :
    Agrees builtin e (slice name items start stop) (slice name items start stop)
      fun _ => True := by
  unfold slice
  dsimp only
  split
  · exact agrees_refuseIndex _ _
  · split
    · exact agrees_refuseIndex _ _
    · exact .pure trivial

theorem agrees_index {cs : List Node} (hcs : ∀ c ∈ cs, c.Low builtin height) :
    Agrees builtin e (index ev e cs) (index ev' e cs) fun _ => True := by
  unfold index
  split
  · refine (Agrees.expectIdent _).bind fun name _ => ?_
    refine (Agrees.view _).bind fun o _ => ?_
    split
    · exact .raise _
    · refine (hev (hcs _ (by simp)) e).bind fun i _ => ?_
      split
      · exact agrees_itemAt _ _ _
      · exact agrees_slice _ _ _ _
      · exact .mismatch _ _
    · exact .mismatch _ _
  · exact .misshapen

/-! ### Match -/

omit hev in
theorem agrees_arm {n : Node} (hn : n.Low builtin height) :
    Agrees builtin e (arm n) (arm n) fun a => a.1.Low builtin height ∧ a.2.Low builtin height := by
  unfold arm
  split
  · split
    · next hcs =>
      exact .pure ⟨hn.children _ (by simp [hcs]), hn.children _ (by simp [hcs])⟩
    · exact .misshapen
  · exact .raise _

theorem agrees_allArms {subject : Node} (hsubject : subject.Low builtin height) :
    ∀ {arms : List (Node × Node)} {v : Value},
      (∀ a ∈ arms, a.1.Low builtin height ∧ a.2.Low builtin height) →
      Agrees builtin e (allArms ev e subject v arms) (allArms ev' e subject v arms) fun _ => True
  | [], _, _ => .pure trivial
  | (pattern, body) :: rest, _, harms => by
      obtain ⟨⟨hpattern, hbody⟩, hrest⟩ := List.forall_mem_cons.mp harms
      unfold allArms
      refine (hev hpattern e).attempt.bind fun r _ => ?_
      have hafter : Agrees builtin e
          (do let _ ← ev subject e; let v ← ev body (← armLayer e); allArms ev e subject v rest)
          (do let _ ← ev' subject e; let v ← ev' body (← armLayer e); allArms ev' e subject v rest)
          fun _ => True := by
        refine (hev hsubject e).bind fun _ _ => ?_
        -- What follows the body is in the layer of the match again.
        rw [← bind_assoc, ← bind_assoc]
        exact (Agrees.armLayer fun l => hev hbody l).bind fun _ _ =>
          agrees_allArms hsubject hrest
      split
      · exact hafter
      · exact (Agrees.record _).bind fun _ _ => hafter

theorem agrees_firstArm (v : Value) : ∀ {arms : List (Node × Node)} {i : Nat},
    (∀ a ∈ arms, a.1.Low builtin height ∧ a.2.Low builtin height) →
    Agrees builtin e (firstArm ev e v i arms) (firstArm ev' e v i arms) fun _ => True
  | [], _, _ => .pure trivial
  | (pattern, body) :: rest, i, harms => by
      obtain ⟨⟨hpattern, hbody⟩, hrest⟩ := List.forall_mem_cons.mp harms
      have htakes : Agrees builtin e (takes ev e v pattern) (takes ev' e v pattern)
          fun _ => True := by
        unfold takes
        split
        · exact .pure trivial
        · exact (hev hpattern e).bind fun _ _ => .pure trivial
      unfold firstArm
      refine htakes.bind fun b _ => ?_
      split
      · refine (Agrees.record _).bind fun _ _ => ?_
        exact Agrees.armLayer fun l => hev hbody l
      · exact agrees_firstArm v hrest

theorem agrees_matching {cs : List Node} (hcs : ∀ c ∈ cs, c.Low builtin height) :
    Agrees builtin e (matching ev e cs) (matching ev' e cs) fun _ => True := by
  unfold matching
  split
  · next subject cases =>
    obtain ⟨hsubject, hcases⟩ := List.forall_mem_cons.mp hcs
    refine (Agrees.each fun c hc => agrees_arm (hcases c hc)).bind fun arms harms => ?_
    refine (Agrees.view _).bind fun c _ => ?_
    split
    · exact (hev hsubject e).bind fun v _ => agrees_firstArm hev v harms
    · exact (Agrees.record _).bind fun _ _ => agrees_allArms hev hsubject harms
  · exact .misshapen

/-! ### All nodes -/

/-- A step at a tree agrees where the evaluators do for what is lower. -/
theorem agrees_step (limit limit' : Nat) {n : Node} (hn : n.Low builtin (height + 1)) :
    Agrees builtin e (step limit ev n e) (step limit' ev' n e) fun _ => True := by
  unfold step
  split
  · exact agrees_token _ _
  · next label cs pos =>
    have hcs : ∀ c ∈ cs, c.Low builtin height := fun c hc => hn.child hc
    have htame := hn.tame _ (Node.self_mem_inside _)
    unfold tree
    split
    · exact .pure trivial
    · exact agrees_block hev hcs
    · exact agrees_binop hev hcs
    · exact agrees_conditional hev hcs
    · exact agrees_conditional hev hcs
    · exact agrees_assign hev hcs
    · exact agrees_setVar hev hcs
    · exact agrees_inPlace hev hcs
    · exact absurd rfl htame.noWhile
    · exact agrees_forLoop hev hcs
    · exact agrees_funDef cs
    · exact agrees_call hev hn
    · exact agrees_list hev hcs
    · exact agrees_index hev hcs
    · exact agrees_range hev hcs
    · exact agrees_structDef cs
    · exact agrees_callStruct hev hcs
    · exact agrees_getAttr cs
    · exact agrees_impl cs
    · exact absurd rfl htame.noMethodCall
    · exact agrees_matching hev hcs
    · exact .raise _
  · exact .raise _

end Handlers

/-! ## Evaluation -/

/-- Where evaluation may nest as deep as a tree is high, it goes as it goes anywhere else where it
may, also when it is watched for what never happens so high up. -/
theorem agrees_evalWatching {builtin : String → Prop} {p : Watch} (limit limit' : Nat) :
    ∀ {height depth depth' : Nat}, height ≤ depth → height ≤ depth' →
      (∀ d n e s o, depth < d + height → ¬p d n e s o) →
      AgreeBelow builtin height (evalWatching p limit depth) (evalNode limit' depth')
  | 0, _, _, _, _, _ => fun n hn _ => absurd n.height_pos (Nat.not_lt.mpr hn.height)
  | height + 1, depth + 1, depth' + 1, hdepth, hdepth', hp => by
      have hinside : AgreeBelow builtin height (evalWatching p limit depth)
          (evalNode limit' depth') :=
        agrees_evalWatching limit limit' (Nat.le_of_succ_le_succ hdepth)
          (Nat.le_of_succ_le_succ hdepth') fun d n e s o hd => hp d n e s o (by omega)
      intro n hn e s hs
      have hwatched : evalWatching p limit (depth + 1) n e s =
          located n (step limit (evalWatching p limit depth) n e) s :=
        watched_of_not (hp _ _ _ _ _ (by omega))
      rw [hwatched]
      exact (agrees_step hinside limit limit' hn).located n s hs

theorem agrees_evalNode {builtin : String → Prop} (limit limit' : Nat)
    {height depth depth' : Nat} (hdepth : height ≤ depth) (hdepth' : height ≤ depth') :
    AgreeBelow builtin height (evalNode limit depth) (evalNode limit' depth') := by
  have hnever : evalWatching (fun _ _ _ _ _ => False) limit depth = evalNode limit depth :=
    evalWatching_of_never limit depth fun _ _ _ _ _ _ => id
  rw [← hnever]
  exact agrees_evalWatching limit limit' hdepth hdepth' fun _ _ _ _ _ _ => id

/-- A tree without `while`, method calls and calls of what is no builtin of its environment is
evaluated as if there were no limits. Whatever the limits are, as long as evaluation may nest as
deep as the tree is high, it comes to the same, which is a value or an error and not for a limit;
and at no moment does evaluation nest deeper than that. -/
theorem evalNode_nests {n : Node} {e : LayerId} {s : Store} (he : e < s.layers.size)
    (hn : ∀ m ∈ n.inside, m.Tame fun name => (s.builtin? e name).isSome) {limit depth : Nat}
    (hdepth : n.height ≤ depth) :
    evalNode limit depth n e s = evalNode 0 n.height n e s ∧
    (evalNode limit depth n e s).1 ≠ .error .tooDeep ∧
    (evalNode limit depth n e s).1 ≠ .error .tooLong ∧
    ¬Happens (fun d _ _ _ _ => d + n.height ≤ depth) limit depth n e s := by
  have hlow : n.Low (fun name => (s.builtin? e name).isSome) n.height := ⟨Nat.le_refl _, hn⟩
  have hoffers : s.Offers (fun name => (s.builtin? e name).isSome) e := ⟨he, fun _ h => h⟩
  obtain ⟨heq, hends, -⟩ :=
    agrees_evalNode limit 0 hdepth (Nat.le_refl _) hlow e s hoffers
  refine ⟨heq, ?_, ?_, ?_⟩
  · intro h
    rw [h] at hends
    cases hends
  · intro h
    rw [h] at hends
    cases hends
  · obtain ⟨hsame, -, -⟩ := agrees_evalWatching (p := fun d _ _ _ _ => d + n.height ≤ depth)
      limit limit hdepth hdepth (fun d _ _ _ _ hd => Nat.not_le_of_lt hd) hlow e
      { s with log := #[] } ⟨he, fun _ h => h⟩
    rw [Happens, hsame]
    exact Policy.quiet_evalNode limit depth n e (Array.not_mem_empty _)

/-- The tree of `for x in [true, false] { print(x); }`, where the block is left out. -/
def printsEach : Node :=
  .tree .forLoop [.token .ident "x" none,
    .tree .list [.token .trueWord "true" none, .token .falseWord "false" none] none,
    .tree .call [.token .ident "print" none, .tree .args [.token .ident "x" none] none] none] none

/-- The loop, the call, the list of arguments and an argument: evaluation that may nest four deep
needs no turns for it. -/
theorem evalNode_nests_printsEach :
    printsEach.height = 4 ∧ (evalNode 0 4 printsEach 0 (Store.root {})).1 = .ok .nothing ∧
    ∀ limit, evalNode limit 4 printsEach 0 (Store.root {}) =
      evalNode 0 4 printsEach 0 (Store.root {}) := by
  have htame : ∀ m ∈ printsEach.inside, m.Tame fun name =>
      ((Store.root {}).builtin? 0 name).isSome := by decide
  exact ⟨rfl, by rfl, fun limit => (evalNode_nests (by decide) htame (Nat.le_refl 4)).1⟩

end Tern
