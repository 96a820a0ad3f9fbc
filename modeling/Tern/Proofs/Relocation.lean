import Tern.Proofs.Appending
import Tern.Proofs.Policy
import Tern.Proofs.Watching

/-!
# Evaluation behind another store

What is evaluated in a grounded store is evaluated in the same way when the store stands behind
another one: it ends in the same error or in the same value, shifted, it leaves the store that it
leaves otherwise behind the other one, which has not changed (`evalNode_append`), and it leaves it
grounded (`groundedAt_evalNode`). One pass over the evaluator shows both. For where parents and
frames are layers that there are, all that is reached is in the store itself; and a function is
defined in a layer that there is, and a layer hangs from another or from a frame, so that this
remains so.

How many layers there are grows on the way. What an evaluation has come to is said for the layers
that there are by then (`Relocates`), and holds for any more.
-/

namespace Tern

open Eval

/-! ## Two evaluations -/

/-- What has come of an evaluation, and of another one behind `base`. -/
structure Relocated (base : Store) {α β : Type} (Q : Nat → α → β → Prop) (count : Nat)
    (o : Outcome α) (o' : Outcome β) : Prop where
  ends : Ends Eq (Q o.2.layers.size) o.1 o'.1
  store : o'.2 = base.append o.2
  size : count ≤ o.2.layers.size
  grounded : o.2.Grounded

/-- Both have come to results that are related, or both to the same failure. -/
theorem Relocated.cases {base : Store} {α β : Type} {Q : Nat → α → β → Prop} {count : Nat}
    {o : Outcome α} {o' : Outcome β} (h : Relocated base Q count o o') :
    ∃ t : Store, count ≤ t.layers.size ∧ t.Grounded ∧
      ((∃ a b, o = (.ok a, t) ∧ o' = (.ok b, base.append t) ∧ Q t.layers.size a b) ∨
        ∃ f, o = (.error f, t) ∧ o' = (.error f, base.append t)) := by
  obtain ⟨r, t⟩ := o
  obtain ⟨r', t'⟩ := o'
  obtain ⟨hends, rfl, hsize, hg⟩ := h
  refine ⟨t, hsize, hg, ?_⟩
  cases hends with
  | ok hab => exact .inl ⟨_, _, rfl, rfl, hab⟩
  | @error f _ hf =>
    obtain rfl : f = _ := hf
    exact .inr ⟨f, rfl, rfl⟩

/-- From a grounded store with at least so many layers, and from the same store behind `base`, both
evaluations end alike, in results that are related for the layers that there are then. -/
def Relocates (base : Store) (count : Nat) {α β : Type} (x : Eval α) (y : Eval β)
    (Q : Nat → α → β → Prop) : Prop :=
  ∀ s, count ≤ s.layers.size → s.Grounded →
    Relocated base Q s.layers.size (x s) (y (base.append s))

/-- A value, and the same behind `base`. -/
structure Value.Moved (base : Store) (n : Nat) (v v' : Value) : Prop where
  framed : v.Framed n
  shift : v' = v.shift base.offset

/-- A layer, and the same behind `base`. -/
structure MovedLayer (base : Store) (n : Nat) (l l' : LayerId) : Prop where
  lt : l < n
  shift : l' = l + base.layers.size

/-- The same on both sides. -/
def Unmoved {α : Type} (_ : Nat) (a a' : α) : Prop := a' = a

section Moved

variable {base : Store} {m n : Nat} {v v' : Value}

theorem Value.Moved.mono (h : v.Moved base m v') (hmn : m ≤ n) : v.Moved base n v' :=
  ⟨h.framed.mono hmn, h.shift⟩

theorem Value.Framed.moved (h : v.Framed n) : v.Moved base n (v.shift base.offset) := ⟨h, rfl⟩

theorem Value.Inert.moved (h : v.Inert) : v.Moved base n v := ⟨h.framed, (h.shift _).symm⟩

theorem forall₂_moved {vs vs' : List Value} (h : List.Forall₂ (Value.Moved base n) vs vs') :
    (∀ v ∈ vs, v.Framed n) ∧ vs' = vs.map (Value.shift base.offset) := by
  induction h with
  | nil => exact ⟨List.forall_mem_nil _, rfl⟩
  | cons hv _ ih =>
    obtain ⟨hframed, rfl⟩ := ih
    exact ⟨List.forall_mem_cons.mpr ⟨hv.framed, hframed⟩, by rw [hv.shift, List.map_cons]⟩

/-- Names beside values. -/
theorem forall₂_zip {α β : Type} {P : α → β → Prop} : ∀ (names : List String) {as : List α}
    {bs : List β}, List.Forall₂ P as bs →
    List.Forall₂ (fun p q => q.1 = p.1 ∧ P p.2 q.2) (names.zip as) (names.zip bs)
  | [], _, _, _ => .nil
  | _ :: _, _, _, .nil => .nil
  | _ :: names, _, _, .cons h hs => .cons ⟨rfl, h⟩ (forall₂_zip names hs)

theorem Value.displayItems_map (o : Offset) (vs : List Value) :
    displayItems (vs.map (Value.shift o)) = displayItems vs := by
  rw [← shiftItems_eq_map, displayItems_shift]

end Moved

namespace Relocates

variable {base : Store} {count : Nat} {α β γ δ : Type} {Q : Nat → α → β → Prop}
  {R : Nat → γ → δ → Prop} {x : Eval α} {y : Eval β} {e : LayerId}

/-! ## Putting evaluations together -/

/-- With more layers it is still so. -/
theorem later (h : Relocates base count x y Q) {n : Nat} (hn : count ≤ n) :
    Relocates base n x y Q :=
  fun s hs hg => h s (Nat.le_trans hn hs) hg

theorem pure {a : α} {b : β} (h : ∀ n, count ≤ n → Q n a b) :
    Relocates base count (pure a) (pure b) Q :=
  fun _ hs hg => ⟨.ok (h _ hs), rfl, Nat.le_refl _, hg⟩

theorem fail (f : Failure) : Relocates base count (fail f : Eval α) (fail f : Eval β) Q :=
  fun _ _ hg => ⟨.error rfl, rfl, Nat.le_refl _, hg⟩

theorem raise (cause : Cause) :
    Relocates base count (raise cause : Eval α) (raise cause : Eval β) Q := fail _

theorem misshapen : Relocates base count (misshapen : Eval α) (misshapen : Eval β) Q := fail _

theorem mismatch (expected : String) (v : Value) :
    Relocates base count (mismatch expected v : Eval α)
      (mismatch expected (v.shift base.offset) : Eval β) Q := by
  unfold Eval.mismatch
  rw [Value.type_shift]
  exact raise _

theorem bind {f : α → Eval γ} {g : β → Eval δ} (h : Relocates base count x y Q)
    (hf : ∀ n a b, count ≤ n → Q n a b → Relocates base n (f a) (g b) R) :
    Relocates base count (x >>= f) (y >>= g) R := by
  intro s hs hg
  obtain ⟨t, hsize, hgt, ⟨a, b, hx, hy, hab⟩ | ⟨f, hx, hy⟩⟩ := (h s hs hg).cases
  · have hrest := hf t.layers.size a b (Nat.le_trans hs hsize) hab t (Nat.le_refl _) hgt
    rw [bind_apply, bind_apply, hx, hy]
    exact ⟨hrest.ends, hrest.store, Nat.le_trans hsize hrest.size, hrest.grounded⟩
  · rw [bind_apply, bind_apply, hx, hy]
    exact ⟨.error rfl, rfl, hsize, hgt⟩

/-- What follows a result that is the same on both sides. -/
theorem bind_same {x y : Eval α} {f : α → Eval γ} {g : α → Eval δ}
    (h : Relocates base count x y Unmoved) (hf : ∀ a, Relocates base count (f a) (g a) R) :
    Relocates base count (x >>= f) (y >>= g) R :=
  h.bind fun n a b hn hab => by
    obtain rfl : b = a := hab
    exact (hf b).later hn

/-- Going on after errors, which are the same. -/
theorem attempt (h : Relocates base count x y Q) :
    Relocates base count (attempt x) (attempt y) fun n => Ends Eq (Q n) := by
  intro s hs hg
  unfold Eval.attempt
  obtain ⟨t, hsize, hgt, ⟨a, b, hx, hy, hab⟩ | ⟨f, hx, hy⟩⟩ := (h s hs hg).cases
  · rw [hx, hy]
    exact ⟨.ok (.ok hab), rfl, hsize, hgt⟩
  · rw [hx, hy]
    cases f with
    | raised e => exact ⟨.ok (.error rfl), rfl, hsize, hgt⟩
    | _ => exact ⟨.error rfl, rfl, hsize, hgt⟩

theorem located (n : Node) (h : Relocates base count x y Q) :
    Relocates base count (located n x) (located n y) Q := by
  intro s hs hg
  unfold Eval.located
  obtain ⟨t, hsize, hgt, ⟨a, b, hx, hy, hab⟩ | ⟨f, hx, hy⟩⟩ := (h s hs hg).cases
  · rw [hx, hy]
    exact ⟨.ok hab, rfl, hsize, hgt⟩
  · rw [hx, hy]
    cases f <;> exact ⟨.error rfl, rfl, hsize, hgt⟩

theorem each {ι : Type} {f : ι → Eval α} {g : ι → Eval β}
    (hQ : ∀ {m n a b}, m ≤ n → Q m a b → Q n a b) : ∀ {as : List ι} {count : Nat},
    (∀ a ∈ as, Relocates base count (f a) (g a) Q) →
      Relocates base count (Eval.each f as) (Eval.each g as) fun n => List.Forall₂ (Q n)
  | [], _, _ => pure fun _ _ => .nil
  | a :: rest, count, h => by
    obtain ⟨ha, hrest⟩ := List.forall_mem_cons.mp h
    unfold Eval.each
    refine ha.bind fun m b b' hm hb => ?_
    refine (each hQ fun c hc => (hrest c hc).later hm).bind fun n bs bs' hn hbs => ?_
    exact pure fun k hk => .cons (hQ (Nat.le_trans hn hk) hb) (hbs.imp fun _ _ => hQ hk)

/-- Where all results are the same on both sides. -/
theorem each_same {ι : Type} {f g : ι → Eval α}
    (h : ∀ a, Relocates base count (f a) (g a) Unmoved) : ∀ as : List ι,
    Relocates base count (Eval.each f as) (Eval.each g as) Unmoved
  | [] => pure fun _ _ => rfl
  | a :: rest => (h a).bind_same fun _ => (each_same h rest).bind_same fun _ => pure fun _ _ => rfl

theorem forAll {ι κ : Type} {f : ι → Eval Unit} {g : κ → Eval Unit} {P : ι → κ → Prop}
    {as : List ι} {bs : List κ} (h : List.Forall₂ P as bs) : ∀ {count : Nat},
    (∀ a b n, count ≤ n → P a b → Relocates base n (f a) (g b) Unmoved) →
    Relocates base count (Eval.forAll f as) (Eval.forAll g bs) Unmoved := by
  induction h with
  | nil => exact fun _ => pure fun _ _ => rfl
  | cons hab _ ih =>
    intro count hf
    refine (hf _ _ count (Nat.le_refl _) hab).bind fun n _ _ hn _ => ?_
    exact ih fun a b m hm hP => hf a b m (Nat.le_trans hn hm) hP

/-! ## The store -/

theorem view {f : Store → α} {g : Store → β}
    (h : ∀ s : Store, count ≤ s.layers.size → s.Grounded →
      Q s.layers.size (f s) (g (base.append s))) :
    Relocates base count (view f) (view g) Q :=
  fun s hs hg => ⟨.ok (h s hs hg), rfl, Nat.le_refl _, hg⟩

theorem update {f g : Store → Store} (hstore : ∀ s, g (base.append s) = base.append (f s))
    (hsize : ∀ s : Store, (f s).layers.size = s.layers.size)
    (hgrounded : ∀ s : Store, count ≤ s.layers.size → s.Grounded → (f s).Grounded) :
    Relocates base count (update f) (update g) Unmoved :=
  fun s hs hg => ⟨.ok rfl, hstore s, Nat.le_of_eq (hsize s).symm, hgrounded s hs hg⟩

theorem record (event : Event) :
    Relocates base count (record event) (record event) Unmoved :=
  update (fun _ => rfl) (fun _ => rfl) fun _ _ hg => hg.of_layers rfl rfl

theorem write (text : String) :
    Relocates base count (write text) (write text) Unmoved :=
  update (fun _ => rfl) (fun _ => rfl) fun _ _ hg => hg.of_layers rfl rfl

theorem configOf (e : LayerId) :
    Relocates base count (configOf e) (configOf (e + base.layers.size)) Unmoved :=
  view fun s _ _ => base.config_append s e

theorem builtin? (he : e < count) (name : String) :
    Relocates base count (Eval.view (·.builtin? e name))
      (Eval.view (·.builtin? (e + base.layers.size) name)) Unmoved :=
  view fun _ hs _ => Store.builtin?_append base (Nat.lt_of_lt_of_le he hs) name

theorem bound (e : LayerId) (name : String) :
    Relocates base count (Eval.view fun s => (s.bindings e).holds name)
      (Eval.view fun s => (s.bindings (e + base.layers.size)).holds name) Unmoved :=
  view fun s _ _ => by rw [Unmoved, Store.bindings_append, Bindings.holds_map]

theorem lookup? (he : e < count) (name : String) :
    Relocates base count (lookup? e name) (lookup? (e + base.layers.size) name)
      fun n => Option.Rel (Value.Moved base n) :=
  view fun s hs hg => by
    rw [hg.lookup?_append base (Nat.lt_of_lt_of_le he hs)]
    cases hv : s.lookup? e name with
    | none => exact .none
    | some v => exact .some (hg.framed_of_lookup? hv).moved

theorem method? (r : StructRef) (name : String) :
    Relocates base count (Eval.view fun s => (s.methodsOf r).get? name)
      (Eval.view fun s => (s.methodsOf (r.shift base.offset)).get? name)
      fun n => Option.Rel fun f f' => f.Framed n ∧ f' = f.shift base.offset :=
  view fun s hs hg => by
    rw [Store.methodsOf_append, Bindings.get?_map]
    cases hf : (s.methodsOf r).get? name with
    | none => exact .none
    | some f => exact .some ⟨hg.framed_of_method? hf, rfl⟩

theorem bindName (e : LayerId) (name : String) {v v' : Value} (hv : v.Moved base count v') :
    Relocates base count (bindName e name v) (bindName (e + base.layers.size) name v')
      Unmoved := by
  obtain ⟨hframed, rfl⟩ := hv
  exact update (fun s => base.append_bind s e name v) (fun s => s.size_bind e name v)
    fun s hs hg => hg.bind e name (hframed.mono hs)

theorem setName (he : e < count) (name : String) {v v' : Value} (hv : v.Moved base count v') :
    Relocates base count (setName e name v) (setName (e + base.layers.size) name v')
      Unmoved := by
  intro s hs hg
  unfold Eval.setName
  rw [hg.owner?_append base (Nat.lt_of_lt_of_le he hs)]
  cases s.owner? e name with
  | none => exact raise _ s hs hg
  | some l => exact bindName l name hv s hs hg

theorem spawn (he : e < count) {p : Option LayerId} (hp : ∀ q, p = some q → q < count) :
    Relocates base count (spawn e p)
      (spawn (e + base.layers.size) (p.map (· + base.layers.size))) (MovedLayer base) := by
  intro s hs hg
  have hspawn := Store.append_spawn base (Nat.lt_of_lt_of_le he hs) p
  have hsize : (s.spawn e p).1.layers.size = s.layers.size + 1 := s.size_spawn e p
  refine ⟨?_, congrArg Prod.fst hspawn, ?_,
    hg.spawn e fun q hq => Nat.lt_of_lt_of_le (hp q hq) hs⟩
  · exact .ok ⟨hsize ▸ Nat.lt_succ_self _, congrArg Prod.snd hspawn⟩
  · exact hsize ▸ Nat.le_succ _

theorem addStruct (name : String) (fields : List String) :
    Relocates base count (create (·.addStruct name fields []))
      (create (·.addStruct name fields [])) fun _ r r' => r' = r.shift base.offset := by
  intro s hs hg
  have hadd := base.append_addStruct s name fields
  exact ⟨.ok (congrArg Prod.snd hadd), congrArg Prod.fst hadd, Nat.le_refl _,
    hg.addStruct name fields⟩

theorem putMethod (r : StructRef) (name : String) {f : Function} (hf : f.Framed count) :
    Relocates base count (Eval.update (·.putMethod r name f))
      (Eval.update (·.putMethod (r.shift base.offset) name (f.shift base.offset)))
      Unmoved :=
  update (fun s => base.append_putMethod s r name f) (fun _ => rfl)
    fun _ hs hg => hg.putMethod r name (hf.mono hs)

/-! ## Names in trees -/

theorem expectIdent (n : Node) :
    Relocates base count (expectIdent n) (expectIdent n) Unmoved := by
  unfold Eval.expectIdent
  split
  · exact pure fun _ _ => rfl
  · exact raise _

theorem identList (n : Node) : Relocates base count (identList n) (identList n) Unmoved :=
  each_same expectIdent n.children

end Relocates

/-- Evaluators that evaluate all nodes alike, in a layer and in the same one behind `base`. -/
def RelocatesNodes (base : Store) (ev ev' : Evaluator) : Prop :=
  ∀ count n e, e < count →
    Relocates base count (ev n e) (ev' n (e + base.layers.size)) (Value.Moved base)

/-! ## The handlers -/

section Handlers

variable {base : Store} {ev ev' : Evaluator} {count : Nat} {e : LayerId}

/-! ### New layers -/

theorem relocates_calleeLayer (he : e < count) {f : Function} (hf : f.Framed count) :
    Relocates base count (calleeLayer e f)
      (calleeLayer (e + base.layers.size) (f.shift base.offset)) (MovedLayer base) := by
  have hparent : Relocates base count (scopeParent f e)
      (scopeParent (f.shift base.offset) (e + base.layers.size))
      fun _ p p' => (∀ q, p = some q → q < count) ∧ p' = p.map (· + base.layers.size) := by
    refine (Relocates.configOf e).bind_same fun c => ?_
    split
    · obtain ⟨l, hl, hlt⟩ := hf
      refine .pure fun _ _ => ⟨fun q hq => ?_, rfl⟩
      rw [hl] at hq
      cases hq
      exact hlt
    · exact .pure fun _ _ => ⟨nofun, rfl⟩
  refine hparent.bind fun n p p' hn hp => ?_
  obtain ⟨hlt, rfl⟩ := hp
  exact (Relocates.spawn he hlt).later hn

theorem relocates_armLayer (he : e < count) :
    Relocates base count (armLayer e) (armLayer (e + base.layers.size)) (MovedLayer base) := by
  refine (Relocates.configOf e).bind_same fun c => ?_
  split
  · refine Relocates.spawn he fun q hq => ?_
    cases hq
    exact he
  · exact Relocates.spawn he nofun

/-! ### Without nodes inside -/

theorem relocates_getName (he : e < count) (name : String) :
    Relocates base count (getName e name) (getName (e + base.layers.size) name)
      (Value.Moved base) := by
  refine (Relocates.lookup? he name).bind fun n o o' _ ho => ?_
  cases ho with
  | none => exact .raise _
  | some hv => exact .pure fun m hm => hv.mono hm

theorem relocates_token (he : e < count) (kind : TokenKind) (text : String) :
    Relocates base count (token kind text e) (token kind text (e + base.layers.size))
      (Value.Moved base) := by
  unfold token
  split
  · exact relocates_getName he text
  · split
    · exact .pure fun _ _ => (Value.Inert.number _).moved
    · exact .fail _
  · exact .pure fun _ _ => (Value.Inert.string _).moved
  · exact .pure fun _ _ => (Value.Inert.bool _).moved
  · exact .pure fun _ _ => (Value.Inert.bool _).moved
  · exact .raise _

/-- Where nothing is the value. -/
theorem relocates_nothing :
    Relocates base count (pure .nothing : Eval Value) (pure .nothing) (Value.Moved base) :=
  .pure fun _ _ => Value.Inert.nothing.moved

theorem relocates_funDef (he : e < count) (cs : List Node) :
    Relocates base count (funDef e cs) (funDef (e + base.layers.size) cs) (Value.Moved base) := by
  unfold funDef
  split
  · next body =>
    refine (Relocates.expectIdent _).bind_same fun name => ?_
    refine (Relocates.builtin? he name).bind_same fun b => ?_
    split
    · exact .raise _
    · refine (Relocates.identList _).bind_same fun params => ?_
      have hf : (Value.function ⟨name, params, body, some e⟩).Framed count :=
        Value.framed_function ⟨e, rfl, he⟩
      refine (Relocates.bindName e name hf.moved).bind_same fun _ => ?_
      exact (Relocates.record _).bind_same fun _ => .pure fun n hn => hf.moved.mono hn
  · exact .misshapen

theorem relocates_lookupStruct (he : e < count) (name : String) :
    Relocates base count (lookupStruct e name) (lookupStruct (e + base.layers.size) name)
      fun _ r r' => r' = r.shift base.offset := by
  refine (Relocates.lookup? he name).bind fun n o o' _ ho => ?_
  cases ho with
  | none => exact .raise _
  | @some v _ hv =>
    obtain ⟨-, rfl⟩ := hv
    cases v with
    | struct r => exact .pure fun _ _ => rfl
    | _ => exact .mismatch _ _

theorem relocates_structDef (e : LayerId) (cs : List Node) :
    Relocates base count (structDef e cs) (structDef (e + base.layers.size) cs)
      (Value.Moved base) := by
  unfold structDef
  split
  · refine (Relocates.expectIdent _).bind_same fun name => ?_
    refine (Relocates.identList _).bind_same fun fields => ?_
    refine (Relocates.addStruct name fields).bind fun n r r' _ hr => ?_
    obtain rfl := hr
    refine (Relocates.bindName e name (Value.framed_struct r).moved).bind_same fun _ => ?_
    exact (Relocates.record _).bind_same fun _ => relocates_nothing
  · exact .misshapen

theorem relocates_getAttr (he : e < count) (cs : List Node) :
    Relocates base count (getAttr e cs) (getAttr (e + base.layers.size) cs)
      (Value.Moved base) := by
  unfold getAttr
  split
  · refine (Relocates.expectIdent _).bind_same fun attr => ?_
    refine (Relocates.expectIdent _).bind_same fun name => ?_
    refine (Relocates.lookup? he name).bind fun n o o' _ ho => ?_
    cases ho with
    | none => exact .raise _
    | @some v _ hv =>
      obtain ⟨hframed, rfl⟩ := hv
      cases v with
      | object owner fields =>
        rw [Value.shift_object]
        dsimp only
        rw [Bindings.get?_map]
        cases hget : Bindings.get? fields attr with
        | none => exact .raise _
        | some v =>
          have hv : v.Framed n := hframed.slot (Bindings.mem_of_get? hget)
          exact .pure fun m hm => hv.moved.mono hm
      | _ => exact .raise _
  · exact .misshapen

theorem relocates_impl (he : e < count) (cs : List Node) :
    Relocates base count (impl e cs) (impl (e + base.layers.size) cs) (Value.Moved base) := by
  unfold impl
  split
  · refine (Relocates.expectIdent _).bind_same fun name => ?_
    refine (relocates_lookupStruct he name).bind fun n r r' hn hr => ?_
    obtain rfl := hr
    refine (Relocates.expectIdent _).bind_same fun method => ?_
    refine (Relocates.identList _).bind_same fun params => ?_
    refine (Relocates.putMethod r method ⟨e, rfl, Nat.lt_of_lt_of_le he hn⟩).bind_same fun _ => ?_
    exact (Relocates.record _).bind_same fun _ => relocates_nothing
  · exact .misshapen

theorem relocates_runBuiltin (b : Builtin) (args : List Value) :
    Relocates base count (runBuiltin b args)
      (runBuiltin b (args.map (Value.shift base.offset))) (Value.Moved base) := by
  unfold runBuiltin
  rw [Value.displayItems_map]
  split
  · exact .fail _
  · cases b <;> exact (Relocates.write _).bind_same fun _ => relocates_nothing

/-! ### Variables -/

variable (hev : RelocatesNodes base ev ev')

include hev

theorem relocates_assign (he : e < count) (cs : List Node) :
    Relocates base count (assign ev e cs) (assign ev' (e + base.layers.size) cs)
      (Value.Moved base) := by
  unfold assign
  split
  · refine (Relocates.expectIdent _).bind_same fun name => ?_
    refine (hev count _ e he).bind fun n v v' hn hv => ?_
    refine (Relocates.bound e name).bind_same fun b => ?_
    split
    · exact .raise _
    · exact (Relocates.bindName e name hv).bind_same fun _ => relocates_nothing
  · exact .misshapen

theorem relocates_setVar (he : e < count) (cs : List Node) :
    Relocates base count (setVar ev e cs) (setVar ev' (e + base.layers.size) cs)
      (Value.Moved base) := by
  unfold setVar
  split
  · refine (Relocates.expectIdent _).bind_same fun name => ?_
    refine (Relocates.lookup? he name).bind fun n o o' hn ho => ?_
    replace he := Nat.lt_of_lt_of_le he hn
    cases ho with
    | none => exact .raise _
    | some _ =>
      refine (hev n _ e he).bind fun m v v' hm hv => ?_
      exact (Relocates.setName (Nat.lt_of_lt_of_le he hm) name hv).bind_same fun _ =>
        relocates_nothing
  · exact .misshapen

theorem relocates_inPlace (he : e < count) (cs : List Node) :
    Relocates base count (inPlace ev e cs) (inPlace ev' (e + base.layers.size) cs)
      (Value.Moved base) := by
  unfold inPlace
  split
  · refine (Relocates.expectIdent _).bind_same fun name => ?_
    split
    · exact .raise _
    · refine (hev count _ e he).bind fun n v v' hn hv => ?_
      replace he := Nat.lt_of_lt_of_le he hn
      obtain ⟨-, rfl⟩ := hv
      cases v with
      | number b =>
        refine (Relocates.lookup? he name).bind fun m o o' hm ho => ?_
        replace he := Nat.lt_of_lt_of_le he hm
        cases ho with
        | none => exact .raise _
        | @some u _ hu =>
          obtain ⟨-, rfl⟩ := hu
          cases u with
          | number a =>
            exact (Relocates.setName he name (Value.Inert.number _).moved).bind_same fun _ =>
              relocates_nothing
          | _ => exact .mismatch _ _
      | _ => exact .mismatch _ _
  · exact .misshapen

theorem relocates_binop (he : e < count) (cs : List Node) :
    Relocates base count (binop ev e cs) (binop ev' (e + base.layers.size) cs)
      (Value.Moved base) := by
  unfold binop
  split
  · refine (hev count _ e he).bind fun n a a' hn ha => ?_
    refine (hev n _ e (Nat.lt_of_lt_of_le he hn)).bind fun m b b' _ hb => ?_
    rw [ha.shift, hb.shift, applyOperator_shift]
    unfold Eval.ofExcept
    split
    · next u hu => exact .pure fun _ _ => (inert_of_applyOperator hu).moved
    · exact .fail _
  · exact .misshapen

/-! ### Blocks, conditionals and loops -/

theorem relocates_block : ∀ (cs : List Node) {count : Nat} {v v' : Value}, e < count →
    v.Moved base count v' →
    Relocates base count (block ev e v cs) (block ev' (e + base.layers.size) v' cs)
      (Value.Moved base)
  | [], _, _, _, _, hv => .pure fun _ hn => hv.mono hn
  | c :: rest, _, _, _, he, _ =>
    (hev _ c e he).bind fun _ _ _ hn hv => relocates_block rest (Nat.lt_of_lt_of_le he hn) hv

theorem relocates_condition (he : e < count) (n : Node) :
    Relocates base count (condition ev e n) (condition ev' (e + base.layers.size) n)
      Unmoved := by
  refine (hev count n e he).bind fun m v v' _ hv => ?_
  obtain ⟨-, rfl⟩ := hv
  cases v with
  | bool b => exact .pure fun _ _ => rfl
  | _ => exact .mismatch _ _

theorem relocates_conditional (he : e < count) (cs : List Node) :
    Relocates base count (conditional ev e cs) (conditional ev' (e + base.layers.size) cs)
      (Value.Moved base) := by
  unfold conditional
  split
  · refine (relocates_condition hev he _).bind_same fun b => ?_
    split
    · exact hev count _ e he
    · split
      · exact hev count _ e he
      · exact relocates_nothing
  · exact .misshapen

theorem relocates_loopCondition (he : e < count) (strict : Bool) (n : Node) :
    Relocates base count (loopCondition ev e strict n)
      (loopCondition ev' (e + base.layers.size) strict n) Unmoved := by
  refine (hev count n e he).bind fun m v v' _ hv => ?_
  obtain ⟨-, rfl⟩ := hv
  cases v with
  | bool b => exact .pure fun _ _ => rfl
  | _ =>
    cases strict
    · exact .pure fun _ _ => rfl
    · exact .mismatch _ _

omit hev in
theorem relocates_turns {cond cond' : Eval Bool} {body body' : Eval Value}
    (hcond : Relocates base count cond cond' Unmoved)
    (hbody : Relocates base count body body' (Value.Moved base)) : ∀ limit,
    Relocates base count (turns cond body limit) (turns cond' body' limit) (Value.Moved base)
  | 0 => .fail _
  | limit + 1 => by
    unfold turns
    refine hcond.bind_same fun b => ?_
    split
    · exact hbody.bind fun n _ _ hn _ => (relocates_turns hcond hbody limit).later hn
    · exact relocates_nothing

theorem relocates_whileLoop (he : e < count) (limit : Nat) (cs : List Node) :
    Relocates base count (whileLoop limit ev e cs)
      (whileLoop limit ev' (e + base.layers.size) cs) (Value.Moved base) := by
  unfold whileLoop
  split
  · refine (Relocates.configOf e).bind_same fun c => ?_
    exact relocates_turns (relocates_loopCondition hev he _ _) (hev count _ e he) limit
  · exact .misshapen

omit hev in
theorem relocates_overItems {turn turn' : Value → Eval Value}
    (hturn : ∀ n v, count ≤ n → v.Framed n →
      Relocates base n (turn v) (turn' (v.shift base.offset)) (Value.Moved base)) :
    ∀ (items : List Value) {n : Nat} {last last' : Value}, count ≤ n →
      (∀ v ∈ items, v.Framed n) → last.Moved base n last' →
      Relocates base n (overItems turn last items)
        (overItems turn' last' (items.map (Value.shift base.offset))) (Value.Moved base)
  | [], _, _, _, _, _, hlast => .pure fun _ hm => hlast.mono hm
  | v :: rest, n, _, _, hn, hitems, _ => by
    obtain ⟨hv, hrest⟩ := List.forall_mem_cons.mp hitems
    refine (hturn n v hn hv).bind fun m r r' hm hr => ?_
    exact relocates_overItems hturn rest (Nat.le_trans hn hm) (fun u hu => (hrest u hu).mono hm) hr

omit hev in
theorem relocates_overRange {turn turn' : Int → Eval Value}
    (hturn : ∀ i, Relocates base count (turn i) (turn' i) (Value.Moved base)) :
    ∀ (turns : Nat) (i : Int) {n : Nat} {last last' : Value}, count ≤ n →
      last.Moved base n last' →
      Relocates base n (overRange turn last turns i) (overRange turn' last' turns i)
        (Value.Moved base)
  | 0, _, _, _, _, _, hlast => .pure fun _ hm => hlast.mono hm
  | turns + 1, i, _, _, _, hn, _ =>
    ((hturn i).later hn).bind fun _ _ _ hm hr =>
      relocates_overRange hturn turns (i + 1) (Nat.le_trans hn hm) hr

theorem relocates_forLoop (he : e < count) (cs : List Node) :
    Relocates base count (forLoop ev e cs) (forLoop ev' (e + base.layers.size) cs)
      (Value.Moved base) := by
  unfold forLoop
  split
  · next target iterable body =>
    refine (Relocates.expectIdent _).bind_same fun name => ?_
    have hturn (n : Nat) (v : Value) (hn : count ≤ n) (hv : v.Framed n) :
        Relocates base n (do bindName e name v; ev body e)
          (do bindName (e + base.layers.size) name (v.shift base.offset)
              ev' body (e + base.layers.size)) (Value.Moved base) :=
      (Relocates.bindName e name hv.moved).bind_same fun _ =>
        hev n body e (Nat.lt_of_lt_of_le he hn)
    refine (hev count _ e he).bind fun n v v' hn hv => ?_
    obtain ⟨hframed, rfl⟩ := hv
    cases v with
    | list items =>
      rw [Value.shift_list]
      exact relocates_overItems hturn items hn (fun _ hv => hframed.item hv)
        Value.Inert.nothing.moved
    | range start stop =>
      refine relocates_overRange (fun i => ?_) _ _ hn Value.Inert.nothing.moved
      unfold wholeTurn
      split
      · exact hturn count _ (Nat.le_refl _) (Value.Inert.number _).framed
      · exact .fail _
    | _ => exact .mismatch _ _
  · exact .misshapen

/-! ### Calls -/

theorem relocates_callBuiltin (he : e < count) (b : Builtin) (args : List Node) :
    Relocates base count (callBuiltin ev e b args)
      (callBuiltin ev' (e + base.layers.size) b args) (Value.Moved base) := by
  have hargument (c : Node) : Relocates base count (argument ev e b c)
      (argument ev' (e + base.layers.size) b c) (Value.Moved base) := by
    refine (hev count c e he).attempt.bind fun n r r' _ hr => ?_
    cases hr with
    | ok hv => exact .pure fun m hm => hv.mono hm
    | error herr =>
      obtain rfl := herr
      exact (Relocates.record _).bind_same fun _ => relocates_nothing
  refine (Relocates.each (fun hmn h => h.mono hmn) fun c _ => hargument c).bind
    fun n vs vs' _ hvs => ?_
  obtain ⟨-, rfl⟩ := forall₂_moved hvs
  exact relocates_runBuiltin b vs

theorem relocates_callFunction (he : e < count) {f : Function} (hf : f.Framed count)
    (args : List Node) :
    Relocates base count (callFunction ev e f args)
      (callFunction ev' (e + base.layers.size) (f.shift base.offset) args)
      (Value.Moved base) := by
  have henter : Relocates base count (enterFunction ev e f args)
      (enterFunction ev' (e + base.layers.size) (f.shift base.offset) args)
      (MovedLayer base) := by
    unfold enterFunction
    rw [Function.name_shift, Function.params_shift]
    split
    · exact .raise _
    · refine (relocates_calleeLayer he hf).bind fun n l l' hn hl => ?_
      obtain ⟨hlt, rfl⟩ := hl
      have hbound : (Value.function f).Framed n := Value.framed_function (hf.mono hn)
      refine (Relocates.bindName l f.name hbound.moved).bind_same fun _ => ?_
      refine Relocates.bind_same (Relocates.forAll (List.forall₂_same.mpr fun _ _ => rfl) ?_)
        fun _ => ?_
      · rintro ⟨param, c⟩ _ m hm rfl
        refine (hev m c e (Nat.lt_of_lt_of_le he (Nat.le_trans hn hm))).bind
          fun k v v' _ hv => ?_
        exact Relocates.bindName l param hv
      · exact (Relocates.record _).bind_same fun _ =>
          .pure fun m hm => ⟨Nat.lt_of_lt_of_le hlt hm, rfl⟩
  refine henter.bind fun n l l' _ hl => ?_
  obtain ⟨hlt, rfl⟩ := hl
  exact hev n f.body l hlt

theorem relocates_call (he : e < count) (cs : List Node) :
    Relocates base count (call ev e cs) (call ev' (e + base.layers.size) cs)
      (Value.Moved base) := by
  unfold call
  split
  · refine (Relocates.expectIdent _).bind_same fun name => ?_
    refine (Relocates.builtin? he name).bind_same fun b => ?_
    split
    · exact relocates_callBuiltin hev he _ _
    · refine (Relocates.lookup? he name).bind fun n o o' hn ho => ?_
      cases ho with
      | none => exact .raise _
      | @some v _ hv =>
        obtain ⟨hframed, rfl⟩ := hv
        cases v with
        | function f =>
          exact relocates_callFunction hev (Nat.lt_of_lt_of_le he hn) hframed.function _
        | _ => exact .mismatch _ _
  · exact .misshapen

/-! ### Methods -/

/-- A call that has been resolved, and the same behind `base`. -/
structure MovedTarget (base : Store) (n : Nat) (t t' : MethodTarget) : Prop where
  receiver : t.receiver.Moved base n t'.receiver
  struct : t'.struct = t.struct.shift base.offset
  method : t.method.Framed n
  method' : t'.method = t.method.shift base.offset

omit hev in
theorem relocates_resolveMethod (he : e < count) (receiver method : String) :
    Relocates base count (resolveMethod e receiver method)
      (resolveMethod (e + base.layers.size) receiver method) (MovedTarget base) := by
  unfold resolveMethod
  refine (Relocates.lookup? he receiver).bind fun n o o' hn ho => ?_
  replace he := Nat.lt_of_lt_of_le he hn
  cases ho with
  | none => exact .raise _
  | @some v _ hv =>
    have hreceiver := hv
    obtain ⟨-, rfl⟩ := hv
    cases v with
    | object name fields =>
      refine (Relocates.lookup? he name).bind fun m o o' hm ho => ?_
      cases ho with
      | none => exact .raise _
      | @some u _ hu =>
        obtain ⟨-, rfl⟩ := hu
        cases u with
        | struct r =>
          refine (Relocates.method? r method).bind fun k o o' hk ho => ?_
          cases ho with
          | none => exact .raise _
          | some hf =>
            obtain ⟨hframed, rfl⟩ := hf
            exact .pure fun i hi => ⟨hreceiver.mono (Nat.le_trans hm (Nat.le_trans hk hi)), rfl,
              hframed.mono hi, rfl⟩
        | _ => exact .raise _
    | _ => exact .raise _

theorem relocates_runMethod (he : e < count) {t t' : MethodTarget}
    (ht : MovedTarget base count t t') (binding : MethodArgs) (names : List String)
    (args : List Node) :
    Relocates base count (runMethod ev e t binding names args)
      (runMethod ev' (e + base.layers.size) t' binding names args) (Value.Moved base) := by
  obtain ⟨receiver, struct, method⟩ := t
  obtain ⟨receiver', _, _⟩ := t'
  obtain ⟨hreceiver, rfl, hmethod, rfl⟩ := ht
  have henter : Relocates base count
      (enterMethod ev e ⟨receiver, struct, method⟩ binding names args)
      (enterMethod ev' (e + base.layers.size)
        ⟨receiver', struct.shift base.offset, method.shift base.offset⟩ binding names args)
      (MovedLayer base) := by
    unfold enterMethod
    refine (Relocates.spawn he (p := some e) fun q hq => by cases hq; exact he).bind
      fun n scratch _ hn hscratch => ?_
    obtain ⟨hlt, rfl⟩ := hscratch
    refine (Relocates.each (fun hmn h => h.mono hmn) fun c _ => hev n c scratch hlt).bind
      fun m vs vs' hm hvs => ?_
    have hcount := Nat.le_trans hn hm
    refine (relocates_calleeLayer (Nat.lt_of_lt_of_le he hcount) (hmethod.mono hcount)).bind
      fun k callee _ hk hcallee => ?_
    obtain ⟨hlt, rfl⟩ := hcallee
    have hself := hreceiver.mono (Nat.le_trans hcount hk)
    refine (Relocates.bindName callee "self" hself).bind_same fun _ => ?_
    refine Relocates.bind_same (Relocates.forAll (forall₂_zip names hvs) ?_) fun _ => ?_
    · rintro ⟨x, v⟩ ⟨y, v'⟩ i hi ⟨hname, hv⟩
      obtain rfl : y = x := hname
      exact Relocates.bindName callee y (hv.mono (Nat.le_trans hk hi))
    · exact (Relocates.record _).bind_same fun _ =>
        .pure fun i hi => ⟨Nat.lt_of_lt_of_le hlt hi, rfl⟩
  refine henter.bind fun n l l' _ hl => ?_
  obtain ⟨hlt, rfl⟩ := hl
  exact hev n method.body l hlt

theorem relocates_callMethod (he : e < count) {t t' : MethodTarget}
    (ht : MovedTarget base count t t') (args : List Node) :
    Relocates base count (callMethod ev e t args) (callMethod ev' (e + base.layers.size) t' args)
      (Value.Moved base) := by
  unfold callMethod
  rw [ht.struct, ht.method']
  refine (Relocates.configOf e).bind_same fun c => ?_
  split
  · exact relocates_runMethod hev he ht _ _ _
  · dsimp only
    rw [Function.name_shift, Function.params_shift, StructRef.name_shift]
    split
    · exact .raise _
    · exact relocates_runMethod hev he ht _ _ _

theorem relocates_getFunc (he : e < count) (cs : List Node) :
    Relocates base count (getFunc ev e cs) (getFunc ev' (e + base.layers.size) cs)
      (Value.Moved base) := by
  unfold getFunc
  split
  · refine (Relocates.expectIdent _).bind_same fun receiver => ?_
    refine (Relocates.expectIdent _).bind_same fun method => ?_
    refine (relocates_resolveMethod he receiver method).bind fun n t t' hn ht => ?_
    exact relocates_callMethod hev (Nat.lt_of_lt_of_le he hn) ht _
  · exact .misshapen

/-! ### Structs -/

/-- Slots, and the same behind `base`. -/
structure MovedFields (base : Store) (n : Nat) (fields fields' : Bindings Value) : Prop where
  framed : ∀ q ∈ fields, q.2.Framed n
  shift : fields' = fields.map (Prod.map id (Value.shift base.offset))

theorem relocates_pair (he : e < count) (n : Node) :
    Relocates base count (pair ev e n) (pair ev' (e + base.layers.size) n)
      fun k q q' => q'.1 = q.1 ∧ q.2.Moved base k q'.2 := by
  unfold pair
  split
  · split
    · refine (Relocates.expectIdent _).bind_same fun key => ?_
      refine (hev count _ e he).bind fun k v v' _ hv => ?_
      exact .pure fun m hm => ⟨rfl, hv.mono hm⟩
    · exact .misshapen
  · exact .raise _

theorem relocates_slots (declared : List String) : ∀ (cs : List Node) {count : Nat}
    {filled filled' : Bindings Value}, e < count → MovedFields base count filled filled' →
    Relocates base count (slots ev e declared filled cs)
      (slots ev' (e + base.layers.size) declared filled' cs) (MovedFields base)
  | [], _, _, _, _, hfilled =>
    .pure fun _ hn => ⟨fun q hq => (hfilled.framed q hq).mono hn, hfilled.shift⟩
  | c :: rest, _, filled, _, he, hfilled => by
    refine (relocates_pair hev he c).bind fun n q q' hn hq => ?_
    obtain ⟨key, v⟩ := q
    obtain ⟨key', v'⟩ := q'
    obtain ⟨hkey, hmoved⟩ := hq
    obtain rfl : key' = key := hkey
    obtain ⟨hv, rfl⟩ : v.Moved base n v' := hmoved
    refine relocates_slots declared rest (Nat.lt_of_lt_of_le he hn) ?_
    obtain ⟨hframed, rfl⟩ := hfilled
    split
    · refine ⟨fun q hq => ?_, Bindings.put_map _ _ _ _⟩
      obtain hq | rfl := Bindings.mem_put hq
      · exact (hframed q hq).mono hn
      · exact hv
    · exact ⟨fun q hq => (hframed q hq).mono hn, rfl⟩

theorem relocates_callStruct (he : e < count) (cs : List Node) :
    Relocates base count (callStruct ev e cs) (callStruct ev' (e + base.layers.size) cs)
      (Value.Moved base) := by
  unfold callStruct
  split
  · refine (Relocates.expectIdent _).bind_same fun name => ?_
    refine (relocates_lookupStruct he name).bind fun n r r' hn hr => ?_
    obtain rfl := hr
    refine (relocates_slots hev r.fields _ (Nat.lt_of_lt_of_le he hn)
      ⟨List.forall_mem_nil _, rfl⟩).bind fun m fields fields' _ hfields => ?_
    obtain ⟨hframed, rfl⟩ := hfields
    rw [← Value.shift_object]
    exact .pure fun k hk => (Value.framed_object hframed).moved.mono hk
  · exact .misshapen

/-! ### Lists and ranges -/

theorem relocates_list (he : e < count) (cs : List Node) :
    Relocates base count (list ev e cs) (list ev' (e + base.layers.size) cs)
      (Value.Moved base) := by
  refine (Relocates.each (fun hmn h => h.mono hmn) fun c _ => hev count c e he).bind
    fun n vs vs' _ hvs => ?_
  obtain ⟨hframed, rfl⟩ := forall₂_moved hvs
  rw [← Value.shift_list]
  exact .pure fun m hm => (Value.framed_list hframed).moved.mono hm

theorem relocates_range (he : e < count) (cs : List Node) :
    Relocates base count (range ev e cs) (range ev' (e + base.layers.size) cs)
      (Value.Moved base) := by
  unfold range
  split
  · refine (hev count _ e he).bind fun n a a' hn ha => ?_
    refine (hev n _ e (Nat.lt_of_lt_of_le he hn)).bind fun m b b' _ hb => ?_
    obtain ⟨-, rfl⟩ := ha
    obtain ⟨-, rfl⟩ := hb
    cases a with
    | number x =>
      cases b with
      | number y => exact .pure fun _ _ => (Value.Inert.range _ _).moved
      | _ => exact .mismatch _ _
    | _ => exact .mismatch _ _
  · exact .misshapen

section Items

variable {items : List Value} (hitems : ∀ v ∈ items, v.Framed count)

omit hev

theorem relocates_refuseIndex (name : String) (i : Int) :
    Relocates base count (refuseIndex name i) (refuseIndex name i) (Value.Moved base) := by
  unfold refuseIndex
  split
  · exact .raise _
  · exact .fail _

include hitems

theorem relocates_itemAt (name : String) (x : Float) :
    Relocates base count (itemAt name items x)
      (itemAt name (items.map (Value.shift base.offset)) x) (Value.Moved base) := by
  unfold itemAt
  dsimp only
  rw [List.getElem?_map]
  split
  · split
    · exact relocates_refuseIndex name _
    · cases hget : items[(Number.truncate x).toNat]? with
      | none => exact relocates_refuseIndex name _
      | some v =>
        have hv : v.Framed count := hitems v (List.mem_of_getElem? hget)
        exact .pure fun n hn => hv.moved.mono hn
  · exact .raise _

theorem relocates_slice (name : String) (start stop : Int) :
    Relocates base count (slice name items start stop)
      (slice name (items.map (Value.shift base.offset)) start stop) (Value.Moved base) := by
  unfold slice
  dsimp only
  rw [List.length_map, ← List.map_drop, ← List.map_take]
  split
  · exact relocates_refuseIndex name _
  · split
    · exact relocates_refuseIndex name _
    · rw [← Value.shift_list]
      refine .pure fun n hn => (Value.framed_list fun v hv => ?_).moved
      exact (hitems v (List.mem_of_mem_drop (List.mem_of_mem_take hv))).mono hn

end Items

theorem relocates_index (he : e < count) (cs : List Node) :
    Relocates base count (index ev e cs) (index ev' (e + base.layers.size) cs)
      (Value.Moved base) := by
  unfold index
  split
  · refine (Relocates.expectIdent _).bind_same fun name => ?_
    refine (Relocates.lookup? he name).bind fun n o o' hn ho => ?_
    replace he := Nat.lt_of_lt_of_le he hn
    cases ho with
    | none => exact .raise _
    | @some v _ hv =>
      obtain ⟨hframed, rfl⟩ := hv
      cases v with
      | list items =>
        rw [Value.shift_list]
        refine (hev n _ e he).bind fun m i i' hm hi => ?_
        obtain ⟨-, rfl⟩ := hi
        have hitems : ∀ v ∈ items, v.Framed m := fun v hv =>
          Value.Framed.mono (hframed.item hv) hm
        cases i with
        | number x => exact relocates_itemAt hitems name x
        | range start stop => exact relocates_slice hitems name start stop
        | _ => exact .mismatch _ _
      | _ => exact .mismatch _ _
  · exact .misshapen

/-! ### Match -/

omit hev in
theorem relocates_arm (n : Node) : Relocates base count (arm n) (arm n) Unmoved := by
  unfold arm
  split
  · split
    · exact .pure fun _ _ => rfl
    · exact .misshapen
  · exact .raise _

theorem relocates_armBody (he : e < count) (body : Node) :
    Relocates base count (do ev body (← armLayer e))
      (do ev' body (← armLayer (e + base.layers.size))) (Value.Moved base) := by
  refine (relocates_armLayer he).bind fun n l l' _ hl => ?_
  obtain ⟨hlt, rfl⟩ := hl
  exact hev n body l hlt

theorem relocates_allArms (subject : Node) : ∀ (arms : List (Node × Node)) {count : Nat}
    {v v' : Value}, e < count → v.Moved base count v' →
    Relocates base count (allArms ev e subject v arms)
      (allArms ev' (e + base.layers.size) subject v' arms) (Value.Moved base)
  | [], _, _, _, _, hv => .pure fun _ hn => hv.mono hn
  | (pattern, body) :: rest, count, _, _, he, _ => by
    have hafter {n : Nat} (hn : count ≤ n) : Relocates base n
        (do let _ ← ev subject e; let v ← ev body (← armLayer e); allArms ev e subject v rest)
        (do let _ ← ev' subject (e + base.layers.size)
            let v ← ev' body (← armLayer (e + base.layers.size))
            allArms ev' (e + base.layers.size) subject v rest) (Value.Moved base) := by
      replace he := Nat.lt_of_lt_of_le he hn
      refine (hev n subject e he).bind fun m _ _ hm _ => ?_
      replace he := Nat.lt_of_lt_of_le he hm
      refine (relocates_armLayer he).bind fun k l l' hk hl => ?_
      obtain ⟨hlt, rfl⟩ := hl
      refine (hev k body l hlt).bind fun i v v' hi hv => ?_
      exact relocates_allArms subject rest (Nat.lt_of_lt_of_le he (Nat.le_trans hk hi)) hv
    unfold allArms
    refine (hev count pattern e he).attempt.bind fun n r r' hn hr => ?_
    cases hr with
    | ok _ => exact hafter hn
    | error herr =>
      obtain rfl := herr
      exact (Relocates.record _).bind_same fun _ => hafter hn

theorem relocates_takes (he : e < count) {v v' : Value} (hv : v' = v.shift base.offset)
    (pattern : Node) :
    Relocates base count (takes ev e v pattern) (takes ev' (e + base.layers.size) v' pattern)
      Unmoved := by
  unfold takes
  split
  · exact .pure fun _ _ => rfl
  · refine (hev count pattern e he).bind fun n u u' _ hu => ?_
    rw [hv, hu.shift, Value.matching_shift]
    exact .pure fun _ _ => rfl

theorem relocates_firstArm (he : e < count) {v v' : Value} (hv : v' = v.shift base.offset) :
    ∀ (arms : List (Node × Node)) (i : Nat),
    Relocates base count (firstArm ev e v i arms)
      (firstArm ev' (e + base.layers.size) v' i arms) (Value.Moved base)
  | [], _ => relocates_nothing
  | (pattern, body) :: rest, i => by
    unfold firstArm
    refine (relocates_takes hev he hv pattern).bind_same fun b => ?_
    split
    · exact (Relocates.record _).bind_same fun _ => relocates_armBody hev he body
    · exact relocates_firstArm he hv rest (i + 1)

theorem relocates_matching (he : e < count) (cs : List Node) :
    Relocates base count (matching ev e cs) (matching ev' (e + base.layers.size) cs)
      (Value.Moved base) := by
  unfold matching
  split
  · next subject cases =>
    refine (Relocates.each_same relocates_arm cases).bind_same fun arms => ?_
    refine (Relocates.configOf e).bind_same fun c => ?_
    split
    · refine (hev count subject e he).bind fun n v v' hn hv => ?_
      exact relocates_firstArm hev (Nat.lt_of_lt_of_le he hn) hv.shift arms 0
    · exact (Relocates.record _).bind_same fun _ =>
        relocates_allArms hev subject arms he Value.Inert.nothing.moved
  · exact .misshapen

/-! ### All nodes -/

theorem relocates_step (he : e < count) (limit : Nat) (n : Node) :
    Relocates base count (step limit ev n e) (step limit ev' n (e + base.layers.size))
      (Value.Moved base) := by
  unfold step
  split
  · exact relocates_token he _ _
  · unfold tree
    split
    · exact relocates_nothing
    · exact relocates_block hev _ he Value.Inert.nothing.moved
    · exact relocates_binop hev he _
    · exact relocates_conditional hev he _
    · exact relocates_conditional hev he _
    · exact relocates_assign hev he _
    · exact relocates_setVar hev he _
    · exact relocates_inPlace hev he _
    · exact relocates_whileLoop hev he limit _
    · exact relocates_forLoop hev he _
    · exact relocates_funDef he _
    · exact relocates_call hev he _
    · exact relocates_list hev he _
    · exact relocates_index hev he _
    · exact relocates_range hev he _
    · exact relocates_structDef e _
    · exact relocates_callStruct hev he _
    · exact relocates_getAttr he _
    · exact relocates_impl he _
    · exact relocates_getFunc hev he _
    · exact relocates_matching hev he _
    · exact .raise _
  · exact .raise _

end Handlers

/-! ## Evaluation -/

/-- A moment at which something is evaluated in a layer that there is, in a store that is grounded
before and after, and the value that has come of it refers to layers that there are. -/
structure Store.GroundedAt (e : LayerId) (s : Store) (o : Outcome Value) : Prop where
  layer : e < s.layers.size
  before : s.Grounded
  grows : s.layers.size ≤ o.2.layers.size
  after : o.2.Grounded
  value : ∀ v, o.1 = .ok v → v.Framed o.2.layers.size

section Evaluation

variable {base : Store} {count : Nat} {e : LayerId} {s : Store}

theorem Relocates.groundedAt {x y : Eval Value} (h : Relocates base count x y (Value.Moved base))
    (he : e < count) (hs : count ≤ s.layers.size) (hg : s.Grounded) : s.GroundedAt e (x s) := by
  have hlt := Nat.lt_of_lt_of_le he hs
  obtain ⟨t, hsize, hgt, ⟨v, v', hx, -, hv⟩ | ⟨f, hx, -⟩⟩ := (h s hs hg).cases
  · rw [hx]
    exact ⟨hlt, hg, hsize, hgt, by rintro _ ⟨⟩; exact hv.framed⟩
  · rw [hx]
    exact ⟨hlt, hg, hsize, hgt, by rintro _ ⟨⟩⟩

/-- Evaluation that is watched for what happens at no moment of a grounded store. -/
theorem relocates_evalWatching (base : Store) {p : Watch}
    (hp : ∀ d n l s o, s.GroundedAt l o → ¬p d n l s o) (limit : Nat) :
    ∀ depth, RelocatesNodes base (evalWatching p limit depth) (evalNode limit depth) := by
  have hwatched {d : Nat} {n : Node} {count : Nat} {e : LayerId} {x y : Eval Value} (he : e < count)
      (h : Relocates base count x y (Value.Moved base)) :
      Relocates base count (watched (p d n e) x) y (Value.Moved base) := by
    intro s hs hg
    rw [watched_of_not (hp d n e s _ (h.groundedAt he hs hg))]
    exact h s hs hg
  intro depth
  induction depth with
  | zero => exact fun count n e he => hwatched he (.fail _)
  | succ depth ih =>
    exact fun count n e he => hwatched he ((relocates_step ih he limit n).located n)

theorem relocates_evalNode (base : Store) (limit depth : Nat) :
    RelocatesNodes base (evalNode limit depth) (evalNode limit depth) := by
  have hnever : evalWatching (fun _ _ _ _ _ => False) limit depth = evalNode limit depth :=
    evalWatching_of_never limit depth fun _ _ _ _ _ _ => id
  have h := relocates_evalWatching base (p := fun _ _ _ _ _ => False) (fun _ _ _ _ _ _ => id) limit
    depth
  rwa [hnever] at h

/-- What is evaluated leaves a grounded store grounded. -/
theorem groundedAt_evalNode (hs : s.Grounded) (limit depth : Nat) (n : Node)
    (he : e < s.layers.size) : s.GroundedAt e (evalNode limit depth n e s) :=
  (relocates_evalNode .empty limit depth _ n e he).groundedAt he (Nat.le_refl _) hs

/-- What is never so in a grounded store happens at no moment. -/
theorem not_happens_of_grounded (hs : s.Grounded) {p : Watch}
    (hp : ∀ d n l s o, s.GroundedAt l o → ¬p d n l s o) (limit depth : Nat) (n : Node)
    (he : e < s.layers.size) : ¬Happens p limit depth n e s := by
  have hwatched := relocates_evalWatching .empty hp limit depth _ n e he { s with log := #[] }
    (Nat.le_refl _) (hs.of_layers rfl rfl)
  have hlog : (evalWatching p limit depth n e { s with log := #[] }).2.log = _ :=
    (congrArg Store.log hwatched.store).symm
  rw [Happens, hlog]
  exact Policy.quiet_evalNode limit depth n _ (Array.not_mem_empty _)

/-- Behind another store an evaluation comes to the same value, shifted, or to the same error, and
leaves the same store behind the other one. -/
theorem evalNode_append (base : Store) (hs : s.Grounded) (limit depth : Nat) (n : Node)
    (he : e < s.layers.size) :
    evalNode limit depth n (e + base.layers.size) (base.append s) =
      ((evalNode limit depth n e s).1.map (Value.shift base.offset),
        base.append (evalNode limit depth n e s).2) := by
  obtain ⟨t, -, -, ⟨v, v', hx, hy, hv⟩ | ⟨f, hx, hy⟩⟩ :=
    (relocates_evalNode base limit depth _ n e he s (Nat.le_refl _) hs).cases
  · rw [hx, hy, hv.shift]
    rfl
  · rw [hx, hy]
    rfl

end Evaluation

end Tern
