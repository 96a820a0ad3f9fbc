import Tern.Eval.Node
import Tern.Proofs.Layers
import Tern.Proofs.Logic

/-!
# Building instances

An instance is built of a struct definition and of pairs, whose values are evaluated in the layer
of the building one after the other (`Given`), up to the first that fails (`BreaksOff`). What is
given for the declared keys is kept, as `StructRef.Keeps` says, and what is given for other keys is
not. The definition is looked up before any of the values is evaluated, so it does not matter what
they do to the name of the struct (`evalNode_callStruct`).
-/

namespace Tern

open Eval

/-- A key and its value, if the node has the shape of a pair. -/
def Node.pair? : Node → Option (String × Node)
  | tree .pair [key, value] _ => key.identName?.map (·, value)
  | _ => none

namespace StructRef

/-- The value of a declared key is the last one that is given for it. -/
def kept? (r : StructRef) (given : List (String × Value)) (key : String) : Option Value :=
  if key ∈ r.fields then given.reverse.lookup key else none

/-- The slots are what a definition keeps of keys and their values: the declared keys that occur,
each once, in the order in which they occur first. -/
structure Keeps (r : StructRef) (given : List (String × Value)) (slots : List (String × Value)) :
    Prop where
  names : Bindings.names slots = ((given.map (·.1)).filter (· ∈ r.fields)).eraseDups
  nodup : (Bindings.names slots).Nodup
  value : ∀ key, Bindings.get? slots key = r.kept? given key

end StructRef

/-- Wherever and whenever a name is bound to the value, the attributes of the name are these, and
it has no others. -/
def Value.HasAttributes (v : Value) (attribute? : String → Option Value) : Prop :=
  ∀ (limit depth : Nat) (x attr : Node) (pos : Option Pos) (name key : String) (l : LayerId)
    (t : Store), x.identName? = some name → attr.identName? = some key →
    t.lookup? l name = some v →
    let n := Node.tree .getAttr [x, attr] pos
    (∀ w, attribute? key = some w → evalNode limit (depth + 1) n l t = (.ok w, t)) ∧
    (attribute? key = none → evalNode limit (depth + 1) n l t =
      (.error (.raised ⟨.attributeNotFound key, n.position?⟩), t))

/-! ## Pairs in turn -/

namespace Eval

variable (ev : Evaluator) (e : LayerId)

/-- The values of the pairs are evaluated, one after the other, and these are the keys and what
their values come to. -/
inductive Given : List Node → List (String × Value) → Store → Store → Prop
  | nil {s : Store} : Given [] [] s s
  | cons {n value : Node} {key : String} {v : Value} {pairs : List Node}
      {given : List (String × Value)} {s s₁ s₂ : Store} (hn : n.pair? = some (key, value))
      (hv : ev value e s = (.ok v, s₁)) (hrest : Given pairs given s₁ s₂) :
      Given (n :: pairs) ((key, v) :: given) s s₂

/-- The values of the pairs are evaluated, one after the other, up to one that fails. -/
inductive BreaksOff (s : Store) : List Node → Failure → Store → Prop
  | intro {before after : List Node} {n value : Node} {key : String}
      {given : List (String × Value)} {f : Failure} {s₁ s₂ : Store}
      (hbefore : Given ev e before given s s₁) (hn : n.pair? = some (key, value))
      (hv : ev value e s₁ = (.error f, s₂)) : BreaksOff s (before ++ n :: after) f s₂

variable {ev : Evaluator} {e : LayerId}

theorem given_or_breaksOff : ∀ {pairs : List Node} {s : Store},
    (∀ n ∈ pairs, n.pair?.isSome = true) →
      (∃ given u, Given ev e pairs given s u) ∨ ∃ f u, BreaksOff ev e s pairs f u
  | [], s, _ => .inl ⟨[], s, .nil⟩
  | n :: pairs, s, h => by
      obtain ⟨⟨key, value⟩, hn⟩ := Option.isSome_iff_exists.mp (h n (List.mem_cons_self ..))
      rcases hv : ev value e s with ⟨f | v, s₁⟩
      · have hfirst : BreaksOff ev e s ([] ++ n :: pairs) f s₁ := .intro .nil hn hv
        exact .inr ⟨f, s₁, hfirst⟩
      obtain ⟨given, u, hrest⟩ | ⟨f, u, hrest⟩ :=
        given_or_breaksOff (s := s₁) fun m hm => h m (List.mem_cons_of_mem _ hm)
      · exact .inl ⟨_, u, .cons hn hv hrest⟩
      · obtain ⟨hbefore, hm, hw⟩ := hrest
        exact .inr ⟨f, u, .intro (.cons hn hv hbefore) hm hw⟩

theorem pair_eq {n value : Node} {key : String} (h : n.pair? = some (key, value)) :
    pair ev e n = ev value e >>= fun v => pure (key, v) := by
  unfold Node.pair? at h
  split at h
  · next keyNode valueNode pos =>
    obtain ⟨name, hname, hpair⟩ := Option.map_eq_some_iff.mp h
    cases hpair
    simp only [pair, Node.label?, Node.children, if_true, expectIdent_eq hname]
    rfl
  · cases h

/-- What is given for declared keys is filled in, and then comes what is left. -/
theorem slots_of_given {pairs : List Node} {given : List (String × Value)} {s u : Store}
    (h : Given ev e pairs given s u) (declared : List String) (filled : Bindings Value)
    (rest : List Node) :
    slots ev e declared filled (pairs ++ rest) s =
      slots ev e declared (filled.putAll (given.filter (·.1 ∈ declared))) rest u := by
  induction h generalizing filled with
  | nil => rfl
  | @cons n value key v pairs given s s₁ s₂ hn hv hrest ih =>
      rw [List.cons_append, slots, pair_eq hn]
      simp only [bind_apply, pure_apply, hv, ih]
      by_cases hkey : key ∈ declared
      · rw [if_pos hkey, List.filter_cons_of_pos (by simpa using hkey)]
        rfl
      · rw [if_neg hkey, List.filter_cons_of_neg (by simpa using hkey)]

end Eval

/-! ## Slots -/

theorem StructRef.keeps_putAll (r : StructRef) (given : List (String × Value)) :
    r.Keeps given (Bindings.putAll [] (given.filter (·.1 ∈ r.fields))) where
  names := by
    have hnames := Bindings.names_putAll [] (given.filter (·.1 ∈ r.fields))
    rw [hnames, List.filter_map (l := given)]
    simp [Bindings.names, Function.comp_def]
  nodup := Bindings.nodup_names_putAll (b := []) .nil _
  value key := by
    rw [Bindings.get?_putAll, ← List.filter_reverse, Bindings.lookup_filter_key (· ∈ r.fields)]
    simp [StructRef.kept?]

/-! ## Instances and their attributes -/

namespace Eval

variable {ev : Evaluator} {e : LayerId} {s u : Store} {x : Node} {name : String} {r : StructRef}
  {pairs : List Node}

theorem lookupStruct_eq (hr : s.lookup? e name = some (.struct r)) :
    lookupStruct e name s = (.ok r, s) := by
  simp only [lookupStruct, bind_apply, lookup?, view, hr]
  rfl

theorem callStruct_of_given {given : List (String × Value)} (hx : x.identName? = some name)
    (hr : s.lookup? e name = some (.struct r)) (h : Given ev e pairs given s u) :
    callStruct ev e (x :: pairs) s =
      (.ok (.object name (Bindings.putAll [] (given.filter (·.1 ∈ r.fields)))), u) := by
  have hslots := slots_of_given h r.fields [] []
  rw [List.append_nil] at hslots
  rw [callStruct, expectIdent_eq hx]
  simp only [bind_apply, pure_apply, lookupStruct_eq hr, hslots]
  rfl

theorem callStruct_of_breaksOff {f : Failure} (hx : x.identName? = some name)
    (hr : s.lookup? e name = some (.struct r)) (h : BreaksOff ev e s pairs f u) :
    callStruct ev e (x :: pairs) s = (.error f, u) := by
  obtain ⟨hbefore, hn, hv⟩ := h
  rw [callStruct, expectIdent_eq hx]
  simp only [bind_apply, pure_apply, lookupStruct_eq hr, slots_of_given hbefore, slots, pair_eq hn,
    hv]

end Eval

/-- The attributes of an instance are its slots. -/
theorem Value.hasAttributes_object (structName : String) (slots : List (String × Value)) :
    (Value.object structName slots).HasAttributes (Bindings.get? slots) := by
  intro limit depth x attr pos name key l t hx hattr hv
  have hread : getAttr l [x, attr] t = ((Bindings.get? slots key).elim
      (.error (.raised ⟨.attributeNotFound key, none⟩)) .ok, t) := by
    rw [getAttr, expectIdent_eq hx, expectIdent_eq hattr]
    simp only [bind_apply, pure_apply, lookup?, view, hv]
    cases Bindings.get? slots key <;> rfl
  refine ⟨fun w hw => ?_, fun hnone => ?_⟩
  · rw [hw] at hread
    exact located_eq_ok.mpr hread
  · rw [hnone] at hread
    exact located_error _ hread

/-- When all values of the pairs are there, the instance has what the definition keeps of them,
whatever the name of the struct is bound to by then. When one fails there is no instance, and the
store is as that one has left it, coming after the others. There is no third case. -/
theorem evalNode_callStruct {x : Node} {name : String} (hx : x.identName? = some name)
    {pairs : List Node} (hpairs : ∀ n ∈ pairs, n.pair?.isSome = true) {e : LayerId} {s : Store}
    {r : StructRef} (hr : s.lookup? e name = some (.struct r)) (limit depth : Nat)
    (pos : Option Pos) :
    let n := Node.tree .callStruct (x :: pairs) pos
    let ev := evalNode limit depth
    (∀ given u, Given ev e pairs given s u → ∃ slots,
      evalNode limit (depth + 1) n e s = (.ok (.object name slots), u) ∧
        r.Keeps given slots ∧ (Value.object name slots).HasAttributes (r.kept? given)) ∧
    (∀ f u, BreaksOff ev e s pairs f u →
      evalNode limit (depth + 1) n e s = (.error (f.at n.position?), u)) ∧
    ((∃ given u, Given ev e pairs given s u) ∨ ∃ f u, BreaksOff ev e s pairs f u) := by
  refine ⟨fun given u h => ?_, fun f u h => located_error _ (callStruct_of_breaksOff hx hr h),
    given_or_breaksOff hpairs⟩
  have hkeeps := r.keeps_putAll given
  have hattributes := Value.hasAttributes_object name
    (Bindings.putAll [] (given.filter (·.1 ∈ r.fields)))
  rw [funext hkeeps.value] at hattributes
  exact ⟨_, located_eq_ok.mpr (callStruct_of_given hx hr h), hkeeps, hattributes⟩

/-- A root that binds `P` to a struct with the fields `a` and `b`. -/
def withP : Store :=
  ((Store.root {}).addStruct "P" ["a", "b"] []).1.bind 0 "P" (.struct ⟨0, "P", ["a", "b"]⟩)

/-- A pair without a position. -/
def Node.pairOf (key : String) (value : Node) : Node :=
  .tree .pair [.token .ident key none, value] none

/-- The pairs of `b: true, c: { P = true; false }, a: true, b: false`. -/
def pairsOverP : List Node :=
  [.pairOf "b" (.token .trueWord "true" none),
    .pairOf "c" (.tree .block [.tree .setVar [.token .ident "P" none,
      .token .trueWord "true" none] none, .token .falseWord "false" none] none),
    .pairOf "a" (.token .trueWord "true" none), .pairOf "b" (.token .falseWord "false" none)]

/-- A pair that is not kept takes the name from the struct, and the instance is one of it all the
same. When a further pair fails, the name is still taken. -/
theorem evalNode_callStruct_overP :
    (∃ (slots : List (String × Value)) (u : Store),
      evaluate (.tree .callStruct (.token .ident "P" none :: pairsOverP) none) 0 withP =
        (.ok (.object "P" slots), u) ∧
      Bindings.names slots = ["b", "a"] ∧ Bindings.get? slots "b" = some (.bool false) ∧
      Bindings.get? slots "c" = none ∧ u.lookup? 0 "P" = some (.bool true)) ∧
    ∃ u : Store, evaluate (.tree .callStruct (.token .ident "P" none ::
        (pairsOverP ++ [.pairOf "a" (.token .ident "q" none)])) none) 0 withP =
        (.error (.raised ⟨.variableNotFound "q", none⟩), u) ∧
      u.lookup? 0 "P" = some (.bool true) := by
  let q := Node.token .ident "q" none
  obtain ⟨u, hgiven, hq, hu⟩ : ∃ u, Given (evalNode turnLimit 999) 0 pairsOverP
      [("b", .bool true), ("c", .bool false), ("a", .bool true), ("b", .bool false)] withP u ∧
      evalNode turnLimit 999 q 0 u = (.error (.raised ⟨.variableNotFound "q", none⟩), u) ∧
      u.lookup? 0 "P" = some (.bool true) :=
    ⟨_, .cons rfl rfl (.cons rfl rfl (.cons rfl rfl (.cons rfl rfl .nil))), rfl, rfl⟩
  have hpairs : ∀ n ∈ pairsOverP ++ [.pairOf "a" q], n.pair?.isSome = true := by
    simp [pairsOverP, Node.pairOf, Node.pair?, Node.identName?]
  obtain ⟨hbuilt, -, -⟩ := evalNode_callStruct (x := .token .ident "P" none) rfl
    (fun n hn => hpairs n (List.mem_append_left _ hn)) (s := withP) (e := 0) rfl turnLimit 999 none
  obtain ⟨-, hbroken, -⟩ := evalNode_callStruct (x := .token .ident "P" none) rfl hpairs
    (s := withP) (e := 0) rfl turnLimit 999 none
  obtain ⟨slots, hrun, hkeeps, -⟩ := hbuilt _ u hgiven
  exact ⟨⟨slots, u, hrun, hkeeps.names, hkeeps.value "b", hkeeps.value "c", hu⟩, u,
    hbroken _ u (.intro hgiven rfl hq), hu⟩

end Tern
