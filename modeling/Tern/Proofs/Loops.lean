import Tern.Proofs.Bodies
import Tern.Proofs.Integers

/-!
# Turns of a loop

A `for` loop runs through the items that the value of its iterable has (`Items`): those of a list,
or the integers of a range, which are doubles up to 2⁵³. They are fixed when the first turn starts,
so nothing that a body does to a name or to the value's source is seen by the loop. A turn binds the
loop's name in the layer that the loop stands in and then evaluates the body (`Turn`), and the loop
is one turn for each item, in order (`Turns`), or the turns up to the first that fails (`Fails`).
Each loop is one or the other (`turns_or_fails`), and the two say all about its outcome
(`overItems_of_turns`, `overItems_of_fails`).
-/

namespace Tern

open Eval Number

/-! ## Items -/

/-- What a loop can run through: a list, or a range whose integers are doubles. -/
inductive Iterable : Value → Prop
  | list (items : List Value) : Iterable (.list items)
  | range {start stop : Int} (hstart : start.natAbs ≤ 2 ^ 53) (hstop : stop.natAbs ≤ 2 ^ 53) :
      Iterable (.range start stop)

/-- A value is an integer as a number. -/
inductive IsInteger (i : Int) : Value → Prop
  | number {x : Float} (hx : Exactly x i) : IsInteger i (.number x)

/-- The values that a loop runs through, in order. -/
inductive Items : Value → List Value → Prop
  | list (items : List Value) : Items (.list items) items
  | range {start stop : Int} {items : List Value}
      (h : List.Forall₂ IsInteger (Int.range start stop) items) : Items (.range start stop) items

theorem ofInt?_of_exactly {x : Float} {i : Int} (h : Exactly x i) (hi : i.natAbs ≤ 2 ^ 53) :
    ofInt? i = some x := by
  obtain ⟨y, hy, hexact⟩ := exists_exactly hi
  rw [hy, hexact.unique h]

theorem exists_integers : ∀ {is : List Int}, (∀ i ∈ is, i.natAbs ≤ 2 ^ 53) →
    ∃ items, List.Forall₂ IsInteger is items
  | [], _ => ⟨[], .nil⟩
  | i :: is, h => by
      obtain ⟨x, -, hx⟩ := exists_exactly (h i (List.mem_cons_self ..))
      obtain ⟨items, hitems⟩ := exists_integers fun j hj => h j (List.mem_cons_of_mem _ hj)
      exact ⟨.number x :: items, .cons (.number hx) hitems⟩

/-- The integers of a range lie between its ends. -/
theorem natAbs_le_of_mem_range {start stop i : Int} {n : Nat} (hstart : start.natAbs ≤ n)
    (hstop : stop.natAbs ≤ n) (hi : i ∈ Int.range start stop) : i.natAbs ≤ n := by
  have hbounds := Int.mem_range_iff.mp hi
  omega

theorem Iterable.exists_items {v : Value} (h : Iterable v) : ∃ items, Items v items := by
  cases h with
  | list items => exact ⟨items, .list items⟩
  | range hstart hstop =>
    obtain ⟨items, hitems⟩ := exists_integers fun i => natAbs_le_of_mem_range hstart hstop
    exact ⟨items, .range hitems⟩

theorem range_add_one (i : Int) (n : Nat) :
    Int.range i (i + (n + 1 : Nat)) = i :: Int.range (i + 1) (i + 1 + n) := by
  have hcount : (i + ((n + 1 : Nat) : Int) - i).toNat = n + 1 := by omega
  have hrest : (i + 1 + (n : Int) - (i + 1)).toNat = n := by omega
  rw [Int.range, Int.range, hcount, hrest, List.range_succ_eq_map, List.map_cons, List.map_map]
  refine congrArg₂ List.cons (by simp) (List.map_congr_left fun k _ => ?_)
  simp only [Function.comp_apply]
  omega

/-! ## Turns -/

section Turns

variable (limit depth : Nat) (e : LayerId) (x : String) (body : Node)

/-- A turn starts with the item bound to the loop's name in the layer of the loop itself, and ends
as the body does. -/
structure Turn (s : Store) (item : Value) (outcome : Outcome Value) : Prop where
  bound : ((s.bind e x item).bindings e).get? x = some item
  evaluated : evalNode limit depth body e (s.bind e x item) = outcome

/-- One turn for each item, in order, and what the bodies come to. -/
inductive Turns : Store → List Value → List Value → Store → Prop
  | nil (s : Store) : Turns s [] [] s
  | cons {s s₁ s₂ : Store} {item r : Value} {items results : List Value}
      (hturn : Turn limit depth e x body s item (.ok r, s₁)) (hrest : Turns s₁ items results s₂) :
      Turns s (item :: items) (r :: results) s₂

/-- One turn for each item up to one whose body fails. The items after it have none. -/
inductive Fails (s : Store) : List Value → Failure → Store → Prop
  | intro {before after results : List Value} {item : Value} {f : Failure} {s₁ s₂ : Store}
      (hbefore : Turns limit depth e x body s before results s₁)
      (hturn : Turn limit depth e x body s₁ item (.error f, s₂)) :
      Fails s (before ++ item :: after) f s₂

variable {limit depth : Nat} {e : LayerId} {x : String} {body : Node}

theorem turns_or_fails : ∀ (items : List Value) {s : Store}, e < s.layers.size →
    (∃ results u, Turns limit depth e x body s items results u) ∨
      ∃ f u, Fails limit depth e x body s items f u
  | [], s, _ => .inl ⟨[], s, .nil s⟩
  | item :: items, s, he => by
      have hbound : ((s.bind e x item).bindings e).get? x = some item := by
        rw [s.bindings_bind_self x item he, Bindings.get?_put, if_pos rfl]
      have hsize := (Policy.links_evalNode limit depth body e (s.bind e x item)).size
      rw [s.size_bind] at hsize
      rcases hbody : evalNode limit depth body e (s.bind e x item) with ⟨f | r, s₁⟩
      · have hfirst : Fails limit depth e x body s ([] ++ item :: items) f s₁ :=
          .intro (.nil s) ⟨hbound, hbody⟩
        exact .inr ⟨f, s₁, hfirst⟩
      · rw [hbody] at hsize
        obtain ⟨results, u, hrest⟩ | ⟨f, u, hrest⟩ :=
          turns_or_fails items (Nat.lt_of_lt_of_le he hsize)
        · exact .inl ⟨r :: results, u, .cons ⟨hbound, hbody⟩ hrest⟩
        · obtain ⟨hbefore, hturn⟩ := hrest
          exact .inr ⟨f, u, .intro (.cons ⟨hbound, hbody⟩ hbefore) hturn⟩

theorem Turn.apply {s : Store} {item : Value} {outcome : Outcome Value}
    (h : Turn limit depth e x body s item outcome) : turn limit depth e x body item s = outcome :=
  h.evaluated

theorem overItems_cons {s s₁ : Store} {last item r : Value} {items : List Value}
    (h : Turn limit depth e x body s item (.ok r, s₁)) :
    overItems (turn limit depth e x body) last (item :: items) s =
      overItems (turn limit depth e x body) r items s₁ := by
  rw [overItems, bind_apply, h.apply]

theorem overItems_append {s u : Store} {before after results : List Value}
    (h : Turns limit depth e x body s before results u) (last : Value) :
    overItems (turn limit depth e x body) last (before ++ after) s =
      overItems (turn limit depth e x body) (results.getLast?.getD last) after u := by
  induction h generalizing last with
  | nil s => rfl
  | cons hturn _ ih =>
    rw [List.cons_append, overItems_cons hturn, ih, List.getLast?_cons]
    rfl

/-- The last body's value counts. -/
theorem overItems_of_turns {s u : Store} {items results : List Value}
    (h : Turns limit depth e x body s items results u) (last : Value) :
    overItems (turn limit depth e x body) last items s = (.ok (results.getLast?.getD last), u) := by
  rw [← items.append_nil, overItems_append h]
  rfl

/-- The turns before the one that fails have taken place, and none after it does. -/
theorem overItems_of_fails {s u : Store} {items : List Value} {f : Failure}
    (h : Fails limit depth e x body s items f u) (last : Value) :
    overItems (turn limit depth e x body) last items s = (.error f, u) := by
  obtain ⟨hbefore, hturn⟩ := h
  rw [overItems_append hbefore, overItems, bind_apply, hturn.apply]

end Turns

/-! ## Loops -/

theorem range_toNat (start stop : Int) :
    Int.range start (start + (stop - start).toNat) = Int.range start stop := by
  rw [Int.range, Int.range, add_sub_cancel_left, Int.toNat_natCast]

/-- A range is run through as a list of its integers would be. -/
theorem overRange_eq (turn : Value → Eval Value) : ∀ {n : Nat} {i : Int} {items : List Value},
    (∀ j ∈ Int.range i (i + n), j.natAbs ≤ 2 ^ 53) →
    List.Forall₂ IsInteger (Int.range i (i + n)) items → ∀ last,
    overRange (wholeTurn turn) last n i = overItems turn last items
  | 0, i, items, _, h, last => by
      have hnone : Int.range i (i + (0 : Nat)) = [] := by simp [Int.range]
      rw [hnone] at h
      cases h
      rfl
  | n + 1, i, items, hbound, h, last => by
      rw [range_add_one] at h hbound
      obtain _ | ⟨⟨hx⟩, hrest⟩ := h
      have hi := ofInt?_of_exactly hx (hbound i (List.mem_cons_self ..))
      rw [overRange, overItems, wholeTurn, hi]
      refine congrArg _ (funext fun r => ?_)
      exact overRange_eq turn (fun j hj => hbound j (List.mem_cons_of_mem _ hj)) hrest r

theorem forLoop_of_items {limit depth : Nat} {e : LayerId} {s s₁ : Store}
    {target iterable body : Node} {x : String} {v : Value} {items : List Value}
    (hx : target.identName? = some x) (hv : evalNode limit depth iterable e s = (.ok v, s₁))
    (hiter : Iterable v) (hitems : Items v items) :
    forLoop (evalNode limit depth) e [target, iterable, body] s =
      overItems (turn limit depth e x body) .nothing items s₁ := by
  rw [forLoop, expectIdent_eq hx]
  simp only [bind_apply, pure_apply, hv]
  cases hitems with
  | list => rfl
  | range hintegers =>
    cases hiter with
    | range hstart hstop =>
      rw [← range_toNat] at hintegers
      refine congrFun (overRange_eq _ (fun j hj => ?_) hintegers _) s₁
      rw [range_toNat] at hj
      exact natAbs_le_of_mem_range hstart hstop hj

/-- A loop over a list, or over a range up to 2⁵³ from zero, has its items fixed by what its
iterable came to. If no body fails there is one turn for each, in order, and the last body's value
counts; without an item the loop is nothing and leaves the store as the iterable has left it. If a
body fails, the turns before it have taken place and no later item has a turn. -/
theorem evalNode_forLoop {n target iterable body : Node} {pos : Option Pos}
    (hn : n = .tree .forLoop [target, iterable, body] pos) {x : String}
    (hx : target.identName? = some x) {limit depth : Nat} {e : LayerId} {s s₁ : Store} {v : Value}
    (hv : evalNode limit depth iterable e s = (.ok v, s₁)) (hiter : Iterable v)
    (he : e < s.layers.size) :
    ∃ items, Items v items ∧
      ((∃ results u, Turns limit depth e x body s₁ items results u ∧
        evalNode limit (depth + 1) n e s = (.ok (results.getLast?.getD .nothing), u)) ∨
      ∃ f u, Fails limit depth e x body s₁ items f u ∧
        evalNode limit (depth + 1) n e s = (.error (f.at n.position?), u)) ∧
      (items = [] → evalNode limit (depth + 1) n e s = (.ok .nothing, s₁)) := by
  obtain rfl := hn
  obtain ⟨items, hitems⟩ := hiter.exists_items
  have hloop : forLoop (evalNode limit depth) e [target, iterable, body] s = _ :=
    forLoop_of_items hx hv hiter hitems
  have hlinks := Policy.links_evalNode limit depth iterable e s
  rw [hv] at hlinks
  refine ⟨items, hitems, ?_, fun hnone => ?_⟩
  · obtain ⟨results, u, hturns⟩ | ⟨f, u, hfails⟩ :=
      turns_or_fails items (Nat.lt_of_lt_of_le he hlinks.size)
    · exact .inl ⟨results, u, hturns, located_eq_ok.mpr (hloop.trans (overItems_of_turns hturns _))⟩
    · exact .inr ⟨f, u, hfails, located_error _ (hloop.trans (overItems_of_fails hfails _))⟩
  · obtain rfl := hnone
    exact located_eq_ok.mpr hloop

/-- The tree of `{ r = i; i = []; r }`. -/
def overwrites : Node :=
  .tree .block [.tree .setVar [.token .ident "r" none, .token .ident "i" none] none,
    .tree .setVar [.token .ident "i" none, .tree .list [] none] none,
    .token .ident "r" none] none

/-- The loop `for i in r { r = i; i = []; r }` overwrites the range that it runs through and its own
name, and has a turn for each integer of the range all the same. -/
theorem evalNode_forLoop_overwrites :
    let s := (Store.root {}).bind 0 "r" (.range 0 2)
    let n := Node.tree .forLoop [.token .ident "i" none, .token .ident "r" none, overwrites] none
    ∃ items results u, Items (.range 0 2) items ∧
      Turns turnLimit 9 0 "i" overwrites s items results u ∧
      evalNode turnLimit 10 n 0 s = (.ok (results.getLast?.getD .nothing), u) ∧
      (u.lookup? 0 "i").map Value.echo = some (.ok "[]") := by
  intro s n
  have hrange : evalNode turnLimit 9 (.token .ident "r" none) 0 s = (.ok (.range 0 2), s) := rfl
  have hok : (evalNode turnLimit 10 n 0 s).1.isOk = true := by decide +kernel
  have hname : ((evalNode turnLimit 10 n 0 s).2.lookup? 0 "i").map Value.echo =
      some (.ok "[]") := by
    decide +kernel
  obtain ⟨items, hitems, ⟨results, u, hturns, hloop⟩ | ⟨f, u, -, hloop⟩, -⟩ :=
    evalNode_forLoop (n := n) rfl rfl hrange (.range (by decide) (by decide)) (by decide)
  · rw [hloop] at hname
    exact ⟨items, results, u, hitems, hturns, hloop, hname⟩
  · rw [hloop] at hok
    cases hok

end Tern
