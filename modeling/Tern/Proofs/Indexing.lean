import Tern.Eval.Node
import Tern.Proofs.Echoes
import Tern.Proofs.Logic
import Tern.Proofs.Order

/-!
# Indexing, slicing and ranges

A list is indexed by the whole part of a number, and an index that is not an item's is an error that
names it. Between minus one and zero that fails: there the number is refused for its sign, and the
error names the first item (`evalNode_index`).

A slice by a range has the items that the range counts, when the range starts at an item and stops
within the list or at its end, and a slice of a slice is a slice (`evalNode_slice`). Which list is
indexed is settled before the index is evaluated.

The ends of a range are whole parts, and in order when the numbers are, unless truncation has cut
down one of the two and not the other (`evalNode_range`).
-/

namespace Tern

open Eval Number

/-- Wherever and whenever a name is bound to the list and an index comes to `i`, what is found there
is `v`, and the store is as the index has left it. -/
def Indexes (items : List Value) (i v : Value) : Prop :=
  ∀ (limit depth : Nat) (x idx : Node) (pos : Option Pos) (name : String) (e : LayerId)
    (s u : Store), x.identName? = some name → s.lookup? e name = some (.list items) →
    evalNode limit depth idx e s = (.ok i, u) →
    evalNode limit (depth + 1) (.tree .index [x, idx] pos) e s = (.ok v, u)

/-- A number that indexes the item at `k`. -/
structure Points (p : Float) (k : Int) : Prop where
  finite : p.isFinite
  nonneg : ¬p < 0
  whole : truncate p = k

/-- A range starts at one of so many items and stops among them or at their end. -/
structure Spans (count : Nat) (start stop : Int) : Prop where
  nonneg : 0 ≤ start
  lt : start < count
  le : start ≤ stop
  stop_le : stop ≤ count

theorem Spans.shift {n m : Nat} {a b c d : Int} (h : Spans n a b) (hm : (m : Int) = b - a)
    (hin : Spans m c d) : Spans n (a + c) (a + d) := by
  obtain ⟨hnonneg, hlt, hle, hstop⟩ := h
  obtain ⟨hnonneg', hlt', hle', hstop'⟩ := hin
  exact ⟨by omega, by omega, by omega, by omega⟩

namespace Eval

variable {ev : Evaluator} {e : LayerId} {s u : Store} {x idx : Node} {name : String}
  {items : List Value}

section Index

variable (hx : x.identName? = some name) (hitems : s.lookup? e name = some (.list items))

include hx hitems

theorem index_of_number {p : Float} (hidx : ev idx e s = (.ok (.number p), u)) :
    index ev e [x, idx] s = itemAt name items p u := by
  rw [index, expectIdent_eq hx]
  simp only [bind_apply, pure_apply, lookup?, view, hitems, hidx]

theorem index_of_range {a b : Int} (hidx : ev idx e s = (.ok (.range a b), u)) :
    index ev e [x, idx] s = slice name items a b u := by
  rw [index, expectIdent_eq hx]
  simp only [bind_apply, pure_apply, lookup?, view, hitems, hidx]

end Index

/-! ## Items -/

theorem itemAt_of_item {p : Float} {k : Int} {v : Value} (h : Points p k)
    (hv : items[k.toNat]? = some v) : itemAt name items p u = (.ok v, u) := by
  rw [itemAt, if_pos h.finite]
  simp only [h.nonneg, if_false, h.whole, hv]
  rfl

theorem itemAt_of_neg {p : Float} (hfinite : p.isFinite) (hneg : p < 0) :
    itemAt name items p = raise (.indexOutOfBounds (toString (truncate p)) name) := by
  rw [itemAt, if_pos hfinite, ← refuseIndex_truncate]
  exact if_pos hneg

theorem itemAt_of_beyond {p : Float} {k : Int} (h : Points p k) (hbeyond : items.length ≤ k) :
    itemAt name items p = raise (.indexOutOfBounds (toString k) name) := by
  have hnone : items[k.toNat]? = none := List.getElem?_eq_none (by omega)
  rw [itemAt, if_pos h.finite, ← h.whole, ← refuseIndex_truncate]
  simp only [h.nonneg, if_false, h.whole, hnone]

/-! ## Slices -/

/-- The items that a range counts. -/
def between (items : List Value) (a b : Int) : List Value :=
  (items.drop a.toNat).take (b - a).toNat

theorem slice_of_spans {a b : Int} (h : Spans items.length a b) :
    slice name items a b = pure (.list (between items a b)) := by
  obtain ⟨hnonneg, hlt, hle, hstop⟩ := h
  rw [slice, if_neg (by omega), if_neg (by omega), between]

theorem slice_of_not_spans {a b : Int} (h : ¬Spans items.length a b) : slice name items a b =
    refuseIndex name (if 0 ≤ a ∧ a < items.length then b else a) := by
  rw [slice]
  by_cases hstart : 0 ≤ a ∧ a < items.length
  · have hstop : items.length < b ∨ b < a := by
      by_contra hnot
      exact h ⟨hstart.1, hstart.2, by omega, by omega⟩
    rw [if_neg (by omega), if_pos hstop, if_pos hstart]
  · rw [if_pos (by omega), if_neg hstart]

theorem length_between {a b : Int} (h : Spans items.length a b) :
    ((between items a b).length : Int) = b - a := by
  obtain ⟨hnonneg, hlt, hle, hstop⟩ := h
  rw [between, List.length_take, List.length_drop]
  omega

theorem getElem?_between {a b k : Int} (h : Spans items.length a b) (hk : 0 ≤ k)
    (hkb : k < b - a) : (between items a b)[k.toNat]? = items[(a + k).toNat]? := by
  rw [between, List.getElem?_take_of_lt (by omega), List.getElem?_drop,
    Int.toNat_add h.nonneg hk]

/-- Both slices drop the same items and take as many. -/
theorem between_between {a b c d : Int} (h : Spans items.length a b) (hc : 0 ≤ c)
    (hd : d ≤ b - a) : between (between items a b) c d = between items (a + c) (a + d) := by
  rw [between, between, between, List.drop_take, List.drop_drop, List.take_take,
    Int.toNat_add h.nonneg hc]
  congr 1
  omega

end Eval

theorem indexes_item {items : List Value} {p : Float} {k : Int} {v : Value} (h : Points p k)
    (hv : items[k.toNat]? = some v) : Indexes items (.number p) v :=
  fun _ _ _ _ _ _ _ _ _ hx hitems hidx =>
    located_eq_ok.mpr ((index_of_number hx hitems hidx).trans (itemAt_of_item h hv))

theorem indexes_between {items : List Value} {a b : Int} (h : Spans items.length a b) :
    Indexes items (.range a b) (.list (between items a b)) :=
  fun _ _ _ _ _ _ _ _ _ hx hitems hidx =>
    located_eq_ok.mpr ((index_of_range hx hitems hidx).trans (congrFun (slice_of_spans h) _))

section Results

variable {x idx : Node} {name : String} (hx : x.identName? = some name) {e : LayerId} {s u : Store}
  {items : List Value} (hitems : s.lookup? e name = some (.list items)) {limit depth : Nat}

include hx hitems

/-- A list indexed by a finite number gives the item at the number's whole part, or when there is
none an error that names the whole part, unless the number is between minus one and zero. Then the
error names the first item, which is there when the list is not empty; and only then an error names
an item that is there. -/
theorem evalNode_index {p : Float} (hidx : evalNode limit depth idx e s = (.ok (.number p), u))
    (hp : p.isFinite) (pos : Option Pos) :
    let n := Node.tree .index [x, idx] pos
    let o := evalNode limit (depth + 1) n e s
    let i := truncate p
    let refused := (.error (.raised ⟨.indexOutOfBounds (toString i) name, n.position?⟩), u)
    (0 ≤ i → i < items.length → ¬(-1 < p ∧ p < 0) →
      ∃ v, items[i.toNat]? = some v ∧ o = (.ok v, u)) ∧
    (¬(0 ≤ i ∧ i < items.length) → o = refused) ∧
    (0 ≤ i ∧ i < items.length ∧ o = refused ↔ -1 < p ∧ p < 0 ∧ items ≠ []) := by
  intro n o i refused
  have hrefused (h : itemAt name items p = raise (.indexOutOfBounds (toString i) name)) :
      o = refused :=
    located_error _ ((index_of_number hx hitems hidx).trans (congrFun h u))
  by_cases hneg : p < 0
  · obtain ⟨hle, hzero⟩ := truncate_of_neg hp hneg
    have ho := hrefused (itemAt_of_neg hp hneg)
    refine ⟨fun hi _ hnot => ?_, fun _ => ho, ?_⟩
    · exact absurd ⟨hzero.mp (Int.le_antisymm hle hi), hneg⟩ hnot
    · rw [and_iff_left ho, and_iff_right hneg, ← hzero, ← List.length_pos_iff]
      omega
  · have hpoints : Points p i := ⟨hp, hneg, rfl⟩
    have hi := truncate_nonneg hp hneg
    have hitem (hlt : i < items.length) : ∃ v, items[i.toNat]? = some v ∧ o = (.ok v, u) := by
      have hv : items[i.toNat]? = some items[i.toNat] := List.getElem?_eq_getElem (by omega)
      exact ⟨_, hv, indexes_item hpoints hv limit depth x idx pos name e s u hx hitems hidx⟩
    refine ⟨fun _ hlt _ => hitem hlt, fun hnot => hrefused (itemAt_of_beyond hpoints (by omega)),
      fun ⟨_, hlt, ho⟩ => ?_, fun hand => absurd hand.2.1 hneg⟩
    obtain ⟨v, -, hv⟩ := hitem hlt
    cases (hv.symm.trans ho : ((.ok v, u) : Outcome Value) = (.error _, u))

/-- A list sliced by a range gives a list when the range spans items of it, and else an error that
names the start, or the stop when the start is an item's; what is named has to be written, as the
whole part of a double always can be. The slice has the items that the range counts, in their order:
an index in the slice is one in the list, further on by the start, and so is a range. The list is
the one that the name is bound to before the range is evaluated. -/
theorem evalNode_slice {a b : Int} (hidx : evalNode limit depth idx e s = (.ok (.range a b), u))
    (pos : Option Pos) :
    let n := Node.tree .index [x, idx] pos
    let o := evalNode limit (depth + 1) n e s
    (¬Spans items.length a b →
      let i := if 0 ≤ a ∧ a < items.length then b else a
      let named := (.error (.raised ⟨.indexOutOfBounds (toString i) name, n.position?⟩), u)
      ((∃ p q, a = truncate p ∧ b = truncate q) → o = named) ∧
      (i.natAbs < tenTo digitLimit → o = named) ∧
      (tenTo digitLimit ≤ i.natAbs → o = (.error (.unwritable i), u))) ∧
    (Spans items.length a b → ∃ part : List Value, o = (.ok (.list part), u) ∧
      (part.length : Int) = b - a ∧
      (∀ k, 0 ≤ k → k < b - a → ∃ v, part[k.toNat]? = some v ∧ items[(a + k).toNat]? = some v ∧
        ∀ p q, Points p k → Points q (a + k) →
          Indexes part (.number p) v ∧ Indexes items (.number q) v) ∧
      ∀ c d, Spans part.length c d → ∃ inner : List Value,
        Indexes part (.range c d) (.list inner) ∧
        Indexes items (.range (a + c) (a + d)) (.list inner)) := by
  refine ⟨fun h => ?_, fun h => ⟨between items a b, ?_, length_between h, ?_, ?_⟩⟩
  · intro i named
    have hindex := (index_of_range hx hitems hidx).trans (congrFun (slice_of_not_spans h) u)
    have hnamed (hi : i.natAbs < tenTo digitLimit) :
        evalNode limit (depth + 1) (.tree .index [x, idx] pos) e s = named :=
      located_error _ (hindex.trans (congrFun (refuseIndex_of_lt name hi) u))
    refine ⟨?_, hnamed, fun hi => ?_⟩
    · rintro ⟨p, q, rfl, rfl⟩
      refine hnamed ?_
      dsimp only [i]
      split
      · exact natAbs_truncate_lt q
      · exact natAbs_truncate_lt p
    · exact located_error _ (hindex.trans (congrFun (refuseIndex_of_le name hi) u))
  · exact indexes_between h limit depth x idx pos name e s u hx hitems hidx
  · intro k hk hkb
    have hlt : (a + k).toNat < items.length := by
      have := h.stop_le
      have := h.nonneg
      omega
    have hitem : items[(a + k).toNat]? = some items[(a + k).toNat] := List.getElem?_eq_getElem hlt
    have hpart := (getElem?_between h hk hkb).trans hitem
    exact ⟨_, hpart, hitem, fun p q hp hq => ⟨indexes_item hp hpart, indexes_item hq hitem⟩⟩
  · intro c d hin
    have hinner := between_between h hin.nonneg (length_between h ▸ hin.stop_le)
    refine ⟨_, indexes_between hin, ?_⟩
    rw [hinner]
    exact indexes_between (h.shift (length_between h) hin)

end Results

/-- The tree of `xs[i]`. -/
def xsAtI : Node := .tree .index [.token .ident "xs" none, .token .ident "i" none] none

/-- A root that binds `xs` to a list and `i` to an index. -/
def withXsAndI (items : List Value) (i : Value) : Store :=
  ((Store.root {}).bind 0 "xs" (.list items)).bind 0 "i" i

/-- Of two items, 1.5 gives the second, and -1.5 is refused. -/
theorem evalNode_index_twoItems :
    let items := [Value.bool true, .bool false]
    (∃ u, evaluate xsAtI 0 (withXsAndI items (.number 1.5)) = (.ok (.bool false), u)) ∧
    ∃ u, evaluate xsAtI 0 (withXsAndI items (.number (-1.5))) =
      (.error (.raised ⟨.indexOutOfBounds "-1" "xs", none⟩), u) := by
  intro items
  have hx : (Node.token .ident "xs" none).identName? = some "xs" := rfl
  have hitems (i : Value) : (withXsAndI items i).lookup? 0 "xs" = some (.list items) := rfl
  have hidx (i : Value) : evalNode turnLimit 999 (.token .ident "i" none) 0 (withXsAndI items i) =
      (.ok i, withXsAndI items i) := rfl
  have hwhole : truncate 1.5 = 1 ∧ truncate (-1.5) = -1 := by decide +kernel
  obtain ⟨hitem, -⟩ := evalNode_index hx (hitems _) (hidx (.number 1.5)) (by decide +kernel) none
  obtain ⟨-, hrefused, -⟩ :=
    evalNode_index hx (hitems _) (hidx (.number (-1.5))) (by decide +kernel) none
  rw [hwhole.1] at hitem
  rw [hwhole.2] at hrefused
  obtain ⟨v, hv, hrun⟩ := hitem (by decide) (by decide) (by decide +kernel)
  cases hv
  exact ⟨⟨_, hrun⟩, _, hrefused (by decide)⟩

/-- There is an item at the whole part of -0.5, and the error says that there is not. -/
theorem evaluate_xsAtI_of_minus_half :
    let s := withXsAndI [.bool true] (.number (-0.5))
    truncate (-0.5) = 0 ∧ [Value.bool true][0]? = some (.bool true) ∧
      evaluate xsAtI 0 s = (.error (.raised ⟨.indexOutOfBounds "0" "xs", none⟩), s) := by
  intro s
  have hzero : truncate (-0.5) = 0 := by decide +kernel
  have hitem : itemAt "xs" [.bool true] (-0.5) = raise (.indexOutOfBounds "0" "xs") := by
    rw [itemAt_of_neg (by decide +kernel) (by decide +kernel), hzero]
    rfl
  have hindex : index (evalNode turnLimit 999) 0
      [.token .ident "xs" none, .token .ident "i" none] s = itemAt "xs" [.bool true] (-0.5) s :=
    index_of_number rfl rfl rfl
  have hrun : index (evalNode turnLimit 999) 0
      [.token .ident "xs" none, .token .ident "i" none] s
        = (.error (.raised ⟨.indexOutOfBounds "0" "xs", none⟩), s) :=
    hindex.trans (congrFun hitem s)
  have hplaced := located_error xsAtI hrun
  exact ⟨hzero, rfl, hplaced⟩

/-- The slice is one of the list that `xs` is bound to first, though `{ xs = false; i }` binds `xs`
to something else. -/
theorem evalNode_slice_rebound :
    let idx := Node.tree .block [.tree .setVar [.token .ident "xs" none,
      .token .falseWord "false" none] none, .token .ident "i" none] none
    let items := [Value.bool true, .bool false, .bool true]
    ∃ (part inner : List Value) (u : Store),
      evaluate (.tree .index [.token .ident "xs" none, idx] none) 0
        (withXsAndI items (.range 1 3)) = (.ok (.list part), u) ∧
      part.length = 2 ∧ u.lookup? 0 "xs" = some (.bool false) ∧
      Indexes part (.number 1) (.bool true) ∧ Indexes items (.number 2) (.bool true) ∧
      Indexes part (.range 1 2) (.list inner) ∧ Indexes items (.range 2 3) (.list inner) := by
  intro idx items
  obtain ⟨u, hidx, hu⟩ : ∃ u, evalNode turnLimit 999 idx 0 (withXsAndI items (.range 1 3)) =
      (.ok (.range 1 3), u) ∧ u.lookup? 0 "xs" = some (.bool false) := ⟨_, rfl, rfl⟩
  have hx : (Node.token .ident "xs" none).identName? = some "xs" := rfl
  have hitems : (withXsAndI items (.range 1 3)).lookup? 0 "xs" = some (.list items) := rfl
  obtain ⟨-, hpart⟩ := evalNode_slice hx hitems hidx none
  obtain ⟨part, hrun, hlength, hsame, hslices⟩ := hpart ⟨by decide, by decide, by decide, by decide⟩
  have hlength : part.length = 2 := by omega
  obtain ⟨v, -, hv, hnumber⟩ := hsame 1 (by decide) (by decide)
  cases hv
  have hone : Points 1 1 := ⟨by decide +kernel, by decide +kernel, by decide +kernel⟩
  have htwo : Points 2 2 := ⟨by decide +kernel, by decide +kernel, by decide +kernel⟩
  obtain ⟨hfirst, hsecond⟩ := hnumber 1 2 hone htwo
  obtain ⟨inner, hinner, houter⟩ := hslices 1 2 ⟨by omega, by omega, by omega, by omega⟩
  exact ⟨part, inner, u, hrun, hlength, hu, hfirst, hsecond, hinner, houter⟩

/-! ## Ranges -/

section Ends

variable {limit depth : Nat} {startNode stopNode : Node} {a b : Float} {e : LayerId}
  {s t u : Store} (hstart : evalNode limit depth startNode e s = (.ok (.number a), t))
  (hstop : evalNode limit depth stopNode e t = (.ok (.number b), u)) (pos : Option Pos)

include hstart hstop

theorem evalNode_of_ends : evalNode limit (depth + 1) (.tree .range [startNode, stopNode] pos) e s =
    (.ok (.range (truncate a) (truncate b)), u) := by
  refine located_eq_ok.mpr ?_
  show Eval.range (evalNode limit depth) e [startNode, stopNode] s = _
  rw [Eval.range]
  simp only [bind_apply, hstart, hstop]
  rfl

/-- The range between two numbers in order is in order as well, unless just one of them is an
infinity, and the other is beyond the 64-bit range on the same side. -/
theorem evalNode_range (hab : a ≤ b) :
    evalNode limit (depth + 1) (.tree .range [startNode, stopNode] pos) e s =
      (.ok (.range (truncate a) (truncate b)), u) ∧
    (truncate a ≤ truncate b ↔ (a.isFinite → ¬b.isFinite → truncate a < 2 ^ 63) ∧
      (b.isFinite → ¬a.isFinite → -2 ^ 63 ≤ truncate b)) :=
  ⟨evalNode_of_ends hstart hstop pos, truncate_le_truncate_iff hab⟩

end Ends

/-- The tree of `a..b`. -/
def fromAToB : Node := .tree .range [.token .ident "a" none, .token .ident "b" none] none

/-- A root that binds `a` and `b` to numbers. -/
def withAAndB (a b : Float) : Store :=
  ((Store.root {}).bind 0 "a" (.number a)).bind 0 "b" (.number b)

theorem evaluate_fromAToB (a b : Float) : evaluate fromAToB 0 (withAAndB a b) =
    (.ok (.range (truncate a) (truncate b)), withAAndB a b) := by
  have hstart : evalNode turnLimit 999 (.token .ident "a" none) 0 (withAAndB a b) =
    (.ok (.number a), withAAndB a b) := rfl
  exact evalNode_of_ends hstart rfl none

/-- A range may go on to infinity. -/
theorem evalNode_range_of_infinite :
    let s := withAAndB 1.5 (1 / 0)
    evaluate fromAToB 0 s = (.ok (.range 1 9223372036854775807), s) ∧
      truncate 1.5 ≤ truncate (1 / 0) := by
  intro s
  have hstart : evalNode turnLimit 999 (.token .ident "a" none) 0 s = (.ok (.number 1.5), s) := rfl
  have hstop : evalNode turnLimit 999 (.token .ident "b" none) 0 s = (.ok (.number (1 / 0)), s) :=
    rfl
  have hends : truncate 1.5 = 1 ∧ truncate (1 / 0) = 9223372036854775807 := by decide +kernel
  obtain ⟨hrun, hle⟩ := evalNode_range hstart hstop none (by decide +kernel)
  rw [hends.1, hends.2] at hrun
  exact ⟨hrun, hle.mpr ⟨fun _ _ => by decide +kernel, by decide +kernel⟩⟩

/-- The range from 2⁶⁴ to infinity stops before it starts. -/
theorem evaluate_fromAToB_of_beyond :
    let a : Float := 18446744073709551616
    let s := withAAndB a (1 / 0)
    a ≤ 1 / 0 ∧ evaluate fromAToB 0 s =
      (.ok (.range 18446744073709551616 9223372036854775807), s) := by
  intro a s
  have hends : truncate a = 18446744073709551616 ∧ truncate (1 / 0) = 9223372036854775807 := by
    decide +kernel
  have hrun := evaluate_fromAToB a (1 / 0)
  rw [hends.1, hends.2] at hrun
  exact ⟨by decide +kernel, hrun⟩

end Tern
