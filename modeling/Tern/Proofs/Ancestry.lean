import Tern.Proofs.Builtins
import Tern.Proofs.Relocation

/-!
# The way outward ends

In a run from a new root each layer hangs from one that was made before it, and the frame of every
function and method is a layer that there is (`ancestral_of_reached`): under every configuration,
after successes and failures alike, and at all moments between. A function takes the layer that it
is defined in for its frame, and wherever it goes then, into bindings, lists, instances or tables of
methods, that layer is older than any that will ever hang from it.

So from every layer the parents lead to a root. The loops that look for a name, to read it or to
write to it, go on from parent to parent without regard to how far they have come (`Store.Seeks`);
they end, since each turn leads to an older layer.
-/

namespace Tern

open Eval

namespace Store

variable {s : Store} {e l : LayerId} {x : String}

/-! ## Loops -/

/-- The loop that looks for a name: from where, where it ends, and in how many turns. It ends at a
layer that binds the name, or after the last parent. -/
inductive Seeks (s : Store) (x : String) : Option LayerId → Option LayerId → Nat → Prop
  | nowhere : Seeks s x none none 0
  | here {e : LayerId} (h : (s.bindings e).holds x = true) : Seeks s x (some e) (some e) 1
  | outward {e : LayerId} {r : Option LayerId} {n : Nat} (h : (s.bindings e).holds x = false)
      (hrest : Seeks s x (s.parent? e) r n) : Seeks s x (some e) r (n + 1)

/-- The loop has one way to go. -/
theorem Seeks.unique {start r r' : Option LayerId} {n n' : Nat} (h : s.Seeks x start r n)
    (h' : s.Seeks x start r' n') : r = r' ∧ n = n' := by
  induction h generalizing n' with
  | nowhere =>
    cases h'
    exact ⟨rfl, rfl⟩
  | here he =>
    cases h' with
    | here => exact ⟨rfl, rfl⟩
    | outward he' => cases he.symm.trans he'
  | outward he _ ih =>
    cases h' with
    | here he' => cases he.symm.trans he'
    | outward _ hrest =>
      obtain ⟨hr, hn⟩ := ih hrest
      exact ⟨hr, congrArg (· + 1) hn⟩

theorem lookup?_eq_bind_owner? (s : Store) (e : LayerId) (x : String) :
    s.lookup? e x = (s.owner? e x).bind fun l => (s.bindings l).get? x := by
  cases howner : s.owner? e x with
  | some l => exact lookup?_of_owner? howner
  | none =>
    cases hv : s.lookup? e x with
    | none => rfl
    | some v =>
      obtain ⟨l, hl, -⟩ := exists_owner?_of_lookup? hv
      cases howner.symm.trans hl

namespace Forest

variable (h : s.Forest)

include h

theorem exists_root (e : LayerId) : ∃ r ≤ e, s.Within e r ∧ s.parent? r = none := by
  induction e using Nat.strongRecOn with
  | ind e ih =>
    cases hp : s.parent? e with
    | none => exact ⟨e, Nat.le_refl e, .self, hp⟩
    | some p =>
      obtain ⟨r, hr, hwithin, hroot⟩ := ih p (h.older hp)
      exact ⟨r, Nat.le_trans hr (Nat.le_of_lt (h.older hp)), (Within.self.outward hp).trans hwithin,
        hroot⟩

/-- The loop ends at the owner of the name, and takes no more turns than there are numbers on the
way. -/
theorem exists_seeks (x : String) (e : LayerId) :
    ∃ n ≤ e + 1, s.Seeks x (some e) (s.owner? e x) n := by
  induction e using Nat.strongRecOn with
  | ind e ih =>
    cases hholds : (s.bindings e).holds x with
    | true =>
      rw [owner?_of_holds hholds]
      exact ⟨1, Nat.succ_le_succ (Nat.zero_le e), .here hholds⟩
    | false =>
      cases hp : s.parent? e with
      | none =>
        rw [owner?_of_root hp, hholds]
        refine ⟨1, Nat.succ_le_succ (Nat.zero_le e), .outward hholds ?_⟩
        rw [hp]
        exact .nowhere
      | some p =>
        have hlt := h.older hp
        obtain ⟨n, hn, hseeks⟩ := ih p hlt
        rw [(h.rooted (lt_size_of_parent hp)).owner?_of_parent hp, hholds]
        refine ⟨n + 1, Nat.succ_le_succ (Nat.le_trans hn hlt), .outward hholds ?_⟩
        rw [hp]
        exact hseeks

end Forest

/-! ## Ancestry -/

/-- A store that is grounded, with what follows for the way outward and for the loops that go it. -/
structure Ancestral (s : Store) : Prop extends s.Grounded where
  root : ∀ e, ∃ r ≤ e, s.Within e r ∧ s.parent? r = none
  ends : ∀ e x, ∃ r, ∃ n ≤ e + 1, s.Seeks x (some e) r n
  lookup : ∀ e x r n, s.Seeks x (some e) r n →
    s.lookup? e x = r.bind fun l => (s.bindings l).get? x
  set : ∀ e x r n v, s.Seeks x (some e) r n → setName e x v s =
    match r with
    | some l => (.ok (), s.bind l x v)
    | none => (.error (.raised ⟨.variableNotFound x, none⟩), s)

/-- A moment at which something is evaluated in a layer that there is, in a store that is ancestral
before and after, and all functions in the value that has come of it have frames there. -/
structure AncestralAt (e : LayerId) (s : Store) (o : Outcome Value) : Prop where
  layer : e < s.layers.size
  before : s.Ancestral
  after : o.2.Ancestral
  value : ∀ v, o.1 = .ok v → v.Framed o.2.layers.size

theorem Grounded.ancestral (h : s.Grounded) : s.Ancestral where
  toGrounded := h
  root := h.exists_root
  ends e x := ⟨_, h.exists_seeks x e⟩
  lookup e x r n hseeks := by
    obtain ⟨m, -, howner⟩ := h.exists_seeks x e
    rw [(hseeks.unique howner).1]
    exact s.lookup?_eq_bind_owner? e x
  set e x r n v hseeks := by
    obtain ⟨m, -, howner⟩ := h.exists_seeks x e
    rw [(hseeks.unique howner).1]
    rfl

theorem GroundedAt.ancestralAt {o : Outcome Value} (h : s.GroundedAt e o) : s.AncestralAt e o :=
  ⟨h.layer, h.before.ancestral, h.after.ancestral, h.value⟩

theorem Reached.grounded {config : Config} (h : s.Reached config) : s.Grounded := by
  induction h with
  | start => exact grounded_root config
  | after _ limit depth n he ih => exact (groundedAt_evalNode ih limit depth n he).after
  | aside _ written log ih => exact ih.of_layers rfl rfl

end Store

/-- In a run from a new root, every layer is newer than its parent and the frame of every function
and method is a layer that there is, from the start to the end and at all moments between. So from
every layer the parents lead to a root, and the loops that look for a name end, the one that reads
it with its value and the one that writes to it with the binding changed or with an error. -/
theorem ancestral_of_reached {config : Config} {s : Store} (h : s.Reached config) :
    s.Ancestral ∧ ∀ limit depth n e, e < s.layers.size →
      s.AncestralAt e (evalNode limit depth n e s) ∧
      ¬Happens (fun _ _ l t o => ¬t.AncestralAt l o) limit depth n e s := by
  have hs := h.grounded
  refine ⟨hs.ancestral, fun limit depth n e he => ⟨?_, ?_⟩⟩
  · exact (groundedAt_evalNode hs limit depth n he).ancestralAt
  · exact not_happens_of_grounded hs (fun _ _ _ _ _ hat => not_not_intro hat.ancestralAt) limit
      depth n he

/-- The tree of `fn f() { } f();`. -/
def definesAndCalls : Node :=
  .tree .block [
    .tree .funDef [.token .ident "f" none, .tree .params [] none, .tree .block [] none] none,
    .tree .call [.token .ident "f" none, .tree .args [] none] none] none

/-- In lexical scope the layer of the call hangs from the root. What is bound in neither is looked
for in both. -/
theorem ancestral_definesAndCalls :
    let config : Config := { lexicalScope := true }
    let s := (evalNode turnLimit depthLimit definesAndCalls 0 (.root config)).2
    s.Reached config ∧ s.parent? 1 = some 0 ∧ s.Seeks "x" (some 1) none 2 ∧
      s.lookup? 1 "x" = none := by
  intro config s
  have hreached : s.Reached config :=
    .after .start turnLimit depthLimit definesAndCalls (by decide)
  have hparent : s.parent? 1 = some 0 := by rfl
  have hseeks : s.Seeks "x" (some 1) none 2 := by
    refine .outward (by rfl) (hparent ▸ .outward (by rfl) ?_)
    have hroot : s.parent? 0 = none := by rfl
    exact hroot ▸ .nowhere
  exact ⟨hreached, hparent, hseeks, (ancestral_of_reached hreached).1.lookup 1 "x" none 2 hseeks⟩

end Tern
