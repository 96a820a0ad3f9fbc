import Mathlib.Logic.Equiv.List
import Tern.Program
import Tern.Proofs.Lexemes
import Tern.Proofs.Parallel
import Tern.Proofs.Placement

/-!
# Where errors come from

A runtime error that ends an evaluation has left some nodes, from the one that was under
evaluation when it was raised out to the whole tree. This *trail* is known by what an evaluation
does that notes something on an error at each node that it leaves: whatever it notes, the error
at the end bears the notes of the nodes on the trail, one after the other (`Unwinds`). Every
error has a trail (`exists_unwinds`). It is found by noting the trail itself: the nodes inside a
tree are finitely many, so that lists of them can be written as positions, and the run that does
so goes in lockstep with all others.

A run notes positions and keeps the first that there is. The nodes of a program that are ever
evaluated have positions of their own, which are starts of tokens; so an error bears the
position of the innermost node, whatever it has left besides (`run_unwinds`).
-/

namespace Tern

open Eval

/-! ## The nodes inside a tree -/

mutual

/-- A node and all nodes inside it. -/
def Node.inside : Node → List Node
  | .tree label cs pos => .tree label cs pos :: Node.insideAll cs
  | n => [n]

def Node.insideAll : List Node → List Node
  | [] => []
  | n :: rest => n.inside ++ Node.insideAll rest

end

namespace Node

theorem self_mem_inside (n : Node) : n ∈ n.inside := by
  cases n <;> exact List.mem_cons_self

theorem mem_insideAll {m : Node} {ns : List Node} :
    m ∈ insideAll ns ↔ ∃ n ∈ ns, m ∈ n.inside := by
  induction ns with
  | nil => simp [insideAll]
  | cons n rest ih => simp [insideAll, ih]

mutual

/-- What is inside a node that is inside is inside. -/
theorem child_mem_inside {m c : Node} (hc : c ∈ m.children) : ∀ {n : Node}, m ∈ n.inside →
    c ∈ n.inside
  | .tree label cs pos, hm => by
      rcases List.mem_cons.mp hm with rfl | hm
      · exact List.mem_cons_of_mem _ (mem_insideAll.mpr ⟨c, hc, c.self_mem_inside⟩)
      · exact List.mem_cons_of_mem _ (child_mem_insideAll hc hm)
  | .token .., hm => by
      obtain rfl := List.mem_singleton.mp hm
      cases hc
  | .stray _, hm => by
      obtain rfl := List.mem_singleton.mp hm
      cases hc

theorem child_mem_insideAll {m c : Node} (hc : c ∈ m.children) : ∀ {ns : List Node},
    m ∈ insideAll ns → c ∈ insideAll ns
  | _ :: _, hm => by
      rcases List.mem_append.mp hm with hm | hm
      · exact List.mem_append_left _ (child_mem_inside hc hm)
      · exact List.mem_append_right _ (child_mem_insideAll hc hm)

end

theorem Placed.of_mem_inside {ts : List Lexeme} {n : Node} (h : n.Placed ts) :
    ∀ m ∈ n.inside, m.Placed ts := by
  induction h with
  | token ht => exact List.forall_mem_singleton.mpr (.token ht)
  | tree label ht hcs ih =>
      refine List.forall_mem_cons.mpr ⟨.tree label ht hcs, fun m hm => ?_⟩
      obtain ⟨c, hc, hm⟩ := mem_insideAll.mp hm
      exact ih c hc m hm
  | empty hl => exact List.forall_mem_singleton.mpr (.empty hl)

end Node

/-! ## Trails -/

/-- An error with what is noted of some nodes, one after the other. -/
def RuntimeError.noting (note : Node → RuntimeError → RuntimeError) (cause : Cause)
    (trail : List Node) : RuntimeError :=
  trail.foldl (fun err n => note n err) ⟨cause, none⟩

namespace Eval

/-- An evaluation ends in an error that has left the nodes of a trail, the innermost first:
whatever is noted of the nodes that errors leave, at the end it has been noted of these. -/
def Unwinds (limit depth : Nat) (n : Node) (e : LayerId) (s : Store) (cause : Cause)
    (trail : List Node) : Prop :=
  ∀ note, (evalNoting note limit depth n e s).1 = .error (.raised (.noting note cause trail))

end Eval

/-- The first position of the nodes on a trail stays. -/
theorem RuntimeError.noting_position (cause : Cause) : ∀ trail : List Node,
    RuntimeError.noting (fun n e => e.at n.position?) cause trail =
      ⟨cause, trail.findSome? Node.position?⟩ := by
  intro trail
  unfold noting
  suffices ∀ pos : Option Pos,
      trail.foldl (fun e n => e.at n.position?) (⟨cause, pos⟩ : RuntimeError) =
        ⟨cause, pos.or (trail.findSome? Node.position?)⟩ from this none
  induction trail with
  | nil => exact fun pos => congrArg (RuntimeError.mk cause) (Option.or_none).symm
  | cons n trail ih =>
      intro pos
      rw [List.foldl_cons, RuntimeError.at, ih, List.findSome?_cons, Option.or_assoc]
      cases n.position? <;> rfl

/-! ## Trails written as positions -/

section Written

variable (nodes : List Node)

open Classical in
/-- The position that a trail is written as, by the places of its nodes in a list. -/
noncomputable def writeTrail (trail : List Node) : Pos :=
  ⟨Encodable.encode (trail.map fun n => nodes.idxOf n), 0⟩

/-- The trail that is written as a position. -/
def readTrail : Option Pos → List Node
  | none => []
  | some p => ((Encodable.decode p.line : Option (List Nat)).getD []).filterMap (nodes[·]?)

theorem mem_of_mem_readTrail {pos : Option Pos} {n : Node} (h : n ∈ readTrail nodes pos) :
    n ∈ nodes := by
  cases pos with
  | none => cases h
  | some p =>
      obtain ⟨i, -, hi⟩ := List.mem_filterMap.mp h
      exact List.mem_of_getElem? hi

theorem readTrail_writeTrail : ∀ {trail : List Node}, (∀ n ∈ trail, n ∈ nodes) →
    readTrail nodes (some (writeTrail nodes trail)) = trail := by
  classical
  intro trail h
  simp only [readTrail, writeTrail, Encodable.encodek, Option.getD_some, List.filterMap_map]
  induction trail with
  | nil => rfl
  | cons n trail ih =>
      obtain ⟨hn, htrail⟩ := List.forall_mem_cons.mp h
      have hfound : ((nodes[·]?) ∘ fun m => nodes.idxOf m) n = some n := List.getElem?_idxOf hn
      rw [List.filterMap_cons_some hfound, ih htrail]

/-- Writes down a node that an error leaves. -/
noncomputable def noteTrail (n : Node) (e : RuntimeError) : RuntimeError :=
  ⟨e.cause, some (writeTrail nodes (readTrail nodes e.pos ++ [n]))⟩

theorem readTrail_noteTrail {n : Node} (hn : n ∈ nodes) (e : RuntimeError) :
    readTrail nodes (noteTrail nodes n e).pos = readTrail nodes e.pos ++ [n] := by
  refine readTrail_writeTrail nodes fun m hm => ?_
  rcases List.mem_append.mp hm with hm | hm
  · exact mem_of_mem_readTrail nodes hm
  · exact List.mem_singleton.mp hm ▸ hn

/-- One run writes down the trail where the other notes whatever it notes. -/
noncomputable def Mirror.trail (note : Node → RuntimeError → RuntimeError) : Mirror where
  name := id
  node n n' := n = n' ∧ n ∈ nodes
  error e e' := (∀ n ∈ readTrail nodes e.pos, n.WellShaped) ∧
    e' = .noting note e.cause (readTrail nodes e.pos)
  note := noteTrail nodes
  note' := note
  shaped := True
  verbatim := True

theorem Mirror.lawful_trail (hnodes : ∀ n ∈ nodes, ∀ c ∈ n.children, c ∈ nodes)
    (note : Node → RuntimeError → RuntimeError) : (Mirror.trail nodes note).Lawful where
  injective := Function.injective_id
  builtin _ := rfl
  receiver := rfl
  wildcard := rfl
  spelled _ _ := rfl
  tree {label cs p n'} h := by
    obtain ⟨rfl, hn⟩ := h
    exact ⟨cs, p, rfl, List.forall₂_same.mpr fun c hc => ⟨rfl, hnodes _ hn c hc⟩⟩
  token {kind text p n'} h := by
    obtain ⟨rfl, -⟩ := h
    exact ⟨p, congrArg (Node.token kind · p) (ite_self text).symm⟩
  stray h := h.1.symm
  operator {label a o b p a' o' b' p'} _ h := by
    cases h.node.1
    rfl
  raised {c c'} h := by
    obtain rfl := h.same trivial
    exact ⟨List.forall_mem_nil _, rfl⟩
  left {n n' e e'} hn he := by
    obtain ⟨⟨rfl, hmem⟩, hshape⟩ := hn
    obtain ⟨hshapes, rfl⟩ := he
    change (∀ m ∈ readTrail nodes (noteTrail nodes n e).pos, m.WellShaped) ∧
      note n (.noting note e.cause (readTrail nodes e.pos)) =
        .noting note e.cause (readTrail nodes (noteTrail nodes n e).pos)
    rw [readTrail_noteTrail nodes hmem]
    refine ⟨?_, ?_⟩
    · exact List.forall_mem_append.mpr ⟨hshapes, List.forall_mem_singleton.mpr (hshape trivial)⟩
    · simp [RuntimeError.noting]

end Written

/-! ## Every error has a trail -/

theorem Node.inside_closed (n : Node) : ∀ m ∈ n.inside, ∀ c ∈ m.children, c ∈ n.inside :=
  fun _ hm _ hc => child_mem_inside hc hm

/-- Where nothing is bound there is nothing to mirror. -/
theorem Store.mirrored_root (M : Mirror) (config : Config) :
    (Store.root config).Mirrored M (Store.root config) := by
  refine ⟨rfl, fun l => ?_, rfl, fun i => .nil, rfl, rfl⟩
  cases l <;> exact ⟨rfl, .nil, rfl, rfl⟩

/-- What evaluation in a new environment ends in has a trail of nodes that are inside the tree. -/
theorem exists_unwinds {limit depth : Nat} {n : Node} {e : LayerId} {s s' : Store}
    {err : RuntimeError} (hn : n.WellShaped) (hs : ∀ M, s.Mirrored M s)
    (h : evalNode limit depth n e s = (.error (.raised err), s')) :
    ∃ trail, (∀ m ∈ trail, m ∈ n.inside ∧ m.WellShaped) ∧
      Unwinds limit depth n e s err.cause trail := by
  have hsound (note : Node → RuntimeError → RuntimeError) :
      Ends (Failure.Mirrored (.trail n.inside note)) (Value.Mirrored (.trail n.inside note))
        (evalNoting (noteTrail n.inside) limit depth n e s).1
        (evalNoting note limit depth n e s).1 :=
    ((Mirror.lawful_trail n.inside n.inside_closed note).sound limit depth n n e
      ⟨⟨rfl, n.self_mem_inside⟩, fun _ => hn⟩ s s (hs _)).1
  -- One run writes the trail down, whatever is noted in the other.
  generalize (evalNoting (noteTrail n.inside) limit depth n e s).1 = r at hsound
  have hends := hsound fun m e => e.at m.position?
  rw [evalNoting_position, h] at hends
  cases hends with
  | error hf =>
    cases hf with
    | host hne => exact absurd rfl (hne err)
    | @raised e₀ _ herror =>
      obtain ⟨hshapes, hpositions⟩ := herror
      have hcause : err.cause = e₀.cause := by rw [hpositions, RuntimeError.noting_position]
      refine ⟨readTrail n.inside e₀.pos,
        fun m hm => ⟨mem_of_mem_readTrail n.inside hm, hshapes m hm⟩, fun note => ?_⟩
      have hnoted := hsound note
      generalize (evalNoting note limit depth n e s).1 = r' at hnoted ⊢
      cases hnoted with
      | error hf =>
        cases hf with
        | host hne => exact absurd rfl (hne e₀)
        | raised herror => rw [herror.2, hcause]

/-- The node that is evaluated is left last. -/
theorem Eval.Unwinds.ne_nil {limit depth : Nat} {n : Node} {e : LayerId} {s : Store}
    {cause : Cause} {trail : List Node} (h : Unwinds limit depth n e s cause trail) :
    trail ≠ [] := by
  rintro rfl
  -- A note of any node would leave a position.
  have hnoted := h fun _ err => ⟨err.cause, some .start⟩
  cases depth with
  | zero => cases hnoted
  | succ depth =>
      unfold evalNoting noted at hnoted
      split at hnoted
      · cases hnoted
      · next hother => exact hother _ _ (Prod.ext hnoted rfl)

/-! ## Programs -/

/-- A runtime error that ends a program has the position of the innermost node that it has left,
and that is where a token starts, whatever nodes it has left besides. -/
theorem run_unwinds {source : String} {tree : Node} {config : Config} {err : RuntimeError}
    {s' : Store} (h : parse source = .ok tree)
    (hrun : run source 0 (Store.root config) = (.error (.failed (.raised err)), s')) :
    ∃ m outer p, Unwinds turnLimit depthLimit tree 0
        ((Store.root config).record (.started source.length)) err.cause (m :: outer) ∧
      (∀ n ∈ m :: outer, n ∈ tree.inside) ∧
      m.position? = some p ∧ err.pos = some p ∧ StartOf (tokens source) p := by
  have hev : evaluate tree 0 ((Store.root config).record (.started source.length)) =
      (.error (.raised err), s') := by
    simp only [run, h] at hrun
    split at hrun
    · cases hrun
    · next hfailure =>
      cases hrun
      exact hfailure
  have hne : tokens source ≠ [] := by
    intro hnil
    obtain rfl := parse_of_no_tokens h hnil
    cases hev
  obtain ⟨trail, htrail, hunwinds⟩ := exists_unwinds (parse_wellShaped h)
    (fun M => (Store.mirrored_root M config).record _ _) hev
  obtain ⟨m, outer, rfl⟩ := List.exists_cons_of_ne_nil hunwinds.ne_nil
  obtain ⟨hinside, hshape⟩ := htrail m List.mem_cons_self
  obtain ⟨p, hp, hstart⟩ :=
    ((placed_of_parse h hne).of_mem_inside m hinside).exists_position hshape
  refine ⟨m, outer, p, hunwinds, fun n hn => (htrail n hn).1, hp, ?_, hstart⟩
  have hnoted := hunwinds fun n e => e.at n.position?
  rw [evalNoting_position, RuntimeError.noting_position, List.findSome?_cons, hp] at hnoted
  change (evaluate _ _ _).1 = _ at hnoted
  rw [hev] at hnoted
  exact congrArg RuntimeError.pos (Failure.raised.inj (Except.error.inj hnoted))

set_option maxRecDepth 2000 in
/-- The error is raised in the body of the function, and the call does not take its place. -/
theorem run_unwinds_call :
    ∃ tree s', parse "fn f() { y }\nf();" = .ok tree ∧
      run "fn f() { y }\nf();" 0 (Store.root {}) =
        (.error (.failed (.raised ⟨.variableNotFound "y", some ⟨1, 10⟩⟩)), s') ∧
      ∃ m outer, Unwinds turnLimit depthLimit tree 0
          ((Store.root {}).record (.started "fn f() { y }\nf();".length)) (.variableNotFound "y")
            (m :: outer) ∧
        m.position? = some ⟨1, 10⟩ ∧ StartOf (tokens "fn f() { y }\nf();") ⟨1, 10⟩ := by
  have hparse : parse "fn f() { y }\nf();" = .ok (.tree .block [
      .tree .funDef [.token .ident "f" (some ⟨1, 4⟩), .tree .params [] none,
        .tree .block [.token .ident "y" (some ⟨1, 10⟩)] (some ⟨1, 8⟩)] (some ⟨1, 1⟩),
      .tree .call [.token .ident "f" (some ⟨2, 1⟩), .tree .args [] none] (some ⟨2, 1⟩)]
        (some ⟨1, 1⟩)) := by rfl
  have hresult : (run "fn f() { y }\nf();" 0 (Store.root {})).1 =
      .error (.failed (.raised ⟨.variableNotFound "y", some ⟨1, 10⟩⟩)) := by
    simp only [run, hparse]
    rfl
  obtain ⟨r, s', hrun⟩ : ∃ r s', run "fn f() { y }\nf();" 0 (Store.root {}) = (r, s') :=
    ⟨_, _, Prod.mk.eta.symm⟩
  rw [hrun] at hresult
  subst hresult
  obtain ⟨m, outer, p, hunwinds, -, hm, hp, hstart⟩ := run_unwinds hparse hrun
  cases hp
  exact ⟨_, _, hparse, hrun, m, outer, hunwinds, hm, hstart⟩

end Tern
