import Tern.Proofs.Recoding
import Tern.Proofs.Trails

/-!
# Renaming

Evaluation does not depend on how names are spelled. A `Renaming` gives different names to
different names and leaves alone the few that evaluation knows itself; a tree is renamed at its
identifiers, which must not stand in an operator's place. The run of a renamed tree mirrors the run
of the tree (`Mirror.lawful_renaming`), so that from a new environment it writes the same, and
ends in the renamed value or in an error of the same kind at the same position, in a store with the
same bindings renamed (`evalNode_rename`).
-/

namespace Tern

open Eval

/-- Another spelling of names, but not of those with a meaning of their own. -/
structure Renaming (ρ : String → String) : Prop where
  injective : ρ.Injective
  builtin (b : Builtin) : ρ b.name = b.name
  receiver : ρ "self" = "self"
  wildcard : ρ "_" = "_"

/-! ## Renamed trees -/

mutual

/-- A tree with other names. -/
def Node.rename (ρ : String → String) : Node → Node
  | .tree label cs pos => .tree label (Node.renameAll ρ cs) pos
  | .token kind text pos => .token kind (if kind = .ident then ρ text else text) pos
  | .stray d => .stray d

def Node.renameAll (ρ : String → String) : List Node → List Node
  | [] => []
  | n :: rest => n.rename ρ :: Node.renameAll ρ rest

end

namespace Node

/-- The operator of an operation or of an update in place. -/
def operator? : Node → Option Node
  | tree .binop [_, op, _] _ | tree .inPlace [_, op, _] _ => some op
  | _ => none

/-- No identifier stands in an operator's place. -/
def NamesInPlace (n : Node) : Prop := ∀ m ∈ n.inside, ∀ op ∈ m.operator?, op.identName? = none

theorem NamesInPlace.child {label : Label} {cs : List Node} {pos : Option Pos}
    (h : (tree label cs pos).NamesInPlace) {c : Node} (hc : c ∈ cs) : c.NamesInPlace :=
  fun m hm => h m (List.mem_cons_of_mem _ (mem_insideAll.mpr ⟨c, hc, hm⟩))

variable (ρ : String → String)

theorem renameAll_eq_map (ns : List Node) : renameAll ρ ns = ns.map (rename ρ) := by
  induction ns with
  | nil => rfl
  | cons n rest ih => exact congrArg (n.rename ρ :: ·) ih

mutual

theorem position?_rename : ∀ n : Node, (n.rename ρ).position? = n.position?
  | tree _ _ (some _) => rfl
  | tree _ cs none => firstPosition?_renameAll cs
  | token .. => rfl
  | stray _ => rfl

theorem firstPosition?_renameAll : ∀ ns : List Node,
    firstPosition? (renameAll ρ ns) = firstPosition? ns
  | [] => rfl
  | n :: rest => congrArg₂ Option.or (position?_rename n) (firstPosition?_renameAll rest)

end

end Node

/-! ## The mirror -/

/-- On the other side names are spelled in another way. -/
def Mirror.renaming (ρ : String → String) : Mirror where
  name := ρ
  node n n' := n' = n.rename ρ ∧ n.NamesInPlace
  error e e' := e'.cause.kind = e.cause.kind ∧ e'.pos = e.pos
  note n e := e.at n.position?
  note' n e := e.at n.position?
  shaped := True
  verbatim := False

theorem Mirror.codes_renaming (ρ : String → String) : (Mirror.renaming ρ).Codes (Node.rename ρ) :=
  fun _ _ h => h.1

theorem Mirror.operatorText_renaming {ρ : String → String} {op : Node}
    (htoken : ∃ kind text pos, op = .token kind text pos) (hop : op.identName? = none) :
    (op.rename ρ).operatorText = op.operatorText := by
  obtain ⟨kind, text, pos, rfl⟩ := htoken
  refine if_neg fun hkind => ?_
  subst hkind
  cases hop

theorem Mirror.lawful_renaming {ρ : String → String} (hρ : Renaming ρ) :
    (Mirror.renaming ρ).Lawful where
  injective := hρ.injective
  builtin := hρ.builtin
  receiver := hρ.receiver
  wildcard := hρ.wildcard
  spelled := False.elim
  tree {label cs p n'} h := by
    obtain ⟨rfl, hnames⟩ := h
    refine ⟨cs.map (Node.rename ρ), p, congrArg (Node.tree label · p) (Node.renameAll_eq_map ρ cs),
      List.forall₂_map_right_iff.mpr (List.forall₂_same.mpr fun c hc => ⟨rfl, hnames.child hc⟩)⟩
  token {kind text p n'} h := ⟨p, h.1⟩
  stray h := h.1
  operator {label a o b p a' o' b' p'} hlabel h := by
    have hshape := h.shape trivial
    obtain ⟨heq, hnames⟩ := h.node
    cases heq
    have hop : o.identName? = none := by
      refine hnames _ (Node.self_mem_inside _) o ?_
      rcases hlabel with rfl | rfl <;> rfl
    refine Mirror.operatorText_renaming ?_ hop
    rcases hlabel with rfl | rfl
    · cases hshape with
      | binop _ _ ho => obtain ⟨kind, pos, -⟩ := ho; exact ⟨_, _, _, rfl⟩
    · cases hshape with
      | inPlace _ _ ho => obtain ⟨kind, pos, -⟩ := ho; exact ⟨_, _, _, rfl⟩
  raised h := ⟨h.kind, rfl⟩
  left {n n' e e'} hn he := by
    obtain ⟨⟨rfl, -⟩, -⟩ := hn
    obtain ⟨hkind, hpos⟩ := he
    refine ⟨hkind, ?_⟩
    change e'.pos.or (n.rename ρ).position? = e.pos.or n.position?
    rw [hpos, Node.position?_rename]

/-! ## Evaluation -/

/-- Failures that differ in nothing but what names are mentioned: errors are of the same kind and
at the same position, and values that cannot be printed of the same kind of type. -/
inductive Failure.Alike : Failure → Failure → Prop
  | raised {e e' : RuntimeError} (hkind : e'.cause.kind = e.cause.kind) (hpos : e'.pos = e.pos) :
      Alike (.raised e) (.raised e')
  | undisplayable {t t' : ValueType} (hkind : t'.kind = t.kind) :
      Alike (.undisplayable t) (.undisplayable t')
  | host {f : Failure} (h : ∀ e, f ≠ .raised e) : Alike f f

theorem Failure.alike_of_mirrored {ρ : String → String} {f f' : Failure}
    (h : f.Mirrored (.renaming ρ) f') : f.Alike f' := by
  cases h with
  | raised h => exact .raised h.1 h.2
  | undisplayable h => exact .undisplayable h.kind
  | host h => exact .host h

/-- A renamed tree comes in a new environment to what the tree comes to, renamed. -/
theorem evalNode_rename {ρ : String → String} (hρ : Renaming ρ) {n : Node} (hn : n.WellShaped)
    (hnames : n.NamesInPlace) (config : Config) (limit depth : Nat) :
    ∃ r r' s s', evalNode limit depth n 0 (Store.root config) = (r, s) ∧
      evalNode limit depth (n.rename ρ) 0 (Store.root config) = (r', s') ∧
      Ends Failure.Alike (fun v v' => v' = v.recode ρ (Node.rename ρ)) r r' ∧
      s'.text = s.text ∧ { s' with log := #[] } = s.recode ρ (Node.rename ρ) := by
  have hM := Mirror.lawful_renaming hρ
  have hmirror : n.Mirrored (.renaming ρ) (n.rename ρ) := ⟨⟨rfl, hnames⟩, fun _ => hn⟩
  obtain ⟨hends, hstores⟩ := hM.sound limit depth n (n.rename ρ) 0 hmirror _ _
    (Store.mirrored_root _ config)
  have hnoting : evalNoting (Mirror.renaming ρ).note limit depth = evalNode limit depth :=
    evalNoting_position limit depth
  have hnoting' : evalNoting (Mirror.renaming ρ).note' limit depth = evalNode limit depth :=
    evalNoting_position limit depth
  rw [hnoting, hnoting'] at hends hstores
  have hcode := Mirror.codes_renaming ρ
  refine ⟨_, _, _, _, rfl, rfl, ?_, ?_, Store.eq_recode hcode hstores⟩
  · exact hends.mono (fun _ _ => Failure.alike_of_mirrored) fun _ _ => Value.eq_recode hcode
  · rw [Store.text, Store.text, hstores.written]

/-- `fn y(x) { x } y("a")` -/
def echoes : Node := .tree .block [
  .tree .funDef [.token .ident "y" none, .tree .params [.token .ident "x" none] none,
    .token .ident "x" none] none,
  .tree .call [.token .ident "y" none, .tree .args [.token .string "\"a\"" none] none] none] none

theorem wellShaped_echoes : echoes.WellShaped := by
  refine .block none (List.forall_mem_cons.mpr ⟨?_, List.forall_mem_singleton.mpr ?_⟩)
  · exact .funDef none (.intro ..) (.intro none (List.forall_mem_singleton.mpr (.intro ..)))
      (.ident ..)
  · exact .call none none (.intro ..) (List.forall_mem_singleton.mpr (.string ..))

theorem renaming_swap : Renaming (Equiv.swap "x" "y") where
  injective := (Equiv.swap "x" "y").injective
  builtin b := by cases b <;> decide
  receiver := by decide
  wildcard := by decide

/-- The function and its parameter change names, and the value is the same. -/
theorem evalNode_rename_echoes : ∃ s s',
    evalNode 9 9 echoes 0 (Store.root {}) = (.ok (.string "a"), s) ∧
    evalNode 9 9 (echoes.rename (Equiv.swap "x" "y")) 0 (Store.root {}) = (.ok (.string "a"), s') ∧
    (s'.bindings 0).names = ["x"] := by
  have hnames : echoes.NamesInPlace := by
    simp [Node.NamesInPlace, echoes, Node.inside, Node.insideAll, Node.operator?]
  obtain ⟨r, r', s, s', hr, hr', hends, -, hs⟩ :=
    evalNode_rename renaming_swap wellShaped_echoes hnames {} 9 9
  have hvalue : r = .ok (.string "a") := (congrArg Prod.fst hr).symm.trans rfl
  have hrenamed : ((s.recode (Equiv.swap "x" "y") (Node.rename (Equiv.swap "x" "y"))).bindings
      0).names = ["x"] := by
    have hstore : s = (evalNode 9 9 echoes 0 (Store.root {})).2 := congrArg Prod.snd hr.symm
    rw [hstore]
    decide +kernel
  subst hvalue
  obtain ⟨rfl⟩ | _ := hends
  refine ⟨s, s', hr, hr', ?_⟩
  rw [← hs] at hrenamed
  exact hrenamed

end Tern
