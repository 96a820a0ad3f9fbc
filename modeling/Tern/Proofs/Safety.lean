import Tern.Proofs.Indexing
import Tern.Proofs.Lexemes
import Tern.Proofs.Policy

/-!
# How evaluations end

The tree of a program that parses is well shaped, and so are the bodies that it defines, which are
all that an evaluation stores. Evaluating it where only such bodies are stored never blames the
tree: what ends without a value ends in a documented failure. The exceptions are not the tree's
doing. A range that was bound from outside may hold integers beyond the doubles, or end in one that
is too long to be written, and no evaluation makes such a range itself (`yields_evalNode`).
-/

namespace Tern

open Eval Number

/-! ## Bodies in trees -/

namespace Node

/-- The node is the body of a function or method that the tree defines at any depth. -/
inductive Defines : Node → Node → Prop
  | function {name params body : Node} {pos : Option Pos} :
      Defines (.tree .funDef [name, params, body] pos) body
  | method {struct method params body : Node} {pos : Option Pos} :
      Defines (.tree .impl [struct, method, params, body] pos) body
  | child {label : Label} {children : List Node} {pos : Option Pos} {c body : Node}
      (hc : c ∈ children) (h : Defines c body) : Defines (.tree label children pos) body

/-- What the nodes of well-shaped trees are. -/
inductive IsPiece : Node → Prop
  | whole {n : Node} (h : n.WellShaped) : IsPiece n
  | token (kind : TokenKind) (text : String) (pos : Option Pos) : IsPiece (.token kind text pos)
  | params {n : Node} (h : n.IsNames .params) : IsPiece n
  | fields {n : Node} (h : n.IsNames .fields) : IsPiece n
  | args {args : List Node} (pos : Option Pos) (h : ∀ n ∈ args, n.WellShaped) :
      IsPiece (.tree .args args pos)
  | pair {n : Node} (h : n.IsPair) : IsPiece n
  | arm {n : Node} (h : n.IsArm) : IsPiece n

theorem IsName.isPiece {n : Node} (h : n.IsName) : n.IsPiece := by
  obtain ⟨name, pos⟩ := h
  exact .token .ident name pos

theorem IsOperator.isPiece {n : Node} (h : n.IsOperator) : n.IsPiece := by
  obtain ⟨kind, pos, -⟩ := h
  exact .token kind _ pos

theorem IsUpdate.isPiece {n : Node} (h : n.IsUpdate) : n.IsPiece := by
  obtain ⟨kind, pos, -⟩ := h
  exact .token kind _ pos

variable {label : Label} {children : List Node} {pos : Option Pos}

theorem WellShaped.isPiece_child (h : (Node.tree label children pos).WellShaped) :
    ∀ c ∈ children, c.IsPiece := by
  cases h
  case empty => exact fun _ hc => by cases hc
  case block hb => exact fun c hc => .whole (hb c hc)
  case list hi => exact fun c hc => .whole (hi c hc)
  all_goals
    simp only [List.mem_cons, List.not_mem_nil, or_false, forall_eq_or_imp, forall_eq]
  case binop hl ho hr => exact ⟨.whole hl, ho.isPiece, .whole hr⟩
  case ifThen hc hy => exact ⟨.whole hc, .whole hy⟩
  case ifThenElse hc hy hn => exact ⟨.whole hc, .whole hy, .whole hn⟩
  case assign hx hv => exact ⟨hx.isPiece, .whole hv⟩
  case setVar hx hv => exact ⟨hx.isPiece, .whole hv⟩
  case inPlace hx ho hv => exact ⟨hx.isPiece, ho.isPiece, .whole hv⟩
  case whileLoop hc hb => exact ⟨.whole hc, .whole hb⟩
  case forLoop hx hi hb => exact ⟨hx.isPiece, .whole hi, .whole hb⟩
  case funDef hx hp hb => exact ⟨hx.isPiece, .params hp, .whole hb⟩
  case call hx ha => exact ⟨hx.isPiece, .args _ ha⟩
  case index hx hi => exact ⟨hx.isPiece, .whole hi⟩
  case range hs he => exact ⟨.whole hs, .whole he⟩
  case structDef hx hf => exact ⟨hx.isPiece, .fields hf⟩
  case callStruct hx hp => exact ⟨hx.isPiece, fun c hc => .pair (hp c hc)⟩
  case getAttr hx ha => exact ⟨hx.isPiece, ha.isPiece⟩
  case impl hs hm hp hb => exact ⟨hs.isPiece, hm.isPiece, .params hp, .whole hb⟩
  case getFunc hr hm ha => exact ⟨hr.isPiece, hm.isPiece, .args _ ha⟩
  case matching hs ha => exact ⟨.whole hs, fun c hc => .arm (ha c hc)⟩

theorem IsPiece.child (h : (Node.tree label children pos).IsPiece) :
    ∀ c ∈ children, c.IsPiece := by
  cases h with
  | whole h => exact h.isPiece_child
  | params h =>
      obtain ⟨_, hnames⟩ := h
      exact fun c hc => (hnames c hc).isPiece
  | fields h =>
      obtain ⟨_, hnames⟩ := h
      exact fun c hc => (hnames c hc).isPiece
  | args _ h => exact fun c hc => .whole (h c hc)
  | pair h =>
      obtain ⟨_, hk, hv⟩ := h
      simpa using And.intro hk.isPiece (IsPiece.whole hv)
  | arm h =>
      obtain ⟨_, hp, hb⟩ := h
      simpa using And.intro (IsPiece.whole hp) (IsPiece.whole hb)

/-- Definitions are whole nodes. -/
theorem IsPiece.wellShaped (h : (Node.tree label children pos).IsPiece)
    (hlabel : label = .funDef ∨ label = .impl) : (Node.tree label children pos).WellShaped := by
  cases h with
  | whole h => exact h
  | params h => cases h; simp at hlabel
  | fields h => cases h; simp at hlabel
  | args => simp at hlabel
  | pair h => cases h; simp at hlabel
  | arm h => cases h; simp at hlabel

theorem IsPiece.wellShaped_body {n body : Node} (hn : n.IsPiece) (h : n.Defines body) :
    body.WellShaped := by
  induction h with
  | function =>
      cases hn.wellShaped (.inl rfl) with
      | funDef _ _ _ hb => exact hb
  | method =>
      cases hn.wellShaped (.inr rfl) with
      | impl _ _ _ _ hb => exact hb
  | child hc _ ih => exact ih (hn.child _ hc)

/-- The body of a function or method that some source defines. -/
def FromSource (body : Node) : Prop :=
  ∃ source tree, parse source = .ok tree ∧ tree.Defines body

theorem FromSource.wellShaped {body : Node} (h : body.FromSource) : body.WellShaped := by
  obtain ⟨source, tree, hparse, hbody⟩ := h
  exact (IsPiece.whole (parse_wellShaped hparse)).wellShaped_body hbody

end Node

/-! ## Stored code and stored ranges -/

namespace Store

/-- All bodies of functions and methods that are stored have the property. -/
structure Code (s : Store) (p : Node → Prop) : Prop where
  functions : ∀ f, s.Holds (.function f) → p f.body
  methods : ∀ r name f, (s.methodsOf r).get? name = some f → p f.body

theorem Code.mono {s : Store} {p q : Node → Prop} (h : s.Code p) (hpq : ∀ n, p n → q n) :
    s.Code q :=
  ⟨fun f hf => hpq _ (h.functions f hf), fun r name f hf => hpq _ (h.methods r name f hf)⟩

/-- The integers of some stored range are a reason for the failure. -/
def Risks (s : Store) (f : Failure) : Prop :=
  ∃ start stop, s.Holds (.range start stop) ∧ f.OfRange start stop

/-- What may come of an evaluation. The store that it leaves is as good as the one before, and so
is a value. -/
structure Yields (s : Store) (r : Outcome Value) : Prop where
  value : ∀ v, r.1 = .ok v → ∀ f, (Value.function f).Part v → f.body.WellShaped
  ranges : ∀ v, r.1 = .ok v → ∀ start stop, (Value.range start stop).Part v →
    ∀ f : Failure, f.OfRange start stop → s.Risks f
  failure : ∀ f, r.1 = .error f → f.Documented ∨ s.Risks f
  code : r.2.Code Node.WellShaped
  risks : ∀ f, r.2.Risks f → s.Risks f

end Store

namespace Policy

/-- All stored code is well shaped, and stored ranges are the reason only for what they may be. -/
def code (risks : Failure → Prop) : Policy where
  layer _ := True
  part
    | .function f => f.body.WellShaped
    | .range start stop => ∀ f : Failure, f.OfRange start stop → risks f
    | _ => True
  failure f := f.Documented ∨ risks f
  shaped := True
  keeps _ := True

variable {s₀ s : Store}

theorem lawful_code (s₀ : Store) : (code s₀.Risks).Lawful where
  domain := {
    plain := by
      intro v hv
      cases v <;> trivial
    define := fun _ _ _ hb => hb trivial
    body := fun hf _ => hf
    range := fun x y _ h => absurd h (Failure.not_ofRange_truncate x y)
    ranged := fun hr hf => Or.inr (hr _ hf)
    documented := Or.inl
    located := by
      rintro e pos (he | ⟨start, stop, -, he⟩)
      · exact Or.inl he
      -- What a range is the reason for is the host's and has no position.
      · cases he
    unshaped := fun h => absurd trivial h }
  bind _ _ _ _ := trivial
  rebind _ _ _ _ := trivial
  spawn _ _ _ _ := ⟨trivial, trivial⟩
  addStruct _ _ _ := ⟨trivial, trivial⟩
  putMethod _ _ _ _ := trivial
  write _ _ := trivial
  record _ _ := trivial
  builtin? _ _ _ := trivial

theorem admits_code (hc : s.Code Node.WellShaped) : (code s.Risks).Admits s := by
  refine ⟨trivial, Store.all_iff_holds.mpr fun u hu => ?_, fun r name f hf _ => ?_⟩
  · cases u with
    | function f => exact hc.functions f hu
    | range start stop => exact fun f hf => ⟨start, stop, hu, hf⟩
    | _ => trivial
  · exact hc.methods r name f hf

theorem Admits.code (h : (code s₀.Risks).Admits s) : s.Code Node.WellShaped where
  functions _ hf := Store.all_iff_holds.mp h.values _ hf
  methods r name f hf := h.methods r name f hf trivial

theorem Admits.risks {f : Failure} (h : (Policy.code s₀.Risks).Admits s) (hf : s.Risks f) :
    s₀.Risks f := by
  obtain ⟨start, stop, hr, hf⟩ := hf
  exact Store.all_iff_holds.mp h.values _ hr f hf

end Policy

/-! ## Ranges from outside -/

/-- `for i in r { f(i) }` -/
def loopOverR : Node :=
  .tree .forLoop [.token .ident "i" (some ⟨1, 5⟩), .token .ident "r" (some ⟨1, 10⟩),
    .tree .block [.tree .call [.token .ident "f" (some ⟨1, 14⟩),
      .tree .args [.token .ident "i" (some ⟨1, 16⟩)] (some ⟨1, 16⟩)] (some ⟨1, 14⟩)]
      (some ⟨1, 12⟩)] (some ⟨1, 1⟩)

set_option maxRecDepth 2000 in
theorem parse_loopOverR : parse "for i in r \x7b f(i) \x7d"
    = .ok (.tree .block [loopOverR] (some ⟨1, 1⟩)) := by rfl

/-- `xs[r]` -/
def xsAtR : Node :=
  .tree .index [.token .ident "xs" (some ⟨1, 1⟩), .token .ident "r" (some ⟨1, 4⟩)] (some ⟨1, 1⟩)

set_option maxRecDepth 2000 in
theorem parse_xsAtR : parse "xs[r]" = .ok (.tree .block [xsAtR] (some ⟨1, 1⟩)) := by rfl

/-- The body of `fn f(x) { x }` -/
def bodyOfF : Node := .tree .block [.token .ident "x" (some ⟨1, 11⟩)] (some ⟨1, 9⟩)

set_option maxRecDepth 2000 in
theorem fromSource_bodyOfF : bodyOfF.FromSource := by
  refine ⟨"fn f(x) \x7b x \x7d", .tree .block [.tree .funDef [.token .ident "f" (some ⟨1, 4⟩),
    .tree .params [.token .ident "x" (some ⟨1, 6⟩)] (some ⟨1, 6⟩), bodyOfF] (some ⟨1, 1⟩)]
    (some ⟨1, 1⟩), rfl, ?_⟩
  exact .child (List.mem_singleton_self _) .function

section Outside

variable {s : Store} {e : LayerId} {a b : Int}

theorem forLoop_beyondDoubles {ev : Evaluator} {iterable : Node} (name : String)
    (pos : Option Pos) (body : Node) (hr : ev iterable e s = (.ok (.range a b), s))
    (hnone : ofInt? a = none) (hab : a < b) :
    forLoop ev e [.token .ident name pos, iterable, body] s
      = (.error (.beyondDoubles a), s) := by
  have hname : expectIdent (.token .ident name pos) s = (.ok name, s) := rfl
  have hturn : ∀ turn, wholeTurn turn a s = (.error (.beyondDoubles a), s) := by
    intro turn
    unfold wholeTurn
    rw [hnone]
    rfl
  obtain ⟨n, hn⟩ : ∃ n, (b - a).toNat = n + 1 := ⟨(b - a).toNat - 1, by omega⟩
  simp only [forLoop]
  rw [bind_apply, hname]
  dsimp only
  rw [bind_apply, hr]
  dsimp only
  rw [hn, overRange, bind_apply, hturn]

theorem evalNode_ofR (limit depth : Nat) (pos : Option Pos)
    (hr : s.lookup? e "r" = some (.range a b)) :
    evalNode limit (depth + 1) (.token .ident "r" pos) e s = (.ok (.range a b), s) := by
  show located _ (getName e "r") s = _
  rw [located, getName, bind_apply, lookup?, view, hr]
  rfl

/-- A block ends as its first statement does when that ends in a failure of the host. -/
theorem evalNode_block_of_host {limit depth : Nat} {n : Node} {f : Failure} (pos : Option Pos)
    (h : evalNode limit depth n e s = (.error f, s)) (hhost : ∀ r, f ≠ .raised r) :
    evalNode limit (depth + 1) (.tree .block [n] pos) e s = (.error f, s) := by
  have hblock : block (evalNode limit depth) e .nothing [n] s = (.error f, s) := by
    rw [block, bind_apply, h]
  have hplaced := located_error (.tree .block [n] pos) hblock
  rw [Failure.at_of_host hhost] at hplaced
  exact hplaced

/-- A range that starts with an integer beyond the doubles has no first turn. -/
theorem evalNode_loopOverR (limit depth : Nat) (pos : Option Pos)
    (hr : s.lookup? e "r" = some (.range a b)) (hnone : ofInt? a = none) (hab : a < b) :
    evalNode limit (depth + 3) (.tree .block [loopOverR] pos) e s
      = (.error (.beyondDoubles a), s) := by
  have hget := evalNode_ofR limit depth (some ⟨1, 10⟩) hr
  have hloop : evalNode limit (depth + 2) loopOverR e s = (.error (.beyondDoubles a), s) :=
    located_error loopOverR (forLoop_beyondDoubles "i" _ _ hget hnone hab)
  exact evalNode_block_of_host pos hloop nofun

/-- An empty list has no slice, and an error would name the start of the range. -/
theorem evalNode_xsAtR (limit depth : Nat) (pos : Option Pos)
    (hxs : s.lookup? e "xs" = some (.list [])) (hr : s.lookup? e "r" = some (.range a b))
    (hlong : tenTo digitLimit ≤ a.natAbs) :
    evalNode limit (depth + 3) (.tree .block [xsAtR] pos) e s = (.error (.unwritable a), s) := by
  have hget := evalNode_ofR limit depth (some ⟨1, 4⟩) hr
  have hnone : ¬Spans ([] : List Value).length a b := fun h =>
    absurd h.lt (Int.not_lt.mpr h.nonneg)
  have hindex : index (evalNode limit (depth + 1)) e
      [.token .ident "xs" (some ⟨1, 1⟩), .token .ident "r" (some ⟨1, 4⟩)] s
        = (.error (.unwritable a), s) := by
    rw [index_of_range rfl hxs hget, slice_of_not_spans hnone, if_neg (by simp),
      refuseIndex_of_le "xs" hlong]
    rfl
  have hnode : evalNode limit (depth + 2) xsAtR e s = (.error (.unwritable a), s) :=
    located_error xsAtR hindex
  exact evalNode_block_of_host pos hnode nofun

end Outside

/-- An environment with the range of one integer, an empty list and a function. -/
def withRange (i : Int) : Store :=
  (((Store.root {}).bind 0 "r" (.range i (i + 1))).bind 0 "xs" (.list [])).bind 0 "f"
    (.function ⟨"f", ["x"], bodyOfF, some 0⟩)

theorem code_withRange (i : Int) {p : Node → Prop} (hp : p bodyOfF) : (withRange i).Code p where
  functions f hf := by
    have hroot : (Store.root {}).All fun v => ∀ f, v = .function f → p f.body := by
      rintro (_ | l) q hq <;> cases hq
    have hrange := hroot.bind 0 "r" (v := .range i (i + 1))
      (Value.all_of_simple nofun nofun nofun)
    have hlist := hrange.bind 0 "xs" (v := .list []) (Value.all_list nofun nofun)
    have hall := hlist.bind 0 "f" (v := .function ⟨"f", ["x"], bodyOfF, some 0⟩)
      (Value.all_of_simple nofun nofun fun g hg => Value.function.inj hg ▸ hp)
    exact Store.all_iff_holds.mp hall _ hf f rfl
  methods r name f hf := by
    cases hf

/-- The power of two after the last finite double. -/
def pastDoubles : Int := Int.ofNat (twoTo 1024)

theorem ofInt?_pastDoubles : ofInt? pastDoubles = none := by
  have h : (ofInt? pastDoubles).isNone = true := by decide +kernel
  exact Option.isNone_iff_eq_none.mp h

/-! ## Outcomes -/

theorem yields_evalNode (limit depth : Nat) {tree : Node} (ht : tree.WellShaped) (e : LayerId)
    {s : Store} (hs : s.Code Node.WellShaped) : s.Yields (evalNode limit depth tree e s) := by
  obtain ⟨hends, hafter⟩ := Policy.safe_evalNode (Policy.lawful_code s) limit depth
    (e := e) ⟨trivial, False.elim⟩ (fun _ => ht) s (Policy.admits_code hs).at
  refine ⟨fun v hv f hf => ?_, fun v hv start stop hr => ?_, fun f hf => ?_, hafter.code,
    fun f hf => hafter.risks hf⟩
  · rw [hv] at hends
    exact hends _ hf
  · rw [hv] at hends
    exact hends _ hr
  · rw [hf] at hends
    exact hends

/-- The tree of a source is well shaped, and so is all code that is stored from sources. Where
the stored code is well shaped, evaluating the tree in any environment ends in a value or in a
documented failure, or else at an integer of a stored range: at one that has no double near it, or
at an end that has too many digits to be written. -/
theorem yields_of_parse {source : String} {tree : Node} (h : parse source = .ok tree) :
    tree.WellShaped ∧ (∀ s : Store, s.Code Node.FromSource → s.Code Node.WellShaped) ∧
    ∀ (limit depth : Nat) (e : LayerId) (s : Store), s.Code Node.WellShaped →
      s.Yields (evalNode limit depth tree e s) := by
  have ht := parse_wellShaped h
  refine ⟨ht, fun s hs => hs.mono fun _ => Node.FromSource.wellShaped, ?_⟩
  intro limit depth e s hs
  exact yields_evalNode limit depth ht e hs

/-- A loop that calls a function from another source. -/
theorem yields_of_parse_loopOverR :
    parse "for i in r \x7b f(i) \x7d" = .ok (.tree .block [loopOverR] (some ⟨1, 1⟩)) ∧
    (withRange 2).Code Node.FromSource ∧
    (withRange 2).Yields (evaluate (.tree .block [loopOverR] (some ⟨1, 1⟩)) 0 (withRange 2)) := by
  have hcode := code_withRange 2 fromSource_bodyOfF
  obtain ⟨-, hsources, hyields⟩ := yields_of_parse parse_loopOverR
  exact ⟨parse_loopOverR, hcode, hyields turnLimit depthLimit 0 _ (hsources _ hcode)⟩

/-- Documented failures are not enough when a range has been bound from outside: its integers may
be beyond the doubles, and its ends too long to be written in an error. -/
theorem undocumented_withRange :
    parse "for i in r \x7b f(i) \x7d" = .ok (.tree .block [loopOverR] (some ⟨1, 1⟩)) ∧
    (withRange pastDoubles).Code Node.FromSource ∧
    (evaluate (.tree .block [loopOverR] (some ⟨1, 1⟩)) 0 (withRange pastDoubles)).1
      = .error (.beyondDoubles pastDoubles) ∧
    ¬(Failure.beyondDoubles pastDoubles).Documented ∧
    parse "xs[r]" = .ok (.tree .block [xsAtR] (some ⟨1, 1⟩)) ∧
    (withRange pastWritten).Code Node.FromSource ∧
    (evaluate (.tree .block [xsAtR] (some ⟨1, 1⟩)) 0 (withRange pastWritten)).1
      = .error (.unwritable pastWritten) ∧
    ¬(Failure.unwritable pastWritten).Documented := by
  refine ⟨parse_loopOverR, code_withRange _ fromSource_bodyOfF, ?_, id,
    parse_xsAtR, code_withRange _ fromSource_bodyOfF, ?_, id⟩
  · have hfails := evalNode_loopOverR (s := withRange pastDoubles) (e := 0) turnLimit 997
      (some ⟨1, 1⟩) rfl ofInt?_pastDoubles (by omega)
    exact congrArg Prod.fst hfails
  · have hfails := evalNode_xsAtR (s := withRange pastWritten) (e := 0) turnLimit 997
      (some ⟨1, 1⟩) rfl rfl le_natAbs_pastWritten
    exact congrArg Prod.fst hfails

end Tern
