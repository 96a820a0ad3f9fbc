import Tern.Proofs.Parallel
import Tern.Proofs.Positions
import Tern.Program

/-!
# Evaluation apart from positions

Positions are kept in trees, in the bodies of functions, in errors and in the log, and they
influence nothing else. Values and stores are *bare* when positions are taken out of them; bare
stores also forget the log, which is no part of what a program does. Two runs mirror each other
apart from positions just when they are the same bare (`Value.mirrored_iff`,
`Store.mirrored_iff`), so trees that are the same bare are evaluated to results that are
(`bare_evalNode`).
-/

namespace Tern

open Eval

/-! ## Bare values and stores -/

def Function.bare (f : Function) : Function := { f with body := f.body.bare }

mutual

/-- A value where the bodies of functions have no positions. -/
def Value.bare : Value → Value
  | .list items => .list (Value.bareItems items)
  | .function f => .function f.bare
  | .object name fields => .object name (Value.bareFields fields)
  | v => v

def Value.bareItems : List Value → List Value
  | [] => []
  | v :: rest => v.bare :: Value.bareItems rest

def Value.bareFields : List (String × Value) → List (String × Value)
  | [] => []
  | (x, v) :: rest => (x, v.bare) :: Value.bareFields rest

end

def Layer.bare (l : Layer) : Layer :=
  { l with bindings := l.bindings.map (Prod.map id Value.bare) }

/-- A store where the bodies of functions have no positions, and without the log. -/
def Store.bare (s : Store) : Store :=
  { layers := s.layers.map Layer.bare
    methods := s.methods.map fun table => table.map (Prod.map id Function.bare)
    registries := s.registries
    written := s.written
    log := #[] }

/-- A failure without a position. -/
def Failure.bare : Failure → Failure
  | .raised e => .raised ⟨e.cause, none⟩
  | f => f

/-- What has come of an evaluation, bare. -/
def Outcome.bare : Outcome Value → Except Failure Value × Store
  | (.ok v, s) => (.ok v.bare, s.bare)
  | (.error f, s) => (.error f.bare, s.bare)

/-- What has come of running a text, bare. -/
def RunOutcome.bare : RunOutcome → RunOutcome
  | (.ok v, s) => (.ok v.bare, s.bare)
  | (.error (.failed f), s) => (.error (.failed f.bare), s.bare)
  | (.error (.rejected e), s) => (.error (.rejected e), s.bare)

/-! ## The mirror -/

/-- On the other side positions may be different. -/
def Mirror.bare : Mirror where
  name := id
  node n n' := n.bare = n'.bare
  error e e' := e.cause = e'.cause
  note n e := e.at n.position?
  note' n e := e.at n.position?
  shaped := False
  verbatim := True

mutual

theorem Node.inspect_reposition (f : Option Pos → Option Pos) :
    ∀ n : Node, (n.reposition f).inspect = n.inspect
  | .tree label cs pos => by
      rw [Node.reposition, Node.inspect, Node.inspect, inspectAll_reposition f cs]
  | .token .. => rfl
  | .stray _ => rfl

theorem Node.inspectAll_reposition (f : Option Pos → Option Pos) :
    ∀ ns : List Node, Node.inspectAll (Node.repositionAll f ns) = Node.inspectAll ns
  | [] => rfl
  | [n] => n.inspect_reposition f
  | n :: m :: rest => by
      show (n.reposition f).inspect ++ ", " ++ Node.inspectAll (Node.repositionAll f (m :: rest)) =
        n.inspect ++ ", " ++ Node.inspectAll (m :: rest)
      rw [n.inspect_reposition f, inspectAll_reposition f (m :: rest)]

end

theorem Node.operatorText_bare (n : Node) : n.bare.operatorText = n.operatorText := by
  cases n with
  | tree label cs pos => exact Node.inspect_reposition _ (.tree label cs pos)
  | token kind text pos => rfl
  | stray d => rfl

theorem forall₂_of_map_bare {cs cs' : List Node} (h : cs.map Node.bare = cs'.map Node.bare) :
    List.Forall₂ (fun n n' => n.bare = n'.bare) cs cs' := by
  rw [← List.forall₂_eq_eq_eq] at h
  exact List.forall₂_map_left_iff.mp (List.forall₂_map_right_iff.mp h)

theorem Mirror.lawful_bare : Mirror.bare.Lawful where
  injective := Function.injective_id
  builtin _ := rfl
  receiver := rfl
  wildcard := rfl
  spelled _ _ := rfl
  tree {label cs p n'} h := by
    cases n' with
    | tree label' cs' p' =>
        change (Node.tree label cs p).bare = (Node.tree label' cs' p').bare at h
        rw [Node.bare_tree, Node.bare_tree] at h
        obtain ⟨rfl, hcs, -⟩ := Node.tree.inj h
        exact ⟨cs', p', rfl, forall₂_of_map_bare hcs⟩
    | token | stray => cases h
  token {kind text p n'} h := by
    cases n' with
    | token kind' text' p' =>
        cases h
        exact ⟨p', congrArg (Node.token kind · p') (ite_self text).symm⟩
    | tree | stray => cases h
  stray {d n'} h := by
    cases n' with
    | stray d' =>
        cases h
        rfl
    | tree | token => cases h
  operator {label a o b p a' o' b' p'} _ h := by
    have hcs := h.node
    change (Node.tree label [a, o, b] p).bare = (Node.tree label [a', o', b'] p').bare at hcs
    simp only [Node.bare_tree, List.map_cons, Node.tree.injEq, List.cons.injEq] at hcs
    rw [← o'.operatorText_bare, ← hcs.2.1.2.1, o.operatorText_bare]
  raised h := (h.same trivial).symm
  left _ h := h

/-! ## The same bare -/

theorem Function.mirrored_iff (f f' : Function) : f.Mirrored .bare f' ↔ f.bare = f'.bare := by
  constructor
  · intro h
    have hparams : f'.params = f.params := h.params.trans (List.map_id _)
    have hname : f'.name = f.name := h.name
    have hbody : f.body.bare = f'.body.bare := h.body.node
    rw [Function.bare, Function.bare, hname, hparams, h.frame, hbody]
  · intro h
    obtain ⟨hname, hparams, hbody, hframe⟩ := Function.mk.inj h
    exact ⟨hname.symm, hparams.symm.trans (List.map_id _).symm, ⟨hbody, False.elim⟩, hframe.symm⟩

mutual

theorem Value.bare_of_mirrored : ∀ {v v' : Value}, v.Mirrored .bare v' → v.bare = v'.bare
  | _, _, .nothing => rfl
  | _, _, .number _ => rfl
  | _, _, .string _ => rfl
  | _, _, .bool _ => rfl
  | _, _, .list h => congrArg Value.list (bareItems_of_mirrored h)
  | _, _, .range _ _ => rfl
  | _, _, .function h => congrArg Value.function ((Function.mirrored_iff _ _).mp h)
  | .struct r, .struct r', .struct h => by
      have hfields : r'.fields = r.fields := h.fields.trans (List.map_id _)
      obtain rfl : r' = r := by
        cases r'
        cases r
        cases h.id
        cases h.name
        cases hfields
        rfl
      rfl
  | _, _, .object h => congrArg (Value.object _) (bareFields_of_mirrored h)
  | _, _, .enum _ => rfl
  | _, _, .variant _ _ => rfl

theorem Value.bareItems_of_mirrored : ∀ {vs vs' : List Value},
    List.Forall₂ (Value.Mirrored .bare) vs vs' → Value.bareItems vs = Value.bareItems vs'
  | _, _, .nil => rfl
  | _, _, .cons h hs => congrArg₂ List.cons (bare_of_mirrored h) (bareItems_of_mirrored hs)

theorem Value.bareFields_of_mirrored : ∀ {fs fs' : List (String × Value)},
    List.Forall₂ (Entry id (Value.Mirrored .bare)) fs fs' →
    Value.bareFields fs = Value.bareFields fs'
  | _, _, .nil => rfl
  | _, _, .cons (.mk h) hs =>
      congrArg₂ List.cons (congrArg (Prod.mk _) (bare_of_mirrored h)) (bareFields_of_mirrored hs)

end

mutual

theorem Value.mirrored_of_bare : ∀ {v v' : Value}, v.bare = v'.bare → v.Mirrored .bare v'
  | .list items, .list items', h => .list (mirrored_of_bareItems (Value.list.inj h))
  | .object name fields, .object name' fields', h => by
      obtain ⟨rfl, hfields⟩ := Value.object.inj h
      exact .object (mirrored_of_bareFields hfields)
  | .function f, .function f', h =>
      .function ((Function.mirrored_iff f f').mpr (Value.function.inj h))
  | .struct r, v', h => by
      cases v' with
      | struct r' =>
          obtain rfl := Value.struct.inj h
          exact .struct ⟨rfl, rfl, (List.map_id _).symm⟩
      | _ => cases h
  | .nothing, v', h | .number _, v', h | .string _, v', h | .bool _, v', h | .range _ _, v', h
  | .enum _, v', h | .variant _ _, v', h => by
      cases v' <;> cases h
      constructor

theorem Value.mirrored_of_bareItems : ∀ {vs vs' : List Value},
    Value.bareItems vs = Value.bareItems vs' → List.Forall₂ (Value.Mirrored .bare) vs vs'
  | [], [], _ => .nil
  | v :: vs, v' :: vs', h => by
      obtain ⟨hfirst, hrest⟩ := List.cons.inj h
      exact .cons (mirrored_of_bare hfirst) (mirrored_of_bareItems hrest)

theorem Value.mirrored_of_bareFields : ∀ {fs fs' : List (String × Value)},
    Value.bareFields fs = Value.bareFields fs' →
    List.Forall₂ (Entry id (Value.Mirrored .bare)) fs fs'
  | [], [], _ => .nil
  | (x, v) :: fs, (x', v') :: fs', h => by
      obtain ⟨hfirst, hrest⟩ := List.cons.inj h
      obtain ⟨rfl, hv⟩ := Prod.mk.inj hfirst
      exact .cons (.mk (mirrored_of_bare hv)) (mirrored_of_bareFields hrest)

end

theorem Value.mirrored_iff (v v' : Value) : v.Mirrored .bare v' ↔ v.bare = v'.bare :=
  ⟨Value.bare_of_mirrored, Value.mirrored_of_bare⟩

theorem forall₂_entry_iff {α : Type} {R : α → α → Prop} {g : α → α}
    (h : ∀ a b, R a b ↔ g a = g b) : ∀ {b c : Bindings α},
    List.Forall₂ (Entry id R) b c ↔ b.map (Prod.map id g) = c.map (Prod.map id g)
  | [], [] => ⟨fun _ => rfl, fun _ => .nil⟩
  | [], _ :: _ => by constructor <;> intro h <;> cases h
  | _ :: _, [] => by constructor <;> intro h <;> cases h
  | (x, a) :: b, (y, d) :: c => by
      rw [List.forall₂_cons, forall₂_entry_iff h, List.map_cons, List.map_cons, List.cons.injEq]
      refine and_congr_left fun _ => ⟨fun hentry => ?_, fun heq => ?_⟩
      · obtain ⟨hab⟩ := hentry
        exact congrArg (Prod.mk x) ((h _ _).mp hab)
      · obtain ⟨rfl, hab⟩ := Prod.mk.inj heq
        exact .mk ((h _ _).mpr hab)

theorem Layer.mirrored_iff {l l' : Layer} : l.Mirrored .bare l' ↔ l.bare = l'.bare := by
  constructor
  · intro h
    have hbindings := (forall₂_entry_iff Value.mirrored_iff).mp h.bindings
    rw [Layer.bare, Layer.bare, h.parent, hbindings, h.registry, h.config]
  · intro h
    obtain ⟨hparent, hbindings, hregistry, hconfig⟩ := Layer.mk.inj h
    exact ⟨hparent.symm, (forall₂_entry_iff Value.mirrored_iff).mpr hbindings, hregistry.symm,
      hconfig.symm⟩

theorem Store.bare_eq_iff {s t : Store} : s.bare = t.bare ↔
    s.layers.map Layer.bare = t.layers.map Layer.bare ∧
    s.methods.map (List.map (Prod.map id Function.bare)) =
      t.methods.map (List.map (Prod.map id Function.bare)) ∧
    s.registries = t.registries ∧ s.written = t.written := by
  constructor
  · intro h
    obtain ⟨hlayers, hmethods, hregistries, hwritten, -⟩ := Store.mk.inj h
    exact ⟨hlayers, hmethods, hregistries, hwritten⟩
  · rintro ⟨hlayers, hmethods, hregistries, hwritten⟩
    rw [Store.bare, Store.bare, hlayers, hmethods, hregistries, hwritten]

/-- Arrays are the same under a function when they are so place by place. -/
theorem map_eq_map_iff {α β : Type} (g : α → β) {as bs : Array α} (fallback : α) :
    as.map g = bs.map g ↔ bs.size = as.size ∧
      ∀ i : Nat, g ((as[i]?).getD fallback) = g ((bs[i]?).getD fallback) := by
  constructor
  · intro h
    refine ⟨?_, fun i => ?_⟩
    · rw [← Array.size_map (f := g), ← h, Array.size_map]
    · have hi := congrArg (fun cs : Array β => (cs[i]?).getD (g fallback)) h
      simpa only [Array.getElem?_map, Option.getD_map] using hi
  · rintro ⟨hsize, h⟩
    refine Array.ext (by rw [Array.size_map, Array.size_map, hsize]) fun i hi hi' => ?_
    rw [Array.size_map] at hi hi'
    have := h i
    rw [Array.getElem?_eq_getElem hi, Array.getElem?_eq_getElem hi'] at this
    rw [Array.getElem_map, Array.getElem_map]
    exact this

theorem Store.mirrored_iff (s t : Store) : s.Mirrored .bare t ↔ s.bare = t.bare := by
  rw [Store.bare_eq_iff, map_eq_map_iff _ noLayer, map_eq_map_iff _ []]
  constructor
  · intro h
    exact ⟨⟨h.size, fun i => Layer.mirrored_iff.mp (h.layer i)⟩,
      ⟨h.structs, fun i => (forall₂_entry_iff Function.mirrored_iff).mp (h.methods i)⟩,
      h.registries.symm, h.written.symm⟩
  · rintro ⟨⟨hsize, hlayer⟩, ⟨hstructs, hmethods⟩, hregistries, hwritten⟩
    exact ⟨hsize, fun l => Layer.mirrored_iff.mpr (hlayer l), hstructs,
      fun i => (forall₂_entry_iff Function.mirrored_iff).mpr (hmethods i), hregistries.symm,
      hwritten.symm⟩

/-! ## Evaluation -/

theorem Failure.bare_of_mirrored {f f' : Failure} (h : f.Mirrored .bare f') : f.bare = f'.bare := by
  cases h with
  | raised h => exact congrArg (fun c => Failure.raised ⟨c, none⟩) h
  | undisplayable h => exact congrArg Failure.undisplayable (h.same trivial).symm
  | host => rfl

theorem Outcome.bare_eq {o o' : Outcome Value}
    (h : Ends (Failure.Mirrored .bare) (Value.Mirrored .bare) o.1 o'.1)
    (hst : o.2.Mirrored .bare o'.2) : Outcome.bare o = Outcome.bare o' := by
  have hst := (Store.mirrored_iff _ _).mp hst
  obtain ⟨r, s⟩ := o
  obtain ⟨r', t⟩ := o'
  cases h with
  | ok h => exact congrArg₂ (fun v s => (Except.ok v, s)) (Value.bare_of_mirrored h) hst
  | error h => exact congrArg₂ (fun f s => (Except.error f, s)) (Failure.bare_of_mirrored h) hst

/-- Trees that are the same bare come to the same bare in stores that are the same bare. -/
theorem bare_evalNode (limit depth : Nat) {n n' : Node} (hn : n.bare = n'.bare) (e : LayerId)
    {s t : Store} (hst : s.bare = t.bare) :
    Outcome.bare (evalNode limit depth n e s) = Outcome.bare (evalNode limit depth n' e t) := by
  obtain ⟨hends, hstores⟩ := Mirror.lawful_bare.sound limit depth n n' e ⟨hn, False.elim⟩ s t
    ((Store.mirrored_iff s t).mpr hst)
  have hnoting : evalNoting Mirror.bare.note limit depth = evalNode limit depth :=
    evalNoting_position limit depth
  have hnoting' : evalNoting Mirror.bare.note' limit depth = evalNode limit depth :=
    evalNoting_position limit depth
  rw [hnoting, hnoting'] at hends hstores
  exact Outcome.bare_eq hends hstores

/-! ## Programs -/

/-- What a program comes to, from what its tree comes to. -/
def RunOutcome.ofOutcome : Except Failure Value × Store → RunOutcome
  | (.ok v, s) => (.ok v, s)
  | (.error f, s) => (.error (.failed f), s)

theorem bare_submit {source : String} {tree : Node} (h : parse source = .ok tree) (e : LayerId)
    (s : Store) :
    (submit source e s).bare = RunOutcome.ofOutcome (Outcome.bare (evaluate tree e s)) := by
  simp only [submit, h]
  split
  · next hvalue => rw [hvalue]; rfl
  · next hfailure => rw [hfailure]; rfl

/-- A run comes to what its tree comes to; what it records itself makes no difference. -/
theorem bare_run {source : String} {tree : Node} (h : parse source = .ok tree) (e : LayerId)
    (s : Store) :
    (run source e s).bare = RunOutcome.ofOutcome (Outcome.bare (evaluate tree e s)) := by
  have hlog : Outcome.bare (evaluate tree e (s.record (.started source.length))) =
      Outcome.bare (evaluate tree e s) := bare_evalNode turnLimit depthLimit rfl e rfl
  rw [← hlog]
  simp only [run, h]
  split
  · next hvalue => rw [hvalue]; rfl
  · next hfailure => rw [hfailure]; rfl

end Tern
