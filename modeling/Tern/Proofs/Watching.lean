import Tern.Proofs.Parallel
import Tern.Proofs.Policy
import Tern.Proofs.Recoding

/-!
# Moments of an evaluation

What happens in the middle of an evaluation is what comes of the nodes that are evaluated on the
way. `evalWatching` evaluates as always and looks at each of these moments: from which store a node
is evaluated, in which layer, and what comes of it. When it sees what it watches for it raises an
alarm, which is a record in the log that evaluation itself never makes and never takes back. Nothing
else is different (`evalWatching_eq`). So something *happens* in an evaluation when the watch raises
an alarm (`Happens`).

What a logic says of every evaluation it also says of every watched one, as long as alarms are
right by it (`Logic.sound_evalWatching`). So what a policy keeps from the start to the end it keeps
at all moments (`Policy.not_happens`).
-/

namespace Tern

open Eval

/-- The record of an alarm. -/
def alarm : Event := .hostFailed

theorem ne_alarm_of_topic {event : Event} (h : event.topic ≠ .program) : event ≠ alarm := by
  rintro rfl
  exact h rfl

/-- What to watch for: how deep evaluation may still nest, the node, its layer, the store that it
is evaluated from and what has come of it. -/
abbrev Watch := (depth : Nat) → Node → LayerId → Store → Outcome Value → Prop

namespace Eval

open Classical in
/-- Raises an alarm when what has come of an evaluation is as it is watched for. -/
noncomputable def watched (p : Store → Outcome Value → Prop) (x : Eval Value) : Eval Value :=
  fun s => if p s (x s) then ((x s).1, (x s).2.record alarm) else x s

/-- Evaluates like `evalNode` and watches. -/
noncomputable def evalWatching (p : Watch) (limit : Nat) : (depth : Nat) → Evaluator
  | 0 => fun n e => watched (p 0 n e) (fail .tooDeep)
  | depth + 1 => fun n e =>
    watched (p (depth + 1) n e) (located n (step limit (evalWatching p limit depth) n e))

/-- At some moment of the evaluation there is what is watched for. -/
def Happens (p : Watch) (limit depth : Nat) (n : Node) (e : LayerId) (s : Store) : Prop :=
  alarm ∈ (evalWatching p limit depth n e { s with log := #[] }).2.log

theorem watched_of_not {p : Store → Outcome Value → Prop} {x : Eval Value} {s : Store}
    (h : ¬p s (x s)) : watched p x s = x s := if_neg h

theorem fst_watched (p : Store → Outcome Value → Prop) (x : Eval Value) (s : Store) :
    (watched p x s).1 = (x s).1 := by
  unfold watched
  split <;> rfl

theorem snd_watched (p : Store → Outcome Value → Prop) (x : Eval Value) (s : Store) :
    (watched p x s).2 = (x s).2 ∨
      p s (x s) ∧ (watched p x s).2 = (x s).2.record alarm := by
  unfold watched
  split
  · next h => exact .inr ⟨h, rfl⟩
  · exact .inl rfl

end Eval

/-! ## The same evaluation -/

/-- The same nodes and errors on both sides. -/
def Mirror.same : Mirror where
  name := id
  node n n' := n' = n
  error e e' := e' = e
  note n e := e.at n.position?
  note' n e := e.at n.position?
  shaped := False
  verbatim := True

theorem Mirror.lawful_same : Mirror.same.Lawful where
  injective := Function.injective_id
  builtin _ := rfl
  receiver := rfl
  wildcard := rfl
  spelled _ _ := rfl
  tree {label cs p n'} h := ⟨cs, p, h, List.forall₂_same.mpr fun _ _ => rfl⟩
  token {kind text p n'} h := ⟨p, h.trans (congrArg (Node.token kind · p) (ite_self text).symm)⟩
  stray h := h
  operator {label a o b p a' o' b' p'} _ h := by
    cases h.node
    rfl
  raised h := congrArg (RuntimeError.mk · none) (h.same trivial)
  left {n n' e e'} hn he := by
    cases hn.node
    cases he
    rfl

theorem Failure.eq_of_mirrored {f f' : Failure} (h : f.Mirrored .same f') : f' = f := by
  cases h with
  | raised h => exact congrArg Failure.raised h
  | undisplayable h => exact congrArg Failure.undisplayable (h.same trivial)
  | host => rfl

theorem Value.eq_of_mirrored {v v' : Value} (h : v.Mirrored .same v') : v' = v :=
  (Value.eq_recode (fun _ _ h => h) h).trans v.recode_id

theorem Store.eq_of_mirrored {s t : Store} (h : s.Mirrored .same t) :
    { t with log := #[] } = { s with log := #[] } :=
  (Store.eq_recode (fun _ _ h => h) h).trans s.recode_id

mutual

theorem Value.mirrored_same : ∀ v : Value, v.Mirrored .same v
  | .list items => .list (mirrored_sameItems items)
  | .function _ => .function ⟨rfl, (List.map_id _).symm, ⟨rfl, False.elim⟩, rfl⟩
  | .struct _ => .struct ⟨rfl, rfl, (List.map_id _).symm⟩
  | .object _ fields => .object (mirrored_sameFields fields)
  | .nothing => .nothing
  | .number x => .number x
  | .string text => .string text
  | .bool b => .bool b
  | .range start stop => .range start stop
  | .enum variants => .enum variants
  | .variant owner name => .variant owner name

theorem Value.mirrored_sameItems : ∀ vs : List Value, List.Forall₂ (Value.Mirrored .same) vs vs
  | [] => .nil
  | v :: rest => .cons v.mirrored_same (mirrored_sameItems rest)

theorem Value.mirrored_sameFields : ∀ fs : List (String × Value),
    List.Forall₂ (Entry id (Value.Mirrored .same)) fs fs
  | [] => .nil
  | (_, v) :: rest => .cons (.mk v.mirrored_same) (mirrored_sameFields rest)

end

theorem Store.mirrored_same (s : Store) (log : Array Event) :
    s.Mirrored .same { s with log := log } where
  size := rfl
  layer _ := ⟨rfl, Value.mirrored_sameFields _, rfl, rfl⟩
  structs := rfl
  methods _ := List.forall₂_same.mpr fun _ _ =>
    .mk ⟨rfl, (List.map_id _).symm, ⟨rfl, False.elim⟩, rfl⟩
  registries := rfl
  written := rfl

theorem Mirror.Holds.watched {M : Mirror} {x y : Eval Value} {Q : Value → Value → Prop}
    (h : M.Holds x y Q) (p : Store → Outcome Value → Prop) : M.Holds (watched p x) y Q := by
  intro s t hst
  obtain ⟨hends, hstores⟩ := h s t hst
  rw [fst_watched]
  refine ⟨hends, ?_⟩
  obtain hsame | ⟨-, hrecord⟩ := snd_watched p x s
  · rw [hsame]
    exact hstores
  · rw [hrecord]
    exact ⟨hstores.size, hstores.layer, hstores.structs, hstores.methods, hstores.registries,
      hstores.written⟩

theorem sound_evalWatching (p : Watch) (limit : Nat) :
    ∀ depth, Mirror.same.Sound (evalWatching p limit depth) (evalNode limit depth)
  | 0 => fun _ _ _ _ =>
      have hfail : Mirror.same.Holds (fail .tooDeep : Eval Value) (fail .tooDeep) _ :=
        Mirror.holds_fail (.host nofun)
      hfail.watched _
  | depth + 1 => fun n n' e hn =>
      have hstep :=
        Mirror.holds_step Mirror.lawful_same (sound_evalWatching p limit depth) e limit hn
      have hlocated : Mirror.same.Holds (located n _) (located n' _) _ :=
        Mirror.holds_noted hstep fun _ _ he => Mirror.lawful_same.left hn he
      hlocated.watched _

/-- What is watched comes to the same, apart from the log. -/
theorem evalWatching_eq (p : Watch) (limit depth : Nat) (n : Node) (e : LayerId) {s t : Store}
    (hst : { t with log := #[] } = { s with log := #[] }) :
    (evalWatching p limit depth n e s).1 = (evalNode limit depth n e t).1 ∧
      { (evalWatching p limit depth n e s).2 with log := #[] } =
        { (evalNode limit depth n e t).2 with log := #[] } := by
  have ht : t = { s with log := t.log } := congrArg (fun u : Store => { u with log := t.log }) hst
  have hmirrored : s.Mirrored .same t := by
    rw [ht]
    exact s.mirrored_same t.log
  obtain ⟨hends, hstores⟩ :=
    sound_evalWatching p limit depth n n e ⟨rfl, False.elim⟩ s t hmirrored
  refine ⟨?_, (Store.eq_of_mirrored hstores).symm⟩
  generalize (evalWatching p limit depth n e s).1 = r,
    (evalNode limit depth n e t).1 = r' at hends
  cases hends with
  | ok h => exact congrArg Except.ok (Value.eq_of_mirrored h).symm
  | error h => exact congrArg Except.error (Failure.eq_of_mirrored h).symm

theorem fst_evalWatching (p : Watch) (limit depth : Nat) (n : Node) (e : LayerId) (s : Store) :
    (evalWatching p limit depth n e { s with log := #[] }).1 = (evalNode limit depth n e s).1 :=
  (evalWatching_eq p limit depth n e (s := { s with log := #[] }) (t := s) rfl).1

/-- What is watched for from the start raises an alarm, whatever comes of it. -/
theorem alarm_mem_evalWatching {p : Watch} (limit : Nat) {depth : Nat} {n : Node} {e : LayerId}
    {s : Store} (h : ∀ o, p depth n e s o) : alarm ∈ (evalWatching p limit depth n e s).2.log := by
  cases depth <;> unfold evalWatching watched <;> rw [if_pos (h _)] <;> exact Array.mem_push_self

/-- Where nothing is watched for there is no difference at all. -/
theorem evalWatching_of_never {p : Watch} (limit : Nat) : ∀ depth,
    (∀ d ≤ depth, ∀ n e s o, ¬p d n e s o) → evalWatching p limit depth = evalNode limit depth
  | 0, h => funext₂ fun n e => funext fun s => watched_of_not (h 0 (Nat.le_refl 0) n e s _)
  | depth + 1, h => by
      unfold evalWatching evalNode
      rw [evalWatching_of_never limit depth fun d hd => h d (Nat.le_succ_of_le hd)]
      exact funext₂ fun n e => funext fun s => watched_of_not (h _ (Nat.le_refl _) n e s _)

/-- Where nothing is watched for further in, a node is evaluated and then looked at. -/
theorem evalWatching_outermost {p : Watch} (limit : Nat) {depth : Nat}
    (h : ∀ d < depth, ∀ n e s o, ¬p d n e s o) (n : Node) (e : LayerId) :
    evalWatching p limit depth n e = watched (p depth n e) (evalNode limit depth n e) := by
  cases depth with
  | zero => rfl
  | succ depth =>
      unfold evalWatching evalNode
      rw [evalWatching_of_never limit depth fun d hd => h d (Nat.lt_succ_of_le hd)]

/-- Where the node itself is not watched for, what happens does so inside. -/
theorem happens_iff_step {p : Watch} {limit depth : Nat} {n : Node} {e : LayerId} {s : Store}
    (h : ∀ o, ¬p (depth + 1) n e { s with log := #[] } o) :
    Happens p limit (depth + 1) n e s ↔
      alarm ∈ (step limit (evalWatching p limit depth) n e { s with log := #[] }).2.log := by
  have hwatching : evalWatching p limit (depth + 1) n e { s with log := #[] } =
      located n (step limit (evalWatching p limit depth) n e) { s with log := #[] } :=
    watched_of_not (h _)
  rw [Happens, hwatching, snd_located]

/-- Nothing happens inside a node that comes to the same, and makes no record, whatever evaluates
the nodes inside. -/
theorem not_happens_inside {limit depth : Nat} {n : Node} {e : LayerId} {s : Store}
    (h : ∀ ev, (step limit ev n e { s with log := #[] }).2.log = #[]) :
    ¬Happens (fun d _ _ _ _ => d ≤ depth) limit (depth + 1) n e s := by
  rw [happens_iff_step fun _ => Nat.not_succ_le_self depth, h]
  exact Array.not_mem_empty alarm

/-! ## Watching within a logic -/

/-- What is right by a logic at every moment is so all along. What comes of a moment is what comes
of the node without any watch. -/
theorem Logic.sound_evalWatching (L : Logic) (hc : L.catches) (p : Watch) (limit : Nat)
    (hp : ∀ ⦃σ⦄ depth n e x, L.knows σ e → (∀ s, (x s).1 = (evalNode limit depth n e s).1) →
      L.Holds σ x L.value → L.Holds σ (watched (p depth n e) x) L.value) :
    ∀ depth, L.Sound (evalWatching p limit depth)
  | 0 => fun _ n e he _ => hp 0 n e _ he (fun _ => rfl) (L.fail (L.lawful.documented trivial))
  | depth + 1 => fun _ n e he hn => by
      have hsound := L.sound_evalWatching hc p limit hp depth
      refine hp (depth + 1) n e _ he (fun s => ?_)
        (L.located n (holds_step hsound he hc limit hn))
      rw [← (evalWatching_eq p limit (depth + 1) n e (s := s) rfl).1]
      exact (fst_watched ..).symm

namespace Policy

/-- The same policy, and there has been no alarm. -/
def quiet (P : Policy) : Policy where
  toDomain := P.toDomain
  keeps s := P.keeps s ∧ alarm ∉ s.log
  present := P.present

variable {P : Policy} {count : Nat}

theorem Admits.of_quiet {s : Store} (h : P.quiet.Admits s) : P.Admits s :=
  ⟨h.keeps.1, h.values, h.methods⟩

theorem lawful_quiet (hP : P.Lawful) : P.quiet.Lawful where
  domain := hP.domain
  bind name v hs he := ⟨hP.bind name v hs.of_quiet he, hs.keeps.2⟩
  rebind v hs he hl := ⟨hP.rebind v hs.of_quiet he hl, hs.keeps.2⟩
  spawn hs he hlt hp :=
    have hspawn := hP.spawn hs.of_quiet he hlt hp
    ⟨⟨hspawn.1, hs.keeps.2⟩, hspawn.2⟩
  addStruct name fields hs :=
    have hadd := hP.addStruct name fields hs.of_quiet
    ⟨⟨hadd.1, hs.keeps.2⟩, hadd.2⟩
  putMethod r name f hs := ⟨hP.putMethod r name f hs.of_quiet, hs.keeps.2⟩
  write text hs := ⟨hP.write text hs.of_quiet, hs.keeps.2⟩
  record hevent hs := by
    refine ⟨hP.record hevent hs.of_quiet, fun hmem => ?_⟩
    rcases Array.mem_push.mp hmem with hmem | hmem
    · exact hs.keeps.2 hmem
    · exact ne_alarm_of_topic hevent hmem.symm
  builtin? hs he hnone := hP.builtin? hs.of_quiet he hnone

/-- Evaluation itself raises no alarm. -/
theorem quiet_evalNode (limit depth : Nat) (n : Node) (e : LayerId) {s : Store}
    (hs : alarm ∉ s.log) : alarm ∉ (evalNode limit depth n e s).2.log := by
  have hP : (onLayers (fun _ => True) fun _ => True).Lawful :=
    lawful_onLayers (fun _ _ _ _ => trivial) (fun _ _ _ _ _ _ => trivial)
      (fun _ _ _ _ _ _ _ _ => trivial) fun _ _ _ _ _ _ => ⟨trivial, trivial⟩
  have hadmits : (onLayers (fun _ => True) fun _ => True).quiet.AdmitsAt 0 s :=
    ⟨⟨⟨trivial, hs⟩, fun _ _ _ _ _ => trivial, fun _ _ _ _ => False.elim⟩, Nat.zero_le _⟩
  exact (safe_evalNode (lawful_quiet hP) limit depth (n := n) (e := e) ⟨trivial, False.elim⟩
    False.elim s hadmits).2.keeps.2

/-- Where what is watched for is against a policy, watching raises no alarm. -/
theorem sound_quiet (hP : P.Lawful) {p : Watch}
    (hp : ∀ count depth n e s o, P.Knows count e → P.AdmitsAt count s → P.Ends P.value o.1 →
      P.Admits o.2 → ¬p depth n e s o) (limit depth : Nat) :
    (logic (lawful_quiet hP)).Sound (evalWatching p limit depth) := by
  refine (logic (lawful_quiet hP)).sound_evalWatching trivial p limit
    (fun count depth n e x he _ hx t ht => ?_) depth
  obtain ⟨hends, hafter⟩ := hx t ht
  rw [watched_of_not (hp count depth n e t (x t) ⟨he.layer, he.lt⟩
    ⟨ht.toAdmits.of_quiet, ht.size⟩ hends hafter.toAdmits.of_quiet)]
  exact ⟨hends, hafter⟩

/-- What is against a policy happens at no moment. -/
theorem not_happens (hP : P.Lawful) {p : Watch}
    (hp : ∀ count depth n e s o, P.Knows count e → P.AdmitsAt count s → P.Ends P.value o.1 →
      P.Admits o.2 → ¬p depth n e s o)
    (limit depth : Nat) {n : Node} {e : LayerId} {s : Store} (he : P.Knows count e)
    (hn : P.node n) (hs : P.AdmitsAt count { s with log := #[] }) :
    ¬Happens p limit depth n e s := by
  have hquiet : P.quiet.AdmitsAt count { s with log := #[] } :=
    ⟨⟨⟨hs.keeps, by simp⟩, hs.values, hs.methods⟩, hs.size⟩
  exact (sound_quiet hP hp limit depth n e ⟨he.layer, he.lt⟩ hn _ hquiet).2.keeps.2

end Policy

end Tern
