import Tern.Proofs.Resolution
import Tern.Proofs.Surfacing

/-!
# Which arm runs

In the `first` mode a match evaluates its subject once and then the patterns in their order, up to
the first that takes the value. `Chooses` says what that comes to in terms of the arms that are
passed over before: a failure on the way, an arm that is selected, or none. A match comes to what
has been chosen (`matching_of_chooses`), and something is always chosen (`exists_chooses`). What is
chosen depends on the patterns that are reached and on the body that runs (`Choice.Fits`), so that
nothing else in the arms makes a difference (`evalNode_first`).

Before all that, in either mode, every arm is looked at for its shape, whatever evaluates the nodes
inside (`matching_of_malformed`).
-/

namespace Tern

open Eval

/-- The pattern and the body of an arm. -/
abbrev Arm := Node × Node

/-- An arm of a match, if the node has the shape of one. -/
def Node.arm? : Node → Option Arm
  | tree .case [pattern, body] _ => some (pattern, body)
  | _ => none

/-- The nodes are arms with these patterns and bodies. -/
abbrev AreArms : List Node → List Arm → Prop := List.Forall₂ fun n a => n.arm? = some a

/-- The patterns of arms. -/
abbrev patternsOf (arms : List Arm) : List Node := arms.map (·.1)

/-! ## The choice -/

namespace Eval

variable (ev : Evaluator) (e : LayerId) (v : Value)

/-- The patterns are evaluated, one after the other, and none takes the value. -/
inductive PassedOver : List Node → Store → Store → Prop
  | nil {s : Store} : PassedOver [] s s
  | cons {p : Node} {rest : List Node} {w : Value} {s s₁ s₂ : Store}
      (hp : p.identName? ≠ some "_") (h : ev p e s = (.ok w, s₁)) (hw : v.matching w = false)
      (hrest : PassedOver rest s₁ s₂) : PassedOver (p :: rest) s s₂

/-- A pattern takes the value: a bare underscore without being evaluated, any other when it
evaluates to a value that matches. -/
inductive Takes : Node → Store → Store → Prop
  | wildcard {p : Node} {s : Store} (hp : p.identName? = some "_") : Takes p s s
  | value {p : Node} {w : Value} {s s₁ : Store} (hp : p.identName? ≠ some "_")
      (h : ev p e s = (.ok w, s₁)) (hw : v.matching w = true) : Takes p s s₁

end Eval

/-- What the arms of a match come to, and the store that is left. Arms have the numbers of their
places. -/
inductive Choice
  | failedSubject (f : Failure) (s : Store)
  | failedPattern (index : Nat) (f : Failure) (s : Store)
  | selected (index : Nat) (body : Node) (s : Store)
  | unmatched (s : Store)

/-- From a store, a match with a subject and arms chooses. -/
inductive Eval.Chooses (ev : Evaluator) (e : LayerId) (subject : Node) (s : Store) :
    List Arm → Choice → Prop
  | failedSubject {arms : List Arm} {f : Failure} {s₁ : Store}
      (h : ev subject e s = (.error f, s₁)) : Chooses ev e subject s arms (.failedSubject f s₁)
  | failedPattern {v : Value} {before after : List Arm} {p body : Node} {f : Failure}
      {s₁ s₂ s₃ : Store} (h : ev subject e s = (.ok v, s₁))
      (hbefore : PassedOver ev e v (patternsOf before) s₁ s₂) (hp : p.identName? ≠ some "_")
      (hf : ev p e s₂ = (.error f, s₃)) :
      Chooses ev e subject s (before ++ (p, body) :: after) (.failedPattern before.length f s₃)
  | selected {v : Value} {before after : List Arm} {p body : Node} {s₁ s₂ s₃ : Store}
      (h : ev subject e s = (.ok v, s₁))
      (hbefore : PassedOver ev e v (patternsOf before) s₁ s₂) (hp : Takes ev e v p s₂ s₃) :
      Chooses ev e subject s (before ++ (p, body) :: after) (.selected before.length body s₃)
  | unmatched {v : Value} {arms : List Arm} {s₁ s₂ : Store} (h : ev subject e s = (.ok v, s₁))
      (hall : PassedOver ev e v (patternsOf arms) s₁ s₂) :
      Chooses ev e subject s arms (.unmatched s₂)

/-- The selection of an arm is recorded, and a layer is made for its body. -/
def Store.enterArm (s : Store) (e : LayerId) (index : Nat) : Store × LayerId :=
  (s.record (.armSelected index)).spawn e (if (s.config e).lexicalScope then some e else none)

namespace Choice

/-- What comes of a choice. -/
def outcome (ev : Evaluator) (e : LayerId) : Choice → Outcome Value
  | failedSubject f s => (.error f, s)
  | failedPattern _ f s => (.error f, s)
  | selected index body s => ev body (s.enterArm e index).2 (s.enterArm e index).1
  | unmatched s => (.ok .nothing, s)

/-- Other arms have the same in all places that the choice depends on: the patterns that are
reached, and the body that runs. -/
def Fits (arms arms' : List Arm) : Choice → Prop
  | failedSubject _ _ => True
  | failedPattern index _ _ =>
    (patternsOf arms').take (index + 1) = (patternsOf arms).take (index + 1)
  | selected index body _ =>
    (patternsOf arms').take (index + 1) = (patternsOf arms).take (index + 1) ∧
      (arms'[index]?).map (·.2) = some body
  | unmatched _ => patternsOf arms' = patternsOf arms

end Choice

namespace Eval

variable {ev : Evaluator} {e : LayerId} {v : Value} {s s₁ : Store}

/-- A list of patterns is passed over, or there is a first that fails or takes the value. -/
theorem passedOver_or_exists_first (ev : Evaluator) (e : LayerId) (v : Value) :
    ∀ (arms : List Arm) (s : Store),
      (∃ s₁, PassedOver ev e v (patternsOf arms) s s₁) ∨
      ∃ before p body after s₁, arms = before ++ (p, body) :: after ∧
        PassedOver ev e v (patternsOf before) s s₁ ∧
        ((∃ s₂, Takes ev e v p s₁ s₂) ∨
          p.identName? ≠ some "_" ∧ ∃ f s₂, ev p e s₁ = (.error f, s₂))
  | [], s => .inl ⟨s, .nil⟩
  | (p, body) :: rest, s => by
      by_cases hp : p.identName? = some "_"
      · exact .inr ⟨[], p, body, rest, s, rfl, .nil, .inl ⟨s, .wildcard hp⟩⟩
      rcases hrun : ev p e s with ⟨f | w, s₁⟩
      · exact .inr ⟨[], p, body, rest, s, rfl, .nil, .inr ⟨hp, f, s₁, hrun⟩⟩
      cases hw : v.matching w with
      | true => exact .inr ⟨[], p, body, rest, s, rfl, .nil, .inl ⟨s₁, .value hp hrun hw⟩⟩
      | false =>
          obtain ⟨s₂, hall⟩ | ⟨before, q, body', after, s₂, rfl, hbefore, hfirst⟩ :=
            passedOver_or_exists_first ev e v rest s₁
          · exact .inl ⟨s₂, .cons hp hrun hw hall⟩
          · exact .inr ⟨(p, body) :: before, q, body', after, s₂, rfl,
              .cons hp hrun hw hbefore, hfirst⟩

/-- Something is always chosen. -/
theorem exists_chooses (ev : Evaluator) (e : LayerId) (subject : Node) (arms : List Arm)
    (s : Store) : ∃ choice, Chooses ev e subject s arms choice := by
  rcases hrun : ev subject e s with ⟨f | v, s₁⟩
  · exact ⟨_, .failedSubject hrun⟩
  obtain ⟨s₂, hall⟩ | ⟨before, p, body, after, s₂, rfl, hbefore, ⟨s₃, hp⟩ | ⟨hp, f, s₃, hf⟩⟩ :=
    passedOver_or_exists_first ev e v arms s₁
  · exact ⟨_, .unmatched hrun hall⟩
  · exact ⟨_, .selected hrun hbefore hp⟩
  · exact ⟨_, .failedPattern hrun hbefore hp hf⟩

/-! ## What a match comes to -/

theorem takes_eq {p : Node} (h : p.identName? ≠ some "_") :
    takes ev e v p = ev p e >>= fun w => pure (v.matching w) := if_neg h

theorem takes_of_takes {p : Node} (h : Takes ev e v p s s₁) :
    takes ev e v p s = (.ok true, s₁) := by
  cases h with
  | wildcard hp => rw [takes, if_pos hp]; rfl
  | value hp h hw => rw [takes_eq hp, bind_apply, h]; simp only [hw]; rfl

/-- Arms that are passed over leave the choice to the others. -/
theorem firstArm_append {before : List Arm} (h : PassedOver ev e v (patternsOf before) s s₁)
    (index : Nat) (rest : List Arm) :
    firstArm ev e v index (before ++ rest) s = firstArm ev e v (index + before.length) rest s₁ := by
  induction before generalizing index s with
  | nil =>
      cases h
      rfl
  | cons a before ih =>
      cases h with
      | cons hp hrun hw hrest =>
          rw [List.cons_append, firstArm, bind_apply, takes_eq hp, bind_apply, hrun]
          simp only [hw, pure_apply, Bool.false_eq_true, if_false]
          rw [ih hrest, List.length_cons, Nat.add_right_comm, Nat.add_assoc]

theorem firstArm_of_takes {p body : Node} (h : Takes ev e v p s s₁) (index : Nat)
    (after : List Arm) :
    firstArm ev e v index ((p, body) :: after) s =
      ev body (s₁.enterArm e index).2 (s₁.enterArm e index).1 := by
  rw [firstArm, bind_apply, takes_of_takes h]
  rfl

theorem firstArm_of_error {p body : Node} {f : Failure} (hp : p.identName? ≠ some "_")
    (h : ev p e s = (.error f, s₁)) (index : Nat) (after : List Arm) :
    firstArm ev e v index ((p, body) :: after) s = (.error f, s₁) := by
  rw [firstArm, bind_apply, takes_eq hp, bind_apply, h]

/-- What has been chosen is what the arms come to. -/
theorem firstArm_of_chooses {subject : Node} {arms : List Arm} {choice : Choice}
    (h : Chooses ev e subject s arms choice) :
    (ev subject e >>= fun v => firstArm ev e v 0 arms) s = choice.outcome ev e := by
  rw [bind_apply]
  cases h with
  | failedSubject h => rw [h]; rfl
  | failedPattern h hbefore hp hf =>
      rw [h]
      exact (firstArm_append hbefore 0 _).trans (firstArm_of_error hp hf _ _)
  | @selected v before after p body s₁ s₂ s₃ h hbefore hp =>
      rw [h]
      show firstArm ev e v 0 (before ++ (p, body) :: after) s₁ = _
      rw [firstArm_append hbefore, firstArm_of_takes hp, Nat.zero_add]
      rfl
  | @unmatched v arms s₁ s₂ h hall =>
      rw [h]
      have hnone := firstArm_append hall 0 []
      rwa [List.append_nil] at hnone

/-! ## Arms that fit -/

/-- Where other arms have the same patterns up to one, they have an arm there. -/
theorem exists_split_of_take {before arms : List Arm} {p : Node}
    (h : (patternsOf arms).take (before.length + 1) = patternsOf before ++ [p]) :
    ∃ before' body after, arms = before' ++ (p, body) :: after ∧
      patternsOf before' = patternsOf before := by
  have hsplit : patternsOf arms =
      patternsOf before ++ p :: (patternsOf arms).drop (before.length + 1) := by
    rw [List.append_cons, ← h, List.take_append_drop]
  obtain ⟨before', rest, rfl, hbefore, hrest⟩ := List.map_eq_append_iff.mp hsplit
  obtain ⟨⟨q, body⟩, after, rfl, rfl, -⟩ := List.map_eq_cons_iff.mp hrest
  exact ⟨before', body, after, rfl, hbefore⟩

theorem take_patternsOf (before after : List Arm) (p body : Node) :
    (patternsOf (before ++ (p, body) :: after)).take (before.length + 1) =
      patternsOf before ++ [p] := by
  rw [patternsOf, List.map_append, List.map_cons, List.append_cons]
  exact List.take_left' (by simp)

/-- Arms that fit are chosen from likewise. -/
theorem Chooses.of_fits {subject : Node} {arms arms' : List Arm} {choice : Choice}
    (h : Chooses ev e subject s arms choice) (hfits : choice.Fits arms arms') :
    Chooses ev e subject s arms' choice := by
  -- The patterns are the same up to the one that decides, so the other arms split there as well.
  cases h with
  | failedSubject h => exact .failedSubject h
  | @failedPattern v before after p body f s₁ s₂ s₃ h hbefore hp hf =>
      obtain ⟨before', body', after', rfl, hsame⟩ :=
        exists_split_of_take (hfits.trans (take_patternsOf before after p body))
      have hlength : before'.length = before.length := by simpa using congrArg List.length hsame
      rw [← hlength]
      exact .failedPattern h (hsame ▸ hbefore) hp hf
  | @selected v before after p body s₁ s₂ s₃ h hbefore hp =>
      obtain ⟨htake, hbody⟩ := hfits
      obtain ⟨before', body', after', rfl, hsame⟩ :=
        exists_split_of_take (htake.trans (take_patternsOf before after p body))
      have hlength : before'.length = before.length := by simpa using congrArg List.length hsame
      rw [← hlength, List.getElem?_append_right (Nat.le_refl _), Nat.sub_self] at hbody
      cases hbody
      rw [← hlength]
      exact .selected h (hsame ▸ hbefore) hp
  | unmatched h hall => exact .unmatched h (hfits ▸ hall)

theorem Chooses.fits {subject : Node} {arms : List Arm} {choice : Choice}
    (h : Chooses ev e subject s arms choice) : choice.Fits arms arms := by
  cases h with
  | failedSubject => exact trivial
  | failedPattern => exact rfl
  | selected => exact ⟨rfl, by simp⟩
  | unmatched => exact rfl

/-! ## The shape of arms -/

theorem arm_of_arm? {n : Node} {a : Arm} (h : n.arm? = some a) : arm n = pure a := by
  unfold Node.arm? at h
  split at h
  · cases h
    rfl
  · cases h

theorem each_arm_of_areArms {cases : List Node} {arms : List Arm} (h : AreArms cases arms) :
    each arm cases = pure arms := by
  induction h with
  | nil => rfl
  | cons hn _ ih =>
      rw [each, arm_of_arm? hn, ih]
      rfl

/-- The failure of an arm that has not the shape. -/
def Malformed (f : Failure) : Prop :=
  f = .misshapen ∨ ∃ shown, f = .raised ⟨.malformedArm shown, none⟩

theorem arm_of_none {n : Node} (h : n.arm? = none) : ∃ f, Malformed f ∧ arm n = fail f := by
  unfold arm
  split
  · next hlabel =>
    obtain ⟨cs, pos, rfl⟩ : ∃ cs pos, n = .tree .case cs pos := by
      cases n with
      | tree label cs pos =>
          cases hlabel
          exact ⟨cs, pos, rfl⟩
      | _ => cases hlabel
    match cs with
    | [] | [_] | _ :: _ :: _ :: _ => exact ⟨_, .inl rfl, rfl⟩
    | [pattern, body] => cases h
  · exact ⟨_, .inr ⟨_, rfl⟩, rfl⟩

theorem each_arm_of_mem : ∀ {cases : List Node} {n : Node}, n ∈ cases → n.arm? = none →
    ∃ f, Malformed f ∧ each arm cases = fail f
  | c :: rest, n, hn, hnone => by
      rw [each]
      cases hc : c.arm? with
      | none =>
          obtain ⟨f, hf, hfail⟩ := arm_of_none hc
          exact ⟨f, hf, by rw [hfail]; rfl⟩
      | some a =>
          rcases List.mem_cons.mp hn with rfl | hn
          · rw [hnone] at hc
            cases hc
          · obtain ⟨f, hf, hfail⟩ := each_arm_of_mem hn hnone
            exact ⟨f, hf, by rw [arm_of_arm? hc, hfail]; rfl⟩

/-- An arm without the shape is a failure, in any mode and whatever evaluates the nodes inside. -/
theorem matching_of_malformed {cases : List Node} {n : Node} (hn : n ∈ cases)
    (hnone : n.arm? = none) : ∃ f, Malformed f ∧ ∀ (ev : Evaluator) (e : LayerId) (subject : Node),
      matching ev e (subject :: cases) = fail f := by
  obtain ⟨f, hf, hfail⟩ := each_arm_of_mem hn hnone
  exact ⟨f, hf, fun ev e subject => by rw [matching, hfail]; rfl⟩

/-- What a match comes to is what it chooses. -/
theorem matching_of_chooses (hmode : (s.config e).matchMode = .first) {subject : Node}
    {cases : List Node} {arms : List Arm} (harms : AreArms cases arms) {choice : Choice}
    (h : Chooses ev e subject s arms choice) :
    matching ev e (subject :: cases) s = choice.outcome ev e := by
  have hlegacy : (s.config e).matchMode ≠ .legacy := by
    rw [hmode]
    exact nofun
  rw [matching_eq_firstArm hlegacy, each_arm_of_areArms harms]
  exact firstArm_of_chooses h

end Eval

/-! ## Matches -/

/-- A match in the `first` mode comes to what is chosen from its arms, and with it every match whose
arms fit, apart from the position that an error gets as it leaves. The layer of a body is a new one
that binds nothing. When an arm has not the shape of one the match fails, in any mode, and nothing
is evaluated. -/
theorem evalNode_first (limit depth : Nat) (subject : Node) (cases : List Node) (pos : Option Pos)
    (e : LayerId) (s : Store) :
    ((s.config e).matchMode = .first →
      ∀ arms, AreArms cases arms →
        (∃ choice, Chooses (evalNode limit depth) e subject s arms choice) ∧
        ∀ choice, Chooses (evalNode limit depth) e subject s arms choice →
          evalNode limit (depth + 1) (.tree .matching (subject :: cases) pos) e s =
            (choice.outcome (evalNode limit depth) e).at
              (Node.tree .matching (subject :: cases) pos).position? ∧
          ∀ cases' arms', AreArms cases' arms' → choice.Fits arms arms' →
            evalNode limit (depth + 1) (.tree .matching (subject :: cases') pos) e s =
              (choice.outcome (evalNode limit depth) e).at
                (Node.tree .matching (subject :: cases') pos).position?) ∧
    (∀ (t : Store) (index : Nat), (t.enterArm e index).2 = t.layers.size ∧
      (t.enterArm e index).1.bindings t.layers.size = []) ∧
    ∀ n ∈ cases, n.arm? = none → ∃ f, Malformed f ∧
      evalNode limit (depth + 1) (.tree .matching (subject :: cases) pos) e s =
        (.error (f.at (Node.tree .matching (subject :: cases) pos).position?), s) ∧
      ¬Happens (fun d _ _ _ _ => d ≤ depth) limit (depth + 1)
        (.tree .matching (subject :: cases) pos) e s := by
  refine ⟨fun hmode arms harms => ⟨exists_chooses .., fun choice hchooses => ?_⟩,
    fun t index => ⟨rfl, ?_⟩, fun n hn hnone => ?_⟩
  · have hfits (cases' : List Node) (arms' : List Arm) (harms' : AreArms cases' arms')
        (h : choice.Fits arms arms') :
        evalNode limit (depth + 1) (.tree .matching (subject :: cases') pos) e s =
          (choice.outcome (evalNode limit depth) e).at
            (Node.tree .matching (subject :: cases') pos).position? := by
      rw [← matching_of_chooses hmode harms' (hchooses.of_fits h)]
      exact located_apply ..
    exact ⟨hfits cases arms harms hchooses.fits, hfits⟩
  · exact (Store.bindings_spawn ..).trans (Store.bindings_eq_nil _ (Nat.le_refl _))
  · obtain ⟨f, hf, hfail⟩ := matching_of_malformed hn hnone
    have hstep (ev : Evaluator) :
        step limit ev (.tree .matching (subject :: cases) pos) e = fail f := hfail ev e subject
    exact ⟨f, hf, located_error _ (congrFun (hstep _) s),
      not_happens_inside fun ev => congrArg (fun o => o.2.log) (congrFun (hstep ev) _)⟩

/-- An arm of a match. -/
def armOf (pattern body : Node) : Node := .tree .case [pattern, body] none

/-- Of `match true { false => ?, _ => true, ? => ? }` only the second body runs, and the places of
the others may hold what can not be evaluated. In the place of an arm there must be an arm. -/
theorem evalNode_first_wildcard :
    let s := Store.root { matchMode := .first }
    let yes : Node := .token .trueWord "true" none
    let no : Node := .token .falseWord "false" none
    let any : Node := .token .ident "_" none
    let cases : List Node := [armOf no printOne, armOf any yes, armOf printOne printOne]
    let cases' : List Node := [armOf no (.stray .absent), armOf any yes]
    (s.config 0).matchMode = .first ∧
    evaluate (.tree .matching (yes :: cases) none) 0 s =
      (.ok (.bool true), ((s.record (.armSelected 1)).spawn 0 none).1) ∧
    evaluate (.tree .matching (yes :: cases') none) 0 s =
      (.ok (.bool true), ((s.record (.armSelected 1)).spawn 0 none).1) ∧
    ∃ f, Malformed f ∧ evaluate (.tree .matching [yes, armOf any yes, no] none) 0 s =
      (.error (f.at none), s) := by
  intro s yes no any cases cases'
  obtain ⟨hfirst, -, -⟩ := evalNode_first turnLimit 999 yes cases none 0 s
  obtain ⟨-, -, hmalformed⟩ := evalNode_first turnLimit 999 yes [armOf any yes, no] none 0 s
  have hsubject : evalNode turnLimit 999 yes 0 s = (.ok (.bool true), s) := rfl
  have hpattern : evalNode turnLimit 999 no 0 s = (.ok (.bool false), s) := rfl
  have hchooses : Chooses (evalNode turnLimit 999) 0 yes s
      ([(no, printOne)] ++ (any, yes) :: [(printOne, printOne)]) (.selected 1 yes s) :=
    .selected hsubject (.cons (by decide) hpattern rfl .nil) (.wildcard rfl)
  obtain ⟨-, hchoice⟩ := hfirst rfl _ (.cons rfl (.cons rfl (.cons rfl .nil)))
  obtain ⟨hrun, hfits⟩ := hchoice _ hchooses
  obtain ⟨f, hf, hfail, -⟩ := hmalformed no (by simp) rfl
  refine ⟨rfl, hrun, hfits cases' [(no, .stray .absent), (any, yes)] ?_ ⟨rfl, rfl⟩, f, hf, hfail⟩
  exact .cons rfl (.cons rfl .nil)

end Tern
