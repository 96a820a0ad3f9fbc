import Tern.Proofs.Watching

/-!
# Failures surface

A failure goes out through all nodes around the one that fails. Only two places hold anything up:
an argument of a builtin and a pattern of a legacy match. There a runtime error is turned into a
value, and a record says so; what is not a runtime error goes through (`failures_surface`).

An evaluation `Surfaces` a failure when after it each alarm has been answered, by a record of a
dropped error that comes later, or else the failure has come out. With alarms at the nodes that
fail in that way this is a logic. Without the rule for going on after errors, the same logic says
that all other nodes let every failure through.
-/

namespace Tern

open Eval

/-! ## Answers to alarms -/

/-- After each alarm there is a record that an error of the kind has been dropped. -/
def Answered (dropped : RuntimeError → Prop) (log : List Event) : Prop :=
  ∀ earlier later, log = earlier ++ alarm :: later →
    ∃ event ∈ later, ∃ e, event.drop? = some e ∧ dropped e

namespace Answered

variable {dropped : RuntimeError → Prop} {log : List Event} {event : Event}

theorem of_not_mem (h : alarm ∉ log) : Answered dropped log := by
  rintro earlier later rfl
  exact absurd (List.mem_append_right _ List.mem_cons_self) h

/-- Without any answer there has been no alarm. -/
theorem not_mem (h : Answered dropped log) (hnone : ∀ e, ¬dropped e) : alarm ∉ log := by
  intro hmem
  obtain ⟨earlier, later, hlog⟩ := List.append_of_mem hmem
  obtain ⟨-, -, e, -, he⟩ := h earlier later hlog
  exact hnone e he

/-- An alarm that comes before the last record. -/
theorem exists_of_concat (hne : event ≠ alarm) {earlier later : List Event}
    (h : log ++ [event] = earlier ++ alarm :: later) :
    ∃ between, later = between ++ [event] ∧ log = earlier ++ alarm :: between := by
  rcases later.eq_nil_or_concat with rfl | ⟨between, last, rfl⟩
  · exact absurd (List.append_singleton_inj.mp h).2 hne
  · rw [List.concat_eq_append, ← List.cons_append, ← List.append_assoc] at h
    obtain ⟨hlog, rfl⟩ := List.append_singleton_inj.mp h
    exact ⟨between, List.concat_eq_append, hlog⟩

theorem concat (h : Answered dropped log) (hne : event ≠ alarm) :
    Answered dropped (log ++ [event]) := by
  intro earlier later hlog
  obtain ⟨between, rfl, hbefore⟩ := exists_of_concat hne hlog
  obtain ⟨answer, hmem, hanswer⟩ := h earlier between hbefore
  exact ⟨answer, List.mem_append_left _ hmem, hanswer⟩

theorem of_drop {e : RuntimeError} (hdrop : event.drop? = some e) (he : dropped e) :
    Answered dropped (log ++ [event]) := by
  intro earlier later hlog
  obtain ⟨between, rfl, -⟩ :=
    exists_of_concat (ne_alarm_of_topic (Event.topic_of_drop? hdrop)) hlog
  exact ⟨event, List.mem_append_right _ (List.mem_singleton_self _), e, hdrop, he⟩

end Answered

/-! ## The logic of surfacing -/

section Logic

variable {f : Failure} {dropped : RuntimeError → Prop} {α β : Type} {Q : α → Prop} {R : β → Prop}

/-- The failure has come out, perhaps with a position. -/
def Out (f : Failure) (r : Except Failure α) : Prop := ∃ pos, r = .error (f.at pos)

theorem Out.error {g : Failure} (h : Out f (.error g : Except Failure α)) :
    Out f (.error g : Except Failure β) := by
  obtain ⟨pos, hpos⟩ := h
  exact ⟨pos, congrArg Except.error (Except.error.inj hpos)⟩

/-- From where all alarms have been answered, an evaluation leads to where they have been, unless
the failure comes out. -/
def Surfaces (f : Failure) (dropped : RuntimeError → Prop) (x : Eval α) (Q : α → Prop) : Prop :=
  ∀ s, Answered dropped s.log.toList →
    (∀ a, (x s).1 = .ok a → Q a) ∧ (Answered dropped (x s).2.log.toList ∨ Out f (x s).1)

theorem Surfaces.bind {x : Eval α} {g : α → Eval β} (hx : Surfaces f dropped x Q)
    (hg : ∀ a, Q a → Surfaces f dropped (g a) R) : Surfaces f dropped (x >>= g) R := by
  intro s hs
  obtain ⟨hQ, hlog⟩ := hx s hs
  rw [bind_apply]
  rcases h : x s with ⟨g' | a, s'⟩
  · rw [h] at hlog
    exact ⟨nofun, hlog.imp id Out.error⟩
  · rw [h] at hQ hlog
    obtain hlog | ⟨_, ⟨⟩⟩ := hlog
    exact hg a (hQ a rfl) s' hlog

theorem surfaces_fail (g : Failure) : Surfaces f dropped (fail g) Q :=
  fun _ hs => ⟨nofun, .inl hs⟩

/-- What leaves the log as it is. -/
theorem surfaces_of_log {x : Eval α} (hQ : ∀ s a, (x s).1 = .ok a → Q a)
    (hlog : ∀ s, (x s).2.log = s.log) : Surfaces f dropped x Q := by
  intro s hs
  refine ⟨hQ s, .inl ?_⟩
  rw [hlog]
  exact hs

theorem surfaces_record {event : Event} (h : event ≠ alarm) :
    Surfaces f dropped (record event) fun _ => True := by
  intro s hs
  refine ⟨fun _ _ => trivial, .inl ?_⟩
  show Answered dropped (s.log.push event).toList
  rw [Array.toList_push]
  exact hs.concat h

/-- A dropped error leaves a record, and so answers the alarms that it has raised. -/
theorem surfaces_attempt (hdropped : ∀ err pos, .raised err = f.at pos → dropped err)
    {x : Eval α} {g : Except RuntimeError α → Eval β} (hx : Surfaces f dropped x Q)
    (hok : ∀ a, Q a → Surfaces f dropped (g (.ok a)) R)
    (herr : ∀ e, ∃ event y, event.drop? = some e ∧ g (.error e) = (record event >>= fun _ => y) ∧
      Surfaces f dropped y R) : Surfaces f dropped (attempt x >>= g) R := by
  intro s hs
  obtain ⟨hQ, hlog⟩ := hx s hs
  rw [bind_apply, attempt]
  rcases h : x s with ⟨failure | a, s'⟩
  · rw [h] at hlog
    cases failure with
    | raised err =>
        obtain ⟨event, y, hdrop, hg, hy⟩ := herr err
        dsimp only
        rw [hg]
        refine hy (s'.record event) ?_
        show Answered dropped (s'.log.push event).toList
        rw [Array.toList_push]
        obtain hlog | ⟨pos, hpos⟩ := hlog
        · exact hlog.concat (ne_alarm_of_topic (Event.topic_of_drop? hdrop))
        · exact .of_drop hdrop (hdropped err pos (Except.error.inj hpos))
    | _ => exact ⟨nofun, hlog.imp id Out.error⟩
  · rw [h] at hQ hlog
    obtain hlog | ⟨_, ⟨⟩⟩ := hlog
    exact hok a (hQ a rfl) s' hlog

theorem surfaces_located (n : Node) {x : Eval α} (hx : Surfaces f dropped x Q) :
    Surfaces f dropped (located n x) Q := by
  intro s hs
  obtain ⟨hQ, hlog⟩ := hx s hs
  rcases h : x s with ⟨g | a, s'⟩
  · rw [h] at hlog
    rw [located_error n h]
    refine ⟨nofun, hlog.imp id ?_⟩
    rintro ⟨pos, ⟨⟩⟩
    exact ⟨pos.or n.position?, congrArg Except.error (f.at_at pos _)⟩
  · rw [h] at hQ hlog
    rw [located, h]
    exact ⟨hQ, hlog⟩

theorem log_setName (e : LayerId) (name : String) (v : Value) (s : Store) :
    (setName e name v s).2.log = s.log := by
  unfold setName
  split <;> rfl

theorem surfaces_spawn {x : Eval LayerId} (hlog : ∀ s, (x s).2.log = s.log)
    {g : LayerId → Eval β} (hg : ∀ l, Surfaces f dropped (g l) R) :
    Surfaces f dropped (x >>= g) R :=
  (surfaces_of_log (Q := fun _ => True) (fun _ _ _ => trivial) hlog).bind fun l _ => hg l

/-- Surfacing as a logic. Only where evaluation may go on after errors it matters which errors
answer alarms. -/
def surfacing (f : Failure) (dropped : RuntimeError → Prop) (catches : Prop)
    (hdropped : catches → ∀ err pos, .raised err = f.at pos → dropped err) : Logic where
  toDomain := .ofLayers fun _ => True
  lawful := Domain.lawful_ofLayers _
  Stage := Unit
  knows _ _ := True
  layer_of_knows _ := trivial
  catches := catches
  Holds _ := Surfaces f dropped
  pure hq := surfaces_of_log (fun _ _ h => by cases h; exact hq) fun _ => rfl
  fail _ := surfaces_fail _
  bind := Surfaces.bind
  attempt hc hx hok herr := surfaces_attempt (hdropped hc) hx hok herr
  located n hx := surfaces_located n hx
  configOf _ _ hf :=
    (surfaces_of_log (Q := fun _ => True) (fun _ _ _ => trivial) fun _ => rfl).bind
      fun c _ => hf c
  builtin? _ _ := surfaces_of_log (fun _ _ _ _ => trivial) fun _ => rfl
  lookup? _ _ hnone _ hsome :=
    (surfaces_of_log (Q := fun _ => True) (fun _ _ _ => trivial) fun _ => rfl).bind fun o _ => by
      cases o with
      | none => exact hnone ▸ surfaces_fail _
      | some v => exact hsome v (Domain.value_ofLayers _ v)
  bound _ _ := surfaces_of_log (fun _ _ _ => trivial) fun _ => rfl
  bindName _ _ _ := surfaces_of_log (fun _ _ _ => trivial) fun _ => rfl
  setName _ _ _ := surfaces_of_log (fun _ _ _ => trivial) (log_setName _ _ _)
  spawn _ _ hf := surfaces_spawn (fun _ => rfl) fun l => hf () l (fun _ _ => trivial) trivial
  calleeLayer callee _ hf := by
    refine surfaces_spawn (fun s => ?_) fun l => hf () l (fun _ _ => trivial) trivial
    obtain ⟨_, -, hrun⟩ := Policy.exists_spawn_calleeLayer _ callee s
    rw [hrun]
    rfl
  armLayer _ hf := by
    refine surfaces_spawn (fun s => ?_) fun l => hf () l (fun _ _ => trivial) trivial
    obtain ⟨_, -, hrun⟩ := Policy.exists_spawn_armLayer _ s
    rw [hrun]
    rfl
  method? _ _ := surfaces_of_log (fun _ _ _ _ _ => False.elim) fun _ => rfl
  addStruct _ _ := surfaces_of_log (fun _ r _ => Domain.value_ofLayers _ (.struct r)) fun _ => rfl
  putMethod _ _ _ := surfaces_of_log (fun _ _ _ => trivial) fun _ => rfl
  write _ := surfaces_of_log (fun _ _ _ => trivial) fun _ => rfl
  record h := surfaces_record (ne_alarm_of_topic h)

/-- An alarm at an evaluation that ends in the failure. -/
theorem Surfaces.watched {x : Eval Value} {Q : Value → Prop} (hx : Surfaces f dropped x Q)
    {p : Store → Outcome Value → Prop} (hp : ∀ s, p s (x s) → (x s).1 = .error f) :
    Surfaces f dropped (watched p x) Q := by
  intro s hs
  obtain ⟨hQ, hlog⟩ := hx s hs
  rw [fst_watched]
  refine ⟨hQ, ?_⟩
  obtain hsame | ⟨hfound, -⟩ := snd_watched p x s
  · rw [hsame]
    exact hlog
  · exact .inr ⟨none, (hp s hfound).trans (congrArg Except.error f.at_none.symm)⟩

end Logic

/-! ## Moments at which something fails -/

namespace Eval

/-- A node that is evaluated ends in the failure. -/
def Failing (f : Failure) : Watch := fun _ _ _ _ o => o.1 = .error f

/-- The same, for the nodes that are evaluated right inside one that may nest one deeper. -/
def FailingInside (inner : Nat) (f : Failure) : Watch := fun depth _ _ _ o =>
  depth = inner ∧ o.1 = .error f

/-- A node that calls a builtin and whose arguments come to values that have no text. -/
def Undisplayed (limit : Nat) (type : ValueType) : Watch := fun depth n l s _ =>
  ∃ inner name b nameNode args pos values s', depth = inner + 1 ∧
    n = .tree .call [nameNode, args] pos ∧ nameNode.identName? = some name ∧
    s.builtin? l name = some b ∧
    each (argument (evalNode limit inner) l b) args.children s = (.ok values, s') ∧
    Value.displayItems values = .error type

end Eval

/-- A node that may go on after errors: a call by the name of a builtin, or a legacy match. -/
def Store.Catches (s : Store) (l : LayerId) : Node → Prop
  | .tree .call (nameNode :: _) _ =>
    ∃ name b, nameNode.identName? = some name ∧ s.builtin? l name = some b
  | .tree .matching _ _ => (s.config l).matchMode = .legacy
  | _ => False

theorem evalNode_of_undisplayed {limit depth : Nat} {type : ValueType} {n : Node} {l : LayerId}
    {s : Store} {o : Outcome Value} (h : Undisplayed limit type depth n l s o) :
    (evalNode limit depth n l s).1 = .error (.undisplayable type) := by
  obtain ⟨inner, name, b, nameNode, args, pos, values, s', rfl, rfl, hname, hb, hvalues, htype⟩ := h
  have hcall : callBuiltin (evalNode limit inner) l b args.children s =
      (.error (.undisplayable type), s') := by
    rw [callBuiltin, bind_apply, hvalues]
    simp only [runBuiltin, htype]
    rfl
  have hstep : step limit (evalNode limit inner) (.tree .call [nameNode, args] pos) l s =
      (.error (.undisplayable type), s') := (call_eq_callBuiltin hname hb).trans hcall
  unfold evalNode
  rw [located_error _ hstep]
  rfl

/-- What is watched for and is a way of failing so comes out or is answered. -/
theorem out_of_happens {p : Watch} {f : Failure} (limit : Nat)
    (hp : ∀ depth n l s o, o.1 = (evalNode limit depth n l s).1 → p depth n l s o →
      o.1 = .error f) (depth : Nat) (n : Node) (e : LayerId) (s : Store) :
    Answered (fun err => ∃ pos, .raised err = f.at pos)
        (evalWatching p limit depth n e { s with log := #[] }).2.log.toList ∨
      Out f (evalNode limit depth n e s).1 := by
  have hsound := (surfacing f (fun err => ∃ pos, .raised err = f.at pos) True
      fun _ err pos h => ⟨pos, h⟩).sound_evalWatching trivial p limit
    (fun _ depth n l x _ hx hsurfaces =>
      Surfaces.watched hsurfaces fun s hfound => hp depth n l s (x s) (hx s) hfound) depth
  have hout := (@hsound () n e trivial False.elim { s with log := #[] } (.of_not_mem (by simp))).2
  rwa [fst_evalWatching] at hout

/-- A failure that is not a runtime error comes out. -/
theorem eq_of_happens {p : Watch} {f : Failure} (hf : ∀ err, f ≠ .raised err) {limit : Nat}
    (hp : ∀ depth n l s o, o.1 = (evalNode limit depth n l s).1 → p depth n l s o →
      o.1 = .error f) {depth : Nat} {n : Node} {e : LayerId} {s : Store}
    (h : Happens p limit depth n e s) : (evalNode limit depth n e s).1 = .error f := by
  obtain hanswered | ⟨pos, hout⟩ := out_of_happens limit hp depth n e s
  · have hnone : ∀ err, ¬∃ pos, Failure.raised err = f.at pos := by
      rintro err ⟨pos, herr⟩
      rw [f.at_of_host hf] at herr
      exact hf err herr.symm
    exact absurd (Array.mem_toList_iff.mpr h) (hanswered.not_mem hnone)
  · rwa [f.at_of_host hf] at hout

/-! ## Nodes that let everything through -/

section Strict

variable {ev : Evaluator} {l : LayerId} {s : Store}

theorem call_eq_callBound {nameNode argsNode : Node}
    (h : ∀ name, nameNode.identName? = some name → s.builtin? l name = none) :
    call ev l [nameNode, argsNode] s =
      (expectIdent nameNode >>= fun name => callBound ev l name argsNode.children) s := by
  cases hname : nameNode.identName? with
  | none =>
      have hident : expectIdent nameNode = raise (.typeMismatch "ident" nameNode.kindName) := by
        rw [expectIdent, hname]
      rw [call, hident]
      rfl
  | some name =>
      rw [call, expectIdent_eq hname]
      simp only [bind_apply, pure_apply, view, h name hname]
      rfl

/-- The shape of arms is checked without a change. -/
theorem arm_eq (n : Node) (s : Store) : arm n s = ((arm n s).1, s) := by
  unfold arm
  split
  · rcases n.children with _ | ⟨pattern, _ | ⟨body, _ | ⟨other, rest⟩⟩⟩ <;> rfl
  · rfl

theorem each_arm_eq : ∀ (ns : List Node) (s : Store), each arm ns s = ((each arm ns s).1, s)
  | [], _ => rfl
  | n :: rest, s => by
      have hrest := each_arm_eq rest s
      generalize (each arm rest s).1 = r at hrest
      rw [each, bind_apply, arm_eq]
      cases (arm n s).1 with
      | error g => rfl
      | ok a =>
          dsimp only
          rw [bind_apply, hrest]
          cases r <;> rfl

theorem matching_eq_firstArm {subject : Node} {arms : List Node}
    (h : (s.config l).matchMode ≠ .legacy) :
    matching ev l (subject :: arms) s = (each arm arms >>= fun as =>
      ev subject l >>= fun v => firstArm ev l v 0 as) s := by
  have hfirst : (s.config l).matchMode = .first := by
    cases hmode : (s.config l).matchMode with
    | first => rfl
    | legacy => exact absurd hmode h
  rw [matching, bind_apply, bind_apply, each_arm_eq]
  cases (each arm arms s).1 with
  | error g => rfl
  | ok as =>
      dsimp only
      rw [bind_apply, configOf, view]
      simp only [hfirst]

variable {f : Failure}

/-- Surfacing, without going on after errors. -/
def strictly (f : Failure) : Logic := surfacing f (fun _ => False) False False.elim

variable (hev : (strictly f).Sound ev) (hs : alarm ∉ s.log.toList)

include hev hs

/-- A call by a name that no builtin has. -/
theorem surfaces_call {cs : List Node} {pos : Option Pos}
    (hn : ¬s.Catches l (.tree .call cs pos)) :
    Answered (fun _ => False) (call ev l cs s).2.log.toList ∨ Out f (call ev l cs s).1 := by
  match cs with
  | [nameNode, argsNode] =>
      have hbound : ∀ name, nameNode.identName? = some name → s.builtin? l name = none := by
        intro name hname
        by_contra hsome
        obtain ⟨b, hb⟩ := Option.ne_none_iff_exists'.mp hsome
        exact hn ⟨name, b, hname, hb⟩
      rw [call_eq_callBound hbound]
      have hcall : (strictly f).Holds () (expectIdent nameNode >>= fun name =>
          callBound ev l name argsNode.children) (strictly f).value :=
        (Logic.expectIdent False.elim).bind fun name _ =>
          Logic.holds_callBound hev trivial name fun _ _ => False.elim
      exact (hcall s (.of_not_mem hs)).2
  | [] | [_] | _ :: _ :: _ :: _ => exact .inl (.of_not_mem hs)

/-- A match that is not in the legacy mode. -/
theorem surfaces_matching {cs : List Node} {pos : Option Pos}
    (hn : ¬s.Catches l (.tree .matching cs pos)) :
    Answered (fun _ => False) (matching ev l cs s).2.log.toList ∨ Out f (matching ev l cs s).1 := by
  match cs with
  | subject :: arms =>
      rw [matching_eq_firstArm hn]
      have hfirst : (strictly f).Holds () (each arm arms >>= fun as =>
          ev subject l >>= fun v => firstArm ev l v 0 as) (strictly f).value :=
        (Logic.each fun _ _ => Logic.holds_arm False.elim).bind fun as has =>
          (hev subject l trivial False.elim).bind fun v _ =>
            Logic.holds_firstArm hev trivial v has
      exact (hfirst s (.of_not_mem hs)).2
  | [] => exact .inl (.of_not_mem hs)

/-- A node that does not go on after errors lets through whatever comes out of the nodes inside. -/
theorem surfaces_step (limit : Nat) {n : Node} (hn : ¬s.Catches l n) :
    Answered (fun _ => False) (step limit ev n l s).2.log.toList ∨
      Out f (step limit ev n l s).1 := by
  cases n with
  | token kind text pos =>
      have hshape : (strictly f).node (.token kind text pos) := False.elim
      have htoken : (strictly f).Holds () (token kind text l) (strictly f).value :=
        Logic.holds_token trivial hshape
      exact (htoken s (.of_not_mem hs)).2
  | stray d => exact .inl (.of_not_mem hs)
  | tree label cs pos =>
      by_cases hlabel : label = .call ∨ label = .matching
      · obtain rfl | rfl := hlabel
        · exact surfaces_call hev hs hn
        · exact surfaces_matching hev hs hn
      · have hshape : (strictly f).node (.tree label cs pos) := False.elim
        have htree : (strictly f).Holds () (tree limit ev label cs l) (strictly f).value :=
          Logic.holds_tree hev trivial limit (fun h => absurd h hlabel) hshape
        exact (htree s (.of_not_mem hs)).2

end Strict

/-- Whatever fails right inside a node that does not go on after errors comes out of it. -/
theorem out_of_inside {f : Failure} {limit inner : Nat} {n : Node} {e : LayerId} {s : Store}
    (hn : ¬s.Catches e n) (h : Happens (FailingInside inner f) limit (inner + 1) n e s) :
    Out f (evalNode limit (inner + 1) n e s).1 := by
  let p := FailingInside inner f
  have hev : (strictly f).Sound (evalWatching p limit inner) := by
    intro _ m l _ _
    rw [evalWatching_outermost limit fun d hd _ _ _ _ hfound => absurd hfound.1 (Nat.ne_of_lt hd)]
    refine Surfaces.watched (fun t ht => ?_) fun t hfound => hfound.2
    have hquiet := Policy.quiet_evalNode limit inner m l
      fun hmem => ht.not_mem (fun _ => id) (Array.mem_toList_iff.mpr hmem)
    exact ⟨fun v _ => Domain.value_ofLayers _ v,
      .inl (.of_not_mem fun hmem => hquiet (Array.mem_toList_iff.mp hmem))⟩
  have hwatching : evalWatching p limit (inner + 1) n e { s with log := #[] } =
      located n (step limit (evalWatching p limit inner) n e) { s with log := #[] } :=
    watched_of_not fun hfound => Nat.succ_ne_self inner hfound.1
  have hstep := surfaces_step hev (l := e) (s := { s with log := #[] }) (by simp) limit hn
  rw [← fst_evalWatching p]
  have hmem : alarm ∈ (evalWatching p limit (inner + 1) n e { s with log := #[] }).2.log := h
  rw [hwatching] at hmem ⊢
  rcases hrun : step limit (evalWatching p limit inner) n e { s with log := #[] } with ⟨g | v, s'⟩
  · rw [hrun] at hstep
    rw [located_error n hrun] at hmem ⊢
    obtain hanswered | ⟨pos, ⟨⟩⟩ := hstep
    · exact absurd (Array.mem_toList_iff.mpr hmem) (hanswered.not_mem fun _ => id)
    · exact ⟨pos.or n.position?, congrArg Except.error (f.at_at pos _)⟩
  · rw [hrun] at hstep
    rw [located, hrun] at hmem
    obtain hanswered | ⟨_, ⟨⟩⟩ := hstep
    exact absurd (Array.mem_toList_iff.mpr hmem) (hanswered.not_mem fun _ => id)

/-! ## All failures -/

/-- When at any moment of an evaluation a builtin is called with arguments that have no text, the
whole evaluation ends in that failure. So it does in any failure, at any moment, that is not a
runtime error. A runtime error ends it too, or else there is a record later on that it has been
dropped, as an argument of a builtin or as a legacy pattern; and whatever fails right inside any
node but a call of a builtin or a legacy match comes out of that node. -/
theorem failures_surface (limit depth : Nat) (n : Node) (e : LayerId) (s : Store) :
    (∀ type, Happens (Undisplayed limit type) limit depth n e s →
      (evalNode limit depth n e s).1 = .error (.undisplayable type)) ∧
    (∀ f, (∀ err, f ≠ .raised err) → Happens (Failing f) limit depth n e s →
      (evalNode limit depth n e s).1 = .error f) ∧
    (∀ err, Happens (Failing (.raised err)) limit depth n e s →
      (∃ pos, (evalNode limit depth n e s).1 = .error (.raised (err.at pos))) ∨
      Answered (fun dropped => ∃ pos, dropped = err.at pos)
        (evalWatching (Failing (.raised err)) limit depth n e { s with log := #[] }).2.log.toList) ∧
    (∀ f inner, depth = inner + 1 → ¬s.Catches e n →
      Happens (FailingInside inner f) limit depth n e s →
      ∃ pos, (evalNode limit depth n e s).1 = .error (f.at pos)) := by
  refine ⟨fun type => ?_, fun f hf => ?_, fun err _ => ?_, ?_⟩
  · exact eq_of_happens (f := .undisplayable type) nofun fun _ _ _ _ _ ho hfound =>
      ho.trans (evalNode_of_undisplayed hfound)
  · exact eq_of_happens hf fun _ _ _ _ _ _ hfound => hfound
  · obtain hanswered | hout := out_of_happens (p := Failing (.raised err)) limit
      (fun _ _ _ _ _ _ hfound => hfound) depth n e s
    · refine .inr fun earlier later hlog => ?_
      obtain ⟨event, hmem, dropped, hdrop, pos, hpos⟩ := hanswered earlier later hlog
      exact ⟨event, hmem, dropped, hdrop, pos, Failure.raised.inj hpos⟩
    · exact .inl hout
  · rintro f inner rfl hn hhappens
    exact out_of_inside hn hhappens

/-- The tree of `print(S)`. -/
def printS : Node :=
  .tree .call [.token .ident "print" none, .tree .args [.token .ident "S" none] none] none

/-- The tree of `print(print(S))`. -/
def printPrintS : Node :=
  .tree .call [.token .ident "print" none, .tree .args [printS] none] none

/-- An environment with a struct, which has no text. -/
def withS : Store := (Store.root {}).bind 0 "S" (.struct ⟨0, "S", []⟩)

theorem happens_printPrintS (limit depth : Nat) :
    Happens (Undisplayed limit ⟨.struct, some "S"⟩) limit (depth + 3) printPrintS 0 withS := by
  let p := Undisplayed limit ⟨.struct, some "S"⟩
  have hfound (o) : p (depth + 2) printS 0 withS o :=
    ⟨depth + 1, "print", .print, _, _, _, [.struct ⟨0, "S", []⟩], withS,
      rfl, rfl, rfl, rfl, rfl, rfl⟩
  have hmem := alarm_mem_evalWatching limit hfound
  have hfails : (evalWatching p limit (depth + 2) printS 0 withS).1 =
      .error (.undisplayable ⟨.struct, some "S"⟩) :=
    (evalWatching_eq p limit (depth + 2) printS 0 rfl).1.trans
      (evalNode_of_undisplayed (hfound (.ok .nothing, withS)))
  rcases hrun : evalWatching p limit (depth + 2) printS 0 withS with ⟨r, s'⟩
  rw [hrun] at hmem hfails
  subst hfails
  have hcall : callBuiltin (evalWatching p limit (depth + 2)) 0 .print [printS] withS =
      (.error (.undisplayable ⟨.struct, some "S"⟩), s') := by
    rw [callBuiltin, bind_apply, each, bind_apply, argument, bind_apply, attempt, hrun]
  have hnode : located printPrintS (step limit (evalWatching p limit (depth + 2)) printPrintS 0)
      withS = (.error (.undisplayable ⟨.struct, some "S"⟩), s') :=
    located_error printPrintS hcall
  show alarm ∈ (watched _ _ withS).2.log
  obtain hsame | ⟨-, hrecord⟩ := snd_watched (p (depth + 3) printPrintS 0)
    (located printPrintS (step limit (evalWatching p limit (depth + 2)) printPrintS 0)) withS
  · rw [hsame, hnode]
    exact hmem
  · rw [hrecord]
    exact Array.mem_push_self

/-- A print that fails inside the argument of another ends the program. -/
theorem failures_surface_printPrintS :
    Happens (Undisplayed turnLimit ⟨.struct, some "S"⟩) turnLimit depthLimit printPrintS 0 withS ∧
    (evaluate printPrintS 0 withS).1 = .error (.undisplayable ⟨.struct, some "S"⟩) := by
  have hhappens := happens_printPrintS turnLimit 997
  exact ⟨hhappens, (failures_surface turnLimit depthLimit printPrintS 0 withS).1 _ hhappens⟩

end Tern
