import Tern.Proofs.Relocation
import Tern.Session

/-!
# Resets

After a reset a session replies as a new one does to all that follows, whatever it has been told
before (`replies_after_reset`). Only whether errors are traced is kept.

A session puts an empty store in the place of the old one at a reset. A `Lasting` session keeps all
that has ever been made: a reset makes a new root with a registry of its own, and the old layers,
structs and registries stay where they are. Input by input it replies as the session does
(`Lasting.Follows.step`), for its store is the session's behind all that is left from before, which
evaluation in a grounded store neither reads nor changes.
-/

namespace Tern

open Eval

/-! ## Programs -/

theorem submit_eq_mapError {source : String} {tree : Node} (h : parse source = .ok tree)
    (e : LayerId) (s : Store) : submit source e s =
      ((evaluate tree e s).1.mapError .failed, (evaluate tree e s).2) := by
  simp only [submit, h]
  rcases evaluate tree e s with ⟨_ | _, _⟩ <;> rfl

section Submit

variable {s : Store} (hs : s.Grounded) {e : LayerId} (he : e < s.layers.size) (source : String)

include hs he

theorem grounded_submit : (submit source e s).2.Grounded ∧
    s.layers.size ≤ (submit source e s).2.layers.size := by
  cases hparse : parse source with
  | error err =>
    rw [submit, hparse]
    exact ⟨hs, Nat.le_refl _⟩
  | ok tree =>
    rw [submit_eq_mapError hparse]
    have hat := groundedAt_evalNode hs turnLimit depthLimit tree he
    exact ⟨hat.after, hat.grows⟩

/-- A program that is run behind another store. -/
theorem submit_append (base : Store) :
    submit source (e + base.layers.size) (base.append s) =
      ((submit source e s).1.map (Value.shift base.offset), base.append (submit source e s).2) := by
  cases hparse : parse source with
  | error err =>
    rw [submit, submit, hparse]
    rfl
  | ok tree =>
    rw [submit_eq_mapError hparse, submit_eq_mapError hparse, evaluate,
      evalNode_append base hs turnLimit depthLimit tree he]
    cases (evalNode turnLimit depthLimit tree e s).1 <;> rfl

end Submit

namespace Session

/-- What is replied when a program has ended. -/
def replyTo (tracing : Bool) (o : RunOutcome) : Reply :=
  match shown o.1 with
  | .ok text => { out := o.2.text ++ text, log := o.2.log.toList }
  | .error e =>
    { out := o.2.text, err := report tracing "Error" e.message, log := o.2.log.toList }

theorem evaluate_eq (s : Session) (source : String) :
    s.evaluate source = (replyTo s.tracing (submit source 0 s.store),
      { s with store := (submit source 0 s.store).2.forget }) := by
  unfold evaluate replyTo
  rcases submit source 0 s.store with ⟨outcome, store⟩
  rfl

theorem obey_of_ne_reset (s : Session) {c : Command} (hc : c ≠ .reset) :
    (s.obey c).2 = { s with tracing := (s.obey c).2.tracing } := by
  cases c with
  | reset => exact absurd rfl hc
  | trace request =>
    unfold obey
    dsimp only
    cases request.apply? s.tracing <;> rfl
  | _ => rfl

/-- Of a session a command looks at no more than whether errors are traced. -/
theorem obey_congr {s t : Session} (h : t.tracing = s.tracing) (c : Command) :
    (t.obey c).1 = (s.obey c).1 ∧ (t.obey c).2.tracing = (s.obey c).2.tracing := by
  unfold obey
  rw [h]
  cases c with
  | trace request =>
    dsimp only
    cases request.apply? s.tracing with
    | none => exact ⟨rfl, h⟩
    | some on => exact ⟨rfl, rfl⟩
  | reset => exact ⟨rfl, rfl⟩
  | _ => exact ⟨rfl, h⟩

theorem echo_shift (o : Offset) (v : Value) : echo (v.shift o) = echo v := by
  have hecho := Value.echo_shift o v
  cases v with
  | nothing => rfl
  | _ => exact congrArg (Except.map (· ++ "\n")) hecho

theorem shown_shift (o : Offset) (r : Except RunError Value) :
    shown (r.map (Value.shift o)) = shown r := by
  cases r with
  | error e => rfl
  | ok v =>
    exact congrArg (Except.mapError fun i => RunError.failed (.unwritable i)) (echo_shift o v)

/-- A reply does not show where the store stands. -/
theorem replyTo_append (base : Store) (tracing : Bool) (o : RunOutcome) :
    replyTo tracing (o.1.map (Value.shift base.offset), base.append o.2) = replyTo tracing o := by
  rw [replyTo, replyTo, shown_shift]
  rfl

/-! ## Sessions that keep everything -/

/-- A session with its environment anywhere in a store that nothing is ever taken out of. -/
structure Lasting extends Session where
  env : LayerId

namespace Lasting

def new (config : Config) (tracing : Bool) : Lasting := ⟨Session.new config tracing, 0⟩

/-- Obeys a command as a session does, but for a reset, which makes a new root. -/
def obey (s : Lasting) (c : Command) : Reply × Lasting :=
  let (reply, next) := s.toSession.obey c
  match c with
  | .reset =>
    let (store, env) := s.store.addRoot s.config
    (reply, { s with store, env })
  | _ => (reply, { s with tracing := next.tracing })

def evaluate (s : Lasting) (source : String) : Reply × Lasting :=
  let o := submit source s.env s.store
  (replyTo s.tracing o, { s with store := o.2.forget })

def step (s : Lasting) : Input → Reply × Lasting
  | .interrupt => ({ out := "KeyboardInterrupt\n" }, s)
  | .line text =>
    let text := clean text
    if Text.trimChars text.toList = [] then ({}, s)
    else match Command.read? text with
      | some command => s.obey command
      | none => s.evaluate text

def replies (s : Lasting) : List Input → List Reply
  | [] => []
  | input :: rest => (s.step input).1 :: (s.step input).2.replies rest

def after (s : Lasting) : List Input → Lasting
  | [] => s
  | input :: rest => (s.step input).2.after rest

/-- The store of the lasting session is that of the other one, behind whatever is left. -/
structure Follows (t : Lasting) (s : Session) : Prop where
  config : t.config = s.config
  tracing : t.tracing = s.tracing
  store : ∃ base : Store, t.store = base.append s.store ∧ t.env = base.layers.size
  grounded : s.store.Grounded
  present : 0 < s.store.layers.size
  written : s.store.written = #[]
  log : s.store.log = #[]

theorem follows_new (config : Config) (tracing : Bool) :
    (new config tracing).Follows (Session.new config tracing) where
  config := rfl
  tracing := rfl
  store := ⟨.empty, (Store.append_root .empty config rfl rfl).symm, rfl⟩
  grounded := Store.grounded_root config
  present := Nat.zero_lt_one
  written := rfl
  log := rfl

namespace Follows

variable {t : Lasting} {s : Session} (h : t.Follows s)

include h

/-- A new root stands behind all that there is. -/
theorem reset : Follows
    ⟨⟨t.config, (t.store.addRoot t.config).1, t.tracing⟩, (t.store.addRoot t.config).2⟩
    (Session.new s.config s.tracing) := by
  obtain ⟨base, hstore, -⟩ := h.store
  have hwritten : t.store.written = #[] := by
    rw [hstore]
    exact h.written
  have hlog : t.store.log = #[] := by
    rw [hstore]
    exact h.log
  have hnew := follows_new s.config s.tracing
  refine ⟨h.config, h.tracing, ⟨t.store, ?_, rfl⟩, hnew.grounded, hnew.present, rfl, rfl⟩
  rw [h.config]
  exact (t.store.append_root s.config hwritten hlog).symm

theorem obey (c : Command) :
    (t.obey c).1 = (s.obey c).1 ∧ (t.obey c).2.Follows (s.obey c).2 := by
  obtain ⟨hreply, htracing⟩ := obey_congr h.tracing c
  by_cases hc : c = .reset
  · subst hc
    exact ⟨hreply, h.reset⟩
  · have ht : t.obey c = ((t.toSession.obey c).1,
        { t with tracing := (t.toSession.obey c).2.tracing }) := by
      cases c with
      | reset => exact absurd rfl hc
      | _ => rfl
    rw [ht, obey_of_ne_reset s hc]
    exact ⟨hreply, h.config, htracing, h.store, h.grounded, h.present, h.written, h.log⟩

/-- A program is run in the same way behind what is left. -/
theorem evaluate (source : String) : (t.evaluate source).1 = (s.evaluate source).1 ∧
    (t.evaluate source).2.Follows (s.evaluate source).2 := by
  obtain ⟨base, hstore, henv⟩ := h.store
  have hrun : submit source t.env t.store =
      ((submit source 0 s.store).1.map (Value.shift base.offset),
        base.append (submit source 0 s.store).2) := by
    rw [hstore, henv, ← submit_append h.grounded h.present source base, Nat.zero_add]
  obtain ⟨hgrounded, hgrows⟩ := grounded_submit h.grounded h.present source
  rw [Session.evaluate_eq, Lasting.evaluate, hrun]
  generalize submit source 0 s.store = o at hgrounded hgrows ⊢
  refine ⟨?_, h.config, h.tracing, ⟨base, rfl, henv⟩, hgrounded.of_layers rfl rfl,
    Nat.lt_of_lt_of_le h.present hgrows, rfl, rfl⟩
  rw [replyTo_append, h.tracing]

theorem step (input : Input) : (t.step input).1 = (s.step input).1 ∧
    (t.step input).2.Follows (s.step input).2 := by
  cases input with
  | interrupt => exact ⟨rfl, h⟩
  | line text =>
    unfold Lasting.step Session.step
    dsimp only
    by_cases hblank : Text.trimChars (clean text).toList = []
    · rw [if_pos hblank, if_pos hblank]
      exact ⟨rfl, h⟩
    · rw [if_neg hblank, if_neg hblank]
      cases Command.read? (clean text) with
      | some c => exact h.obey c
      | none => exact h.evaluate (clean text)

theorem replies (inputs : List Input) : t.replies inputs = s.replies inputs := by
  induction inputs generalizing t s with
  | nil => rfl
  | cons input rest ih =>
    obtain ⟨hreply, hnext⟩ := h.step input
    rw [Lasting.replies, Session.replies, hreply, ih hnext]

theorem after (inputs : List Input) : (t.after inputs).Follows (s.after inputs) := by
  induction inputs generalizing t s with
  | nil => exact h
  | cons input rest ih => exact ih (h.step input).2

end Follows

end Lasting

/-! ## Resets -/

theorem config_step (s : Session) (input : Input) : (s.step input).2.config = s.config := by
  cases input with
  | interrupt => rfl
  | line text =>
    unfold step
    dsimp only
    split
    · rfl
    · split
      · next c _ =>
        by_cases hc : c = .reset
        · subst hc
          rfl
        · rw [obey_of_ne_reset s hc]
      · rw [evaluate_eq]

theorem config_after (s : Session) (inputs : List Input) : (s.after inputs).config = s.config := by
  induction inputs generalizing s with
  | nil => rfl
  | cons input rest ih => rw [after, ih, config_step]

theorem after_append (s : Session) (inputs later : List Input) :
    s.after (inputs ++ later) = (s.after inputs).after later := by
  induction inputs generalizing s with
  | nil => rfl
  | cons input rest ih => rw [List.cons_append, after, ih, after]

/-- A text that is read as a command is not blank. -/
theorem step_of_command {text : String} {c : Command} (h : Command.read? (clean text) = some c)
    (s : Session) : s.step (.line text) = s.obey c := by
  have hblank : ¬Text.trimChars (clean text).toList = [] := by
    intro hnil
    rw [Command.read?, hnil] at h
    cases h
  rw [step, if_neg hblank, h]

/-- After a reset there is a new session. -/
theorem after_reset (s : Session) (history : List Input) {text : String}
    (hreset : Command.read? (clean text) = some .reset) :
    s.after (history ++ [.line text]) =
      new s.config (s.after (history ++ [.line text])).tracing := by
  have hlast : s.after (history ++ [.line text]) =
      new (s.after history).config (s.after history).tracing := by
    rw [after_append]
    show ((s.after history).step (.line text)).2 = _
    rw [step_of_command hreset]
    rfl
  rw [hlast, config_after]
  rfl

end Session

open Session

/-- A reset forgets everything. Whatever a session has been told before, it replies to all inputs
after a reset as a new session with its configuration does, as long as errors are traced in both or
in neither; and this also if everything that has been made before is still in the store. -/
theorem replies_after_reset (config : Config) (tracing : Bool) (history : List Input)
    {text : String} (hreset : Command.read? (clean text) = some .reset) {tracing' : Bool}
    (htracing : ((Session.new config tracing).after (history ++ [.line text])).tracing = tracing')
    (inputs : List Input) :
    ((Session.new config tracing).after (history ++ [.line text])).replies inputs =
      (Session.new config tracing').replies inputs ∧
    ((Lasting.new config tracing).after (history ++ [.line text])).replies inputs =
      (Lasting.new config tracing').replies inputs := by
  have hsession : ((Session.new config tracing).after (history ++ [.line text])).replies inputs =
      (Session.new config tracing').replies inputs := by
    rw [after_reset _ history hreset, htracing]
    rfl
  have hlasting := ((Lasting.follows_new config tracing).after (history ++ [.line text])).replies
    inputs
  have hnew := (Lasting.follows_new config tracing').replies inputs
  exact ⟨hsession, hlasting.trans (hsession.trans hnew.symm)⟩

/-- A variable that has been bound and a trace that has been turned on. The one is forgotten, the
other is not. -/
theorem replies_after_reset_letX :
    let history : List Input := [.line "let x = 1;", .line "/py-traceback on"]
    ((Session.new {} false).after (history ++ [.line "/reset"])).replies [.line "x"] =
      (Session.new {} true).replies [.line "x"] ∧
    ((Lasting.new {} false).after (history ++ [.line "/reset"])).replies [.line "x"] =
      (Lasting.new {} true).replies [.line "x"] :=
  @replies_after_reset {} false _ "/reset" (by rfl) true (by rfl) _

end Tern
