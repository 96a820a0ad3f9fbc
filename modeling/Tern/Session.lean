import Tern.Program
import Tern.Session.Command
import Tern.Session.Draft

/-!
# Sessions

A conversation at a prompt. A session keeps one environment, in which each submission is
evaluated, and whether errors are traced. To every input it gives a reply and a session to go on
with; `Session.replies` holds a whole conversation.

A submission is cleaned first. If nothing but blanks is left, nothing happens; a command is
obeyed; all else is a program, whose output, echo or error report is the reply. A reset puts an
empty store in the place of the old one, so nothing of the old environment can be seen afterwards.
-/

namespace Tern

/-- What a user answers a prompt with. -/
inductive Input
  | line (text : String)
  | interrupt
  deriving Repr, DecidableEq

/-- What a session has to say. -/
structure Reply where
  /-- Whether the screen is cleared. -/
  clears : Bool := false
  out : String := ""
  err : String := ""
  log : List Event := []
  deriving Repr, DecidableEq

/-- What is printed of a reply, given what clears the screen. -/
def Reply.shown (clearCode : String) (r : Reply) : String :=
  (if r.clears then clearCode else "") ++ r.out

structure Session where
  config : Config
  /-- The environment is layer zero of the store. -/
  store : Store
  tracing : Bool
  deriving Repr

namespace Session

def banner : String := "tern repl (Ctrl-D to exit, / for commands)\n"

def prompt : String := ">>> "

/-- The prompt of a draft's further lines. -/
def continuationPrompt : String := "... "

/-- A session with an empty environment. -/
def new (config : Config) (tracing : Bool) : Session := ⟨config, .root config, tracing⟩

/-! ## Commands -/

def traceUsage : String := "Usage: /py-traceback [on|off]\n"

def traceState (on : Bool) : String := "Python traceback: " ++ (if on then "on" else "off") ++ "\n"

def obey (s : Session) : Command → Reply × Session
  | .clear => ({ clears := true }, s)
  | .trace request =>
    match request.apply? s.tracing with
    | some on => ({ out := traceState on }, { s with tracing := on })
    | none => ({ err := traceUsage }, s)
  | .reset => ({ out := "Environment reset.\n" }, new s.config s.tracing)
  | .unknown name => ({ err := "Unknown command: " ++ name ++ "\n" }, s)

/-! ## Programs -/

/-- The echo of a value; there is none of nothing. -/
def echo : Value → Except Int String
  | .nothing => .ok ""
  | v => v.echo.map (· ++ "\n")

/-- The echo of what a program has come to, or why there is none. -/
def shown : Except RunError Value → Except RunError String
  | .ok v => (echo v).mapError fun i => .failed (.unwritable i)
  | .error e => .error e

/-- Evaluates a program. -/
def evaluate (s : Session) (source : String) : Reply × Session :=
  let (outcome, store) := submit source 0 s.store
  let reply : Reply := match shown outcome with
    | .ok text => { out := store.text ++ text, log := store.log.toList }
    | .error e =>
      { out := store.text, err := report s.tracing "Error" e.message, log := store.log.toList }
  (reply, { s with store := store.forget })

/-! ## Conversations -/

/-- The reply to one input, and the session after it. -/
def step (s : Session) : Input → Reply × Session
  | .interrupt => ({ out := "KeyboardInterrupt\n" }, s)
  | .line text =>
    let text := clean text
    if Text.trimChars text.toList = [] then ({}, s)
    else match Command.read? text with
      | some command => s.obey command
      | none => s.evaluate text

/-- The replies to some inputs. -/
def replies (s : Session) : List Input → List Reply
  | [] => []
  | input :: rest => (s.step input).1 :: (s.step input).2.replies rest

/-- The session after some inputs. -/
def after (s : Session) : List Input → Session
  | [] => s
  | input :: rest => (s.step input).2.after rest

/-- What is printed when the inputs end. -/
def farewell : String := "\n"

end Session

end Tern
