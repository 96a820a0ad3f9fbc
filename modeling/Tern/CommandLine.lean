import Tern.Directory
import Tern.Session
import Tern.Text.Newline

/-!
# The command line

`tern [FILE | - | SOURCE] [--repl]`: the arguments say where a program comes from, or that a
session is wanted. The arguments are read first, then the configuration, then the program, and
the first of them that is wrong ends everything. What a run of the command says and records, and
the status that it ends with, is its *outcome*.
-/

namespace Tern.CommandLine

/-! ## Arguments -/

def usage : String := "usage: tern [FILE | - | SOURCE] [--repl]\n"

/-- What the arguments ask for. -/
inductive Request
  | help
  /-- There is an argument too many. -/
  | surplus (argument : String)
  | start (session : Bool) (program : Option String)
  deriving Repr, DecidableEq

/-- Reads the arguments after those that asked for a session or named a program. -/
def Request.readFrom (session : Bool) (program : Option String) : List String → Request
  | [] => start session program
  | "--repl" :: rest => readFrom true program rest
  | "-h" :: _ | "--help" :: _ => help
  | argument :: rest =>
    match program with
    | none => readFrom session (some argument) rest
    | some _ => surplus argument

/-- Reads the arguments from left to right; the first that decides the request ends the reading. -/
def Request.read (arguments : List String) : Request := readFrom false none arguments

/-! ## Outcomes -/

/-- How a command ends: with a status, with a complaint about how it was called, or because its
program cannot be read. -/
inductive Ending
  | status (code : Nat)
  | complaint (message : String)
  | unreadable (why : Unreadable)
  deriving Repr, DecidableEq

structure Outcome where
  ending : Ending
  out : String := ""
  err : String := ""
  /-- The records that the configuration keeps. -/
  log : List Event := []
  deriving Repr, DecidableEq

/-- The status and the heading of the report that an error ends a program with. -/
def endingOf : RunError → Nat × String
  | .rejected _ => (2, "Parse error")
  | .failed (.raised _) => (1, "Error")
  | .failed _ => (2, "Host error")

/-- What is recorded of an error. -/
def eventOf : RunError → Event
  | .rejected _ => .parseFailed
  | .failed (.raised _) => .runtimeFailed
  | .failed _ => .hostFailed

/-! ## Programs -/

/-- Runs a program. -/
def execute (config : Config) (tracing fromStdin : Bool) (source : String) : Outcome :=
  let (result, store) := run source 0 ((Store.root config).record (.loaded fromStdin))
  match result with
  | .ok _ =>
    { ending := .status 0, out := store.text, log := store.log.toList.filter (·.kept config) }
  | .error e =>
    let (code, heading) := endingOf e
    { ending := .status code, out := store.text, err := report tracing heading e.message,
      log := (store.record (eventOf e)).log.toList.filter (·.kept config) }

/-! ## Sessions -/

/-- Holds a session; every reply follows a prompt. -/
def converse (config : Config) (tracing : Bool) (clearCode : String) (inputs : List Input) :
    Outcome :=
  let replies := (Session.new config tracing).replies inputs
  { ending := .status 0
    out := Session.banner
      ++ String.join (replies.map fun r => Session.prompt ++ r.shown clearCode)
      ++ Session.prompt ++ Session.farewell
    err := String.join (replies.map (·.err))
    log := (replies.flatMap (·.log)).filter (·.kept config) }

/-! ## The whole command -/

/-- What is left to do once the arguments and the configuration are read. -/
inductive Plan
  | finish (outcome : Outcome)
  | converse (config : Config) (tracing : Bool)
  /-- Run a program from an argument or from standard input. -/
  | execute (config : Config) (tracing : Bool) (argument : Option String)

/-- Whether reports are traced. -/
def tracing (environ : Environ) : Bool := traceEnabled (environ.lookup "TERN_DEBUG_PY_TRACE")

/-- Decides what to do. A session is held when it is asked for, or when there is no program and
the user sits at a terminal. -/
def plan (arguments : List String) (environ : Environ) (atTerminal : Bool) : Plan :=
  match Request.read arguments with
  | .help => .finish { ending := .status 0, out := usage }
  | .surplus argument =>
    .finish { ending := .complaint ("Unexpected argument: " ++ argument) }
  | .start session program =>
    match Config.ofEnviron environ with
    | .error e =>
      .finish { ending := .status 2, err := report (tracing environ) "Config error" e.message }
    | .ok config =>
      if session ∨ (program = none ∧ atTerminal) then .converse config (tracing environ)
      else .execute config (tracing environ) (program.filter (· ≠ "-"))

/-- The outcome when standard input was to be read and is empty. -/
def noInput : Outcome := { ending := .complaint "No input provided on stdin" }

/-- Runs the program that standard input holds. -/
def executeStdin (config : Config) (tracing : Bool) (text : String) : Outcome :=
  if text = "" then noInput else execute config tracing true text

/-- Runs the program that an argument stands for: the content of the file that it is the path of,
and the argument itself when nothing is found there. -/
def executeArgument (config : Config) (tracing : Bool) (argument : String) : Found → Outcome
  | .nothing => execute config tracing false argument
  | .file content =>
    execute config tracing false (String.ofList (Text.plainNewlines content.toList))
  | .unreadable why => { ending := .unreadable why }

/-- Everything that the command looks at besides its arguments. -/
structure Surroundings where
  environ : Environ
  atTerminal : Bool
  /-- The content of standard input. -/
  stdin : String
  /-- What the user answers the prompts of a session with. -/
  inputs : List Input
  /-- What clears the user's screen when it is printed. -/
  clearCode : String
  /-- The current directory. -/
  directory : Directory

/-- Runs the command. -/
def command (arguments : List String) (around : Surroundings) : Outcome :=
  match plan arguments around.environ around.atTerminal with
  | .finish outcome => outcome
  | .converse config tracing => converse config tracing around.clearCode around.inputs
  | .execute config tracing none => executeStdin config tracing around.stdin
  | .execute config tracing (some argument) =>
    executeArgument config tracing argument (around.directory.find argument)

end Tern.CommandLine
