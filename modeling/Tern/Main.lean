import Tern.CommandLine

/-!
# The program

The outer layer: it reads the environment, files and standard input, and prints what the command
line and the session answer.
-/

namespace Tern

/-- The variables that the command looks at. -/
def variableNames : List String :=
  ["TERN_LEXICAL_SCOPE", "TERN_MATCH_MODE", "TERN_METHOD_ARGS", "TERN_STRICT_WHILE",
    "TERN_LOG_LEVEL", "TERN_DEBUG_PY_TRACE"]

def readEnviron : IO Environ :=
  variableNames.filterMapM fun var => return (← IO.getEnv var).map fun value => (var, value)

/-- What a path leads to. A null character, which no path has, is an invalid argument of its own
code. -/
def find (path : String) : IO Found := do
  try
    return .file (← IO.FS.readFile (if path = "" then "." else path))
  catch
    | .noFileOrDirectory .. | .invalidArgument _ 22 _ => return .nothing
    | .inappropriateType _ 21 _ => return .unreadable .directory
    | .inappropriateType .. => return .nothing
    | .invalidArgument .. => return .unreadable .tooLong
    | e => throw e

/-- All that is left of standard input. -/
partial def readRest (input : IO.FS.Stream) : IO String := do
  let line ← input.getLine
  if line.isEmpty then return "" else return line ++ (← readRest input)

/-! ## Output -/

def Topic.text : Topic → String
  | .program => "program"
  | .calls => "calls"
  | .functions => "functions"
  | .objects => "objects"
  | .matches => "match"

/-- The line of a record. -/
def Event.line (e : Event) : String :=
  "tern." ++ e.topic.text ++ " - " ++ e.level.name ++ " - " ++ e.message ++ "\n"

def printLog (log : List Event) : IO Unit := do
  for e in log do
    IO.eprint e.line

def Unreadable.message : Unreadable → String
  | .directory => "Is a directory"
  | .tooLong => "File name too long"

/-- Prints an outcome; the status of the process is the result. -/
def finish (o : CommandLine.Outcome) : IO UInt32 := do
  IO.print o.out
  (← IO.getStdout).flush
  printLog o.log
  IO.eprint o.err
  match o.ending with
  | .status code => return UInt32.ofNat code
  | .complaint message =>
    IO.eprintln message
    return 1
  | .unreadable why =>
    IO.eprintln why.message
    return 1

/-! ## Sessions -/

/-- Moves to the top left of an empty screen. -/
def clearCode : String := "\x1b[2J\x1b[H"

/-- Reads a submission, whose lines go on while Enter does not submit them; none at the end of
the input. -/
partial def readSubmission (input : IO.FS.Stream) (draft : String) : IO (Option String) := do
  (← IO.getStdout).flush
  let line ← input.getLine
  if line.isEmpty then return none
  let draft := draft ++ String.ofList (line.toList.filter (· ≠ '\n'))
  if .submit ∈ Key.enter.edits draft then return some draft
  else
    IO.print Session.continuationPrompt
    readSubmission input (draft ++ "\n")

partial def converseFrom (input : IO.FS.Stream) (s : Session) : IO Unit := do
  IO.print Session.prompt
  match ← readSubmission input "" with
  | none => IO.print Session.farewell
  | some text =>
    let (reply, s) := s.step (.line text)
    IO.print (reply.shown clearCode)
    printLog (reply.log.filter (·.kept s.config))
    IO.eprint reply.err
    converseFrom input s

end Tern

open Tern in
def main (arguments : List String) : IO UInt32 := do
  let input ← IO.getStdin
  match CommandLine.plan arguments (← readEnviron) (← input.isTty) with
  | .finish outcome => finish outcome
  | .converse config tracing =>
    IO.print Session.banner
    converseFrom input (Session.new config tracing)
    return 0
  | .execute config tracing none =>
    finish (CommandLine.executeStdin config tracing (← readRest input))
  | .execute config tracing (some argument) =>
    finish (CommandLine.executeArgument config tracing argument (← find argument))
