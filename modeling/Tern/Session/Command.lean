import Tern.Config
import Tern.Text.Blank
import Tern.Text.Case

/-!
# Commands

A submission that starts with a slash is no program but a command to the session: its first word
is the command's name, and the rest is an argument, read without regard to case.
-/

namespace Tern

/-- What is wanted of the tracing of errors. -/
inductive TraceRequest
  | turn (on : Bool)
  | toggle
  /-- The argument is none of the known words. -/
  | unclear
  deriving Repr, DecidableEq

inductive Command
  /-- Clear the screen. -/
  | clear
  /-- Trace errors, or do not. -/
  | trace (request : TraceRequest)
  /-- Start again with an empty environment. -/
  | reset
  | unknown (name : String)
  deriving Repr, DecidableEq

/-- Reads the argument of the trace command. -/
def TraceRequest.ofArgument (argument : String) : TraceRequest :=
  if argument ∈ trueWords then turn true
  else if argument ∈ falseWords then turn false
  else if argument = "" then toggle
  else unclear

/-- The state of tracing after a request, unless the request is unclear. -/
def TraceRequest.apply? (now : Bool) : TraceRequest → Option Bool
  | turn on => some on
  | toggle => some !now
  | unclear => none

namespace Command

/-- The command of a name, with its argument in lower case. -/
def ofName (name argument : String) : Command :=
  match name with
  | "/clear" => clear
  | "/py-traceback" => trace (.ofArgument argument)
  | "/reset" => reset
  | name => unknown name

/-- Reads a submission, which is a command if it starts with a slash after any blanks. -/
def read? (line : String) : Option Command :=
  match Text.trimChars line.toList with
  | '/' :: rest =>
    let (name, argument) := Text.firstWord ('/' :: rest)
    some (ofName (String.ofList name) (Text.lower (String.ofList argument)))
  | _ => none

end Command

/-! ## Completion -/

/-- A command that a draft may become: its name in place of the draft. -/
structure Completion where
  name : String
  /-- How many characters before the cursor are replaced. -/
  replaced : Nat
  description : String
  deriving Repr, DecidableEq

/-- The commands with their descriptions. -/
def Command.descriptions : List (String × String) :=
  [ ("/clear", "Clear the terminal screen"),
    ("/py-traceback", "Toggle Python traceback on errors"),
    ("/reset", "Reset the REPL environment") ]

/-- The commands that a draft is the beginning of. -/
def completions (draft : String) : List Completion :=
  if draft.toList.head? = some '/' then
    (Command.descriptions.filter fun (name, _) => draft.toList.isPrefixOf name.toList).map
      fun (name, description) => ⟨name, draft.length, description⟩
  else []

end Tern
