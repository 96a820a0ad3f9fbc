import Tern.Eval.Node
import Tern.Syntax.Parse

/-!
# Programs

Running a source text: parsing and evaluation in an environment, whose bindings persist from one
submission to the next. Nothing happens to the store when a text does not parse.
-/

namespace Tern

/-- Why a text has no value. -/
inductive RunError
  | rejected (e : SyntaxError)
  | failed (e : Failure)
  deriving Repr, DecidableEq

/-- The value of a text or why it has none, and the store that is left. -/
abbrev RunOutcome := Except RunError Value × Store

/-- Evaluates one text in the environment of a layer. -/
def submit (source : String) (env : LayerId) (s : Store) : RunOutcome :=
  match parse source with
  | .error e => (.error (.rejected e), s)
  | .ok tree =>
    match evaluate tree env s with
    | (.ok v, s') => (.ok v, s')
    | (.error e, s') => (.error (.failed e), s')

/-- Evaluates a whole program, and records its start and its end. -/
def run (source : String) (env : LayerId) (s : Store) : RunOutcome :=
  match parse source with
  | .error e => (.error (.rejected e), s)
  | .ok tree =>
    match evaluate tree env (s.record (.started source.length)) with
    | (.ok v, s') => (.ok v, s'.record .finished)
    | (.error e, s') => (.error (.failed e), s')

/-! ## Error reports -/

/-- The text of a failure. Those that no parsed program ends in have none. -/
def Failure.message : Failure → String
  | raised e => e.message
  | undisplayable type => type.undisplayable
  | tooDeep => "maximum recursion depth exceeded"
  | misshapen | notNumeral _ | noBuiltin _ | beyondDoubles _ | unwritable _ | tooLong => ""

def RunError.message : RunError → String
  | rejected e => e.message
  | failed e => e.message

/-- The lines of an error report. With tracing on, a heading for the host's trace follows. -/
def report (trace : Bool) (heading message : String) : String :=
  heading ++ ": " ++ message ++ "\n" ++ if trace then "\nPython traceback:\n" else ""

end Tern
