import Tern.Eval.Basic

/-!
# Match

All arms are checked for their shape before anything is evaluated. In the legacy mode every arm
runs: its pattern is evaluated for its effects, errors discarded, then the subject, then the
body, and the last body's value counts. In the `first` mode the subject is evaluated once, and
the first arm whose pattern is a bare underscore or equals it runs alone. A body runs in a layer
of its own.
-/

namespace Tern.Eval

/-- The pattern and body of an arm. -/
def arm (n : Node) : Eval (Node × Node) :=
  if n.label? = some .case then
    match n.children with
    | [pattern, body] => pure (pattern, body)
    | _ => misshapen
  else
    let shown := match n.label? with
      | some label => if label.name = "" then n.inspect else Text.inspect label.name
      | none => n.inspect
    raise (.malformedArm shown)

/-- The layer that an arm's body runs in. -/
def armLayer (env : LayerId) : Eval LayerId := do
  spawn env (if (← configOf env).lexicalScope then some env else none)

/-- Runs every arm. -/
def allArms (ev : Evaluator) (env : LayerId) (subject : Node) (result : Value) :
    List (Node × Node) → Eval Value
  | [] => pure result
  | (pattern, body) :: rest => do
    match ← attempt (ev pattern env) with
    | .ok _ => pure ()
    | .error e => record (.patternDropped e)
    let _ ← ev subject env
    let value ← ev body (← armLayer env)
    allArms ev env subject value rest

/-- Whether a pattern takes a value. A bare underscore takes any and is not evaluated. -/
def takes (ev : Evaluator) (env : LayerId) (value : Value) (pattern : Node) : Eval Bool :=
  if pattern.identName? = some "_" then pure true
  else do
    let v ← ev pattern env
    pure (value.matching v)

/-- Runs the first arm that takes the value. -/
def firstArm (ev : Evaluator) (env : LayerId) (value : Value) :
    (index : Nat) → List (Node × Node) → Eval Value
  | _, [] => pure .nothing
  | i, (pattern, body) :: rest => do
    if ← takes ev env value pattern then
      record (.armSelected i)
      ev body (← armLayer env)
    else firstArm ev env value (i + 1) rest

def matching (ev : Evaluator) (env : LayerId) : List Node → Eval Value
  | subject :: cases => do
    let arms ← each arm cases
    match (← configOf env).matchMode with
    | .first =>
      let value ← ev subject env
      firstArm ev env value 0 arms
    | .legacy =>
      record (.legacyMatch arms.length)
      allArms ev env subject .nothing arms
  | [] => misshapen

end Tern.Eval
