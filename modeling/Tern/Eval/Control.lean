import Tern.Eval.Basic

/-!
# Blocks, conditionals and loops

A block is no scope: its statements run in the environment that it stands in, and so does a
loop's body, whose variable stays bound afterwards. The items of a `for` loop are fixed before
its first turn.
-/

namespace Tern.Eval

/-- Statements in order; the last value is the result. -/
def block (ev : Evaluator) (env : LayerId) (result : Value) : List Node → Eval Value
  | [] => pure result
  | n :: rest => do
    let value ← ev n env
    block ev env value rest

/-- A condition, which must be a truth value. -/
def condition (ev : Evaluator) (env : LayerId) (n : Node) : Eval Bool := do
  match ← ev n env with
  | .bool b => pure b
  | v => mismatch "bool" v

/-- A condition, what it leads to, and an alternative. Further children mean nothing. -/
def conditional (ev : Evaluator) (env : LayerId) : List Node → Eval Value
  | cond :: yes :: rest => do
    if ← condition ev env cond then ev yes env
    else
      match rest with
      | no :: _ => ev no env
      | [] => pure .nothing
  | _ => misshapen

/-! ## While -/

/-- The condition of a loop. What is no truth value ends the loop, or is an error when the
configuration is strict. -/
def loopCondition (ev : Evaluator) (env : LayerId) (strict : Bool) (n : Node) : Eval Bool := do
  match ← ev n env with
  | .bool b => pure b
  | v => if strict then mismatch "bool" v else pure false

/-- At most so many turns. -/
def turns (cond : Eval Bool) (body : Eval Value) : Nat → Eval Value
  | 0 => fail .tooLong
  | n + 1 => do
    if ← cond then
      let _ ← body
      turns cond body n
    else pure .nothing

def whileLoop (limit : Nat) (ev : Evaluator) (env : LayerId) : List Node → Eval Value
  | [cond, body] => do
    let strict := (← configOf env).strictWhile
    turns (loopCondition ev env strict cond) (ev body env) limit
  | _ => misshapen

/-! ## For -/

/-- Runs `turn` for each item; the last result counts. -/
def overItems (turn : Value → Eval Value) (last : Value) : List Value → Eval Value
  | [] => pure last
  | v :: rest => do
    let result ← turn v
    overItems turn result rest

/-- Runs `turn` for the `count` integers from `i` on; the last result counts. -/
def overRange (turn : Int → Eval Value) (last : Value) : (count : Nat) → (i : Int) → Eval Value
  | 0, _ => pure last
  | n + 1, i => do
    let result ← turn i
    overRange turn result n (i + 1)

/-- The turn for an integer as a number. Beyond the finite doubles there is none. -/
def wholeTurn (turn : Value → Eval Value) (i : Int) : Eval Value :=
  match Number.ofInt? i with
  | some x => turn (.number x)
  | none => fail (.beyondDoubles i)

def forLoop (ev : Evaluator) (env : LayerId) : List Node → Eval Value
  | [target, iterable, body] => do
    let name ← expectIdent target
    let turn := fun item => do
      bindName env name item
      ev body env
    match ← ev iterable env with
    | .list items => overItems turn .nothing items
    | .range start stop => overRange (wholeTurn turn) .nothing (stop - start).toNat start
    | v => mismatch "list" v
  | _ => misshapen

end Tern.Eval
