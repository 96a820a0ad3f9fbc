import Tern.Eval.Basic
import Tern.Number.Arithmetic

/-!
# Lists and ranges

A list is indexed by a number, truncated, or sliced by a range. The list is looked up before the
index is evaluated. A slice starts at an item of the list and stops within it or at its end.
-/

namespace Tern.Eval

def list (ev : Evaluator) (env : LayerId) (items : List Node) : Eval Value := do
  let values ← each (fun n => ev n env) items
  pure (.list values)

/-- `start..stop`; both ends are evaluated before either is checked. -/
def range (ev : Evaluator) (env : LayerId) : List Node → Eval Value
  | [startNode, stopNode] => do
    let start ← ev startNode env
    let stop ← ev stopNode env
    match start, stop with
    | .number a, .number b => pure (.range (Number.truncate a) (Number.truncate b))
    | .number _, v => mismatch "number" v
    | v, _ => mismatch "number" v
  | _ => misshapen

/-- An integer is out of bounds. The error names it, so it has to be written. -/
def refuseIndex (name : String) (i : Int) : Eval Value :=
  match Number.inFull i with
  | .ok text => raise (.indexOutOfBounds text name)
  | .error i => fail (.unwritable i)

/-- The item at a number: negative numbers and those without a whole part are out of bounds. -/
def itemAt (name : String) (items : List Value) (x : Float) : Eval Value :=
  if x.isFinite then
    let i := Number.truncate x
    if x < 0 then refuseIndex name i
    else match items[i.toNat]? with
      | some v => pure v
      | none => refuseIndex name i
  else raise (.indexOutOfBounds (Number.literal x) name)

/-- The items of a range; the end out of bounds that comes first is reported. -/
def slice (name : String) (items : List Value) (start stop : Int) : Eval Value :=
  let n : Int := items.length
  if start < 0 ∨ n ≤ start then refuseIndex name start
  else if n < stop ∨ stop < start then refuseIndex name stop
  else pure (.list ((items.drop start.toNat).take (stop - start).toNat))

/-- `name[index]`. -/
def index (ev : Evaluator) (env : LayerId) : List Node → Eval Value
  | [target, indexNode] => do
    let name ← expectIdent target
    match ← lookup? env name with
    | none => raise (.variableNotFound name)
    | some (.list items) =>
      match ← ev indexNode env with
      | .number x => itemAt name items x
      | .range start stop => slice name items start stop
      | v => mismatch "number" v
    | some v => mismatch "list" v
  | _ => misshapen

end Tern.Eval
