import Tern.Eval.Basic
import Tern.Operators

/-!
# Variables

`let` binds a new name in the layer itself; assignment and update in place write to the layer
that binds the name. A name's existence is checked before the value of an assignment is
evaluated, and after the value of a definition or an update.
-/

namespace Tern.Eval

/-- `let name = value`. -/
def assign (ev : Evaluator) (env : LayerId) : List Node → Eval Value
  | [nameNode, valueNode] => do
    let name ← expectIdent nameNode
    let value ← ev valueNode env
    if ← view fun s => (s.bindings env).holds name then
      raise (.variableDefined name)
    else
      bindName env name value
      pure .nothing
  | _ => misshapen

/-- `name = value`. -/
def setVar (ev : Evaluator) (env : LayerId) : List Node → Eval Value
  | [nameNode, valueNode] => do
    let name ← expectIdent nameNode
    if (← lookup? env name).isNone then
      raise (.variableNotFound name)
    else
      let value ← ev valueNode env
      setName env name value
      pure .nothing
  | _ => misshapen

/-- `name += value` and the like, on numbers. -/
def inPlace (ev : Evaluator) (env : LayerId) : List Node → Eval Value
  | [nameNode, opNode, valueNode] => do
    let name ← expectIdent nameNode
    match Arith.ofInPlace? opNode.operatorText with
    | none => raise (.unknownInPlace opNode.operatorText)
    | some op =>
      match ← ev valueNode env with
      | .number b =>
        match ← lookup? env name with
        | some (.number a) =>
          setName env name (.number (op.apply a b))
          pure .nothing
        | some v => mismatch "number" v
        | none => raise (.variableNotFound name)
      | v => mismatch "int or float" v
  | _ => misshapen

/-- Two operands and the operator between them. -/
def binop (ev : Evaluator) (env : LayerId) : List Node → Eval Value
  | [leftNode, opNode, rightNode] => do
    let left ← ev leftNode env
    let right ← ev rightNode env
    ofExcept (applyOperator opNode.operatorText left right)
  | _ => misshapen

end Tern.Eval
