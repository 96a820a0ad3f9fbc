import Tern.Eval.Calls
import Tern.Eval.Collections
import Tern.Eval.Control
import Tern.Eval.Match
import Tern.Eval.Structs
import Tern.Eval.Variables
import Tern.Number.Numeral
import Tern.Text.Quoted

/-!
# Evaluating nodes

One step looks at a node's kind and hands the nodes inside to an evaluator; `evalNode` ties the
knot, each step allowing one level less below it. Evaluation that nests too deep is a failure,
and so is a loop of too many turns, so every evaluation ends.
-/

namespace Tern

namespace Eval

/-- The value of a token. -/
def token (kind : TokenKind) (text : String) (env : LayerId) : Eval Value :=
  match kind with
  | .ident => getName env text
  | .number =>
    match Number.ofNumeral? text with
    | some x => pure (.number x)
    | none => fail (.notNumeral text)
  | .string => pure (.string (Text.unquote text))
  | .trueWord => pure (.bool true)
  | .falseWord => pure (.bool false)
  | kind => raise (.unhandledToken kind.name text)

/-- The value of a tree. -/
def tree (limit : Nat) (ev : Evaluator) (label : Label) (children : List Node) (env : LayerId) :
    Eval Value :=
  match label with
  | .empty => pure .nothing
  | .block => block ev env .nothing children
  | .binop => binop ev env children
  | .ifThen | .ifThenElse => conditional ev env children
  | .assign => assign ev env children
  | .setVar => setVar ev env children
  | .inPlace => inPlace ev env children
  | .whileLoop => whileLoop limit ev env children
  | .forLoop => forLoop ev env children
  | .funDef => funDef env children
  | .call => call ev env children
  | .list => list ev env children
  | .index => index ev env children
  | .range => range ev env children
  | .structDef => structDef env children
  | .callStruct => callStruct ev env children
  | .getAttr => getAttr env children
  | .impl => impl env children
  | .getFunc => getFunc ev env children
  | .matching => matching ev env children
  | label => raise (.unknownNode label.name)

/-- One step: a node's own rule, with an evaluator for the nodes inside. -/
def step (limit : Nat) (ev : Evaluator) (n : Node) (env : LayerId) : Eval Value :=
  match n with
  | .token kind text _ => token kind text env
  | .tree label children _ => tree limit ev label children env
  | .stray d => raise (.notExpression d.inspect)

/-- Evaluates a node, at most `depth` nodes inside each other and at most `limit` turns of a
loop. -/
def evalNode (limit : Nat) : (depth : Nat) → Evaluator
  | 0 => fun _ _ => fail .tooDeep
  | depth + 1 => fun n env => located n (step limit (evalNode limit depth) n env)

end Eval

/-- How many nodes may be under evaluation inside each other. -/
def depthLimit : Nat := 1000

/-- How many turns a loop may take. -/
def turnLimit : Nat := Nat.pow 10 15

/-- Evaluates a node within the limits. -/
def evaluate : Evaluator := Eval.evalNode turnLimit depthLimit

end Tern
