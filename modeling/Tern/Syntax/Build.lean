import Tern.Number.Notation
import Tern.Syntax.Node
import Tern.Text.Quoted

/-!
# Building trees by hand

One constructor for each kind of node, giving the shape that the evaluator expects of it. Built
nodes have no position.
-/

namespace Tern.Node

/-! ## Tokens -/

def ident (name : String) : Node := .token .ident name none

def number (x : Float) : Node := .token .number (Number.literal x) none

def string (text : String) : Node := .token .string (Text.quote text) none

def boolean (b : Bool) : Node :=
  if b then .token .trueWord "true" none else .token .falseWord "false" none

/-! ## Trees -/

def empty : Node := .tree .empty [] none

def block (body : List Node) : Node := .tree .block body none

def binop (op : String) (left right : Node) : Node :=
  .tree .binop [left, .token (.other "OP") op none, right] none

/-- A conditional, with or without an alternative. -/
def ifThen (cond yes : Node) : Option Node → Node
  | none => .tree .ifThen [cond, yes] none
  | some no => .tree .ifThenElse [cond, yes, no] none

def assign (name : String) (value : Node) : Node := .tree .assign [ident name, value] none

def setVar (name : String) (value : Node) : Node := .tree .setVar [ident name, value] none

def inPlace (op name : String) (value : Node) : Node :=
  .tree .inPlace [ident name, .token .inPlaceOp op none, value] none

def whileLoop (cond body : Node) : Node := .tree .whileLoop [cond, body] none

def forLoop (target iterable body : Node) : Node :=
  .tree .forLoop [target, iterable, body] none

def funDef (name : String) (params : List Node) (body : Node) : Node :=
  .tree .funDef [ident name, .tree .params params none, body] none

def call (name : String) (args : List Node) : Node :=
  .tree .call [ident name, .tree .args args none] none

def listOf (items : List Node) : Node := .tree .list items none

def index (target idx : Node) : Node := .tree .index [target, idx] none

def rangeOf (start stop : Node) : Node := .tree .range [start, stop] none

def structDef (name : String) (fields : List Node) : Node :=
  .tree .structDef [ident name, .tree .fields fields none] none

def callStruct (name : String) (pairs : List (Node × Node)) : Node :=
  .tree .callStruct (ident name :: pairs.map fun p => .tree .pair [p.1, p.2] none) none

def getAttr (name attr : String) : Node := .tree .getAttr [ident name, ident attr] none

def impl (struct method : String) (params : List Node) (body : Node) : Node :=
  .tree .impl [ident struct, ident method, .tree .params params none, body] none

def getFunc (receiver method : String) (args : List Node) : Node :=
  .tree .getFunc [ident receiver, ident method, .tree .args args none] none

def matching (subject : Node) (arms : List (Node × Node)) : Node :=
  .tree .matching (subject :: arms.map fun a => .tree .case [a.1, a.2] none) none

end Tern.Node
