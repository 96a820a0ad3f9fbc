import Tern.Syntax.Token
import Tern.Text.Inspect
import Tern.Text.Sigma

/-!
# Expression trees

What the evaluator consumes: trees of labelled nodes over tokens. The parser builds only trees
of fixed shapes, but any tree can be evaluated, so labels and token kinds are open and a stray
datum may stand where a node should. A node's position is its own, or for a tree without one
the first found in its children.
-/

namespace Tern

/-- The labels of tree nodes. -/
inductive Label
  | empty | block | binop | ifThen | ifThenElse | assign | setVar | inPlace
  | whileLoop | forLoop | funDef | call | list | index | range
  | structDef | callStruct | getAttr | impl | getFunc | matching
  | params | args | fields | pair | case
  | other (name : String)
  deriving Repr, DecidableEq

namespace Label

/-- Every label with a meaning of its own. -/
def known : List Label :=
  [empty, block, binop, ifThen, ifThenElse, assign, setVar, inPlace, whileLoop, forLoop, funDef,
    call, list, index, range, structDef, callStruct, getAttr, impl, getFunc, matching, params,
    args, fields, pair, case]

def name : Label → String
  | empty => "empty" | block => "block" | binop => "binop" | ifThen => "ifthen"
  | ifThenElse => "ifthenelse" | assign => "assign" | setVar => "setvar" | inPlace => "iop"
  | whileLoop => "while" | forLoop => "for" | funDef => "fundef" | call => "call"
  | list => "list" | index => "index" | range => "range" | structDef => "structdef"
  | callStruct => "callstruct" | getAttr => "getattr" | impl => "impl" | getFunc => "getfunc"
  | matching => "match" | params => "params" | args => "args" | fields => "fields"
  | pair => "pair" | case => "case"
  | other name => name

def ofName (name : String) : Label :=
  (known.find? (·.name == name)).getD (other name)

theorem ofName_name {l : Label} (h : l ∈ known) : ofName l.name = l := by
  revert h
  revert l
  decide +kernel

end Label

/-- What may stand in a tree's place without being a node. -/
inductive Stray
  | text (s : String) | whole (i : Int) | truth (b : Bool) | absent
  deriving Repr, DecidableEq

/-- A stray datum as diagnostics show it. -/
def Stray.inspect : Stray → String
  | text s => Text.inspect s
  | whole i => toString i
  | truth b => if b then "True" else "False"
  | absent => "None"

inductive Node
  | tree (label : Label) (children : List Node) (pos : Option Pos)
  | token (kind : TokenKind) (text : String) (pos : Option Pos)
  | stray (datum : Stray)
  deriving Repr

namespace Node

/-! ## Views -/

def label? : Node → Option Label
  | tree l _ _ => some l
  | _ => none

/-- The children of a tree; other nodes have none. -/
def children : Node → List Node
  | tree _ cs _ => cs
  | _ => []

/-- The name of an identifier token. -/
def identName? : Node → Option String
  | token .ident text _ => some text
  | _ => none

/-- What a node is, in diagnostics: a tree's label, or a token's kind in lower case. -/
def kindName : Node → String
  | tree l _ _ => l.name
  | token k _ _ => Text.lowerInContext k.name
  | stray _ => "unknown"

mutual

/-- The position of a node: its own, else the first among its children, depth first. -/
def position? : Node → Option Pos
  | tree _ _ (some p) => some p
  | tree _ cs none => firstPosition? cs
  | token _ _ pos => pos
  | stray _ => none

/-- The position of the first node that has one. -/
def firstPosition? : List Node → Option Pos
  | [] => none
  | n :: rest => (position? n).or (firstPosition? rest)

end

/-! ## Nodes in diagnostics -/

mutual

/-- A node as diagnostics show it. -/
def inspect : Node → String
  | tree l cs _ => "Tree(" ++ Text.inspect l.name ++ ", [" ++ inspectAll cs ++ "])"
  | token k text _ => "Token(" ++ Text.inspect k.name ++ ", " ++ Text.inspect text ++ ")"
  | stray d => d.inspect

/-- Nodes as diagnostics show them, with commas between. -/
def inspectAll : List Node → String
  | [] => ""
  | [n] => inspect n
  | n :: rest => inspect n ++ ", " ++ inspectAll rest

end

/-- The text of a node in an operator's place: a token's, or a stray text itself. -/
def operatorText : Node → String
  | token _ text _ => text
  | stray (.text s) => s
  | n => n.inspect

end Node

end Tern
