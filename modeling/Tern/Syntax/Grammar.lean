import Tern.Syntax.Node

/-!
# The grammar

A program's syntax as productions in Greibach form: every alternative of a nonterminal starts
with a token, once it has entered the rules that begin there, or is empty of tokens. Left
recursion is gone; an operator expression is a flat row of operands and operators, and
`Goal.chain` says which operators may come next, since a comparison and a range do not
associate.

Statements that end in a brace may stand without a semicolon after them, and so may the
conditionals, matches and blocks that are expressions as well. After one of these at the start
of a statement, `Goal.afterBraced` decides by the next token: an operator continues the
expression, anything else ends the statement.
-/

namespace Tern

/-- What becomes of the parts that a rule has read. -/
inductive Rule
  /-- A node with this label. -/
  | node (label : Label)
  /-- A conditional, labelled by whether there is an alternative. -/
  | conditional
  /-- A row of operands and operators. -/
  | expression
  /-- An expression in parentheses. -/
  | group
  /-- A method, not yet told which struct it belongs to. -/
  | method
  /-- A block of methods for one struct. -/
  | methods
  deriving Repr, DecidableEq

/-- What is still to be read. -/
inductive Goal
  /-- A token that becomes a part of the innermost rule. -/
  | keep (kind : TokenKind)
  /-- A token that leaves only its position behind. -/
  | drop (kind : TokenKind)
  /-- The start of a rule. -/
  | enter
  /-- The end of the innermost rule. -/
  | leave (rule : Rule)
  /-- Statements up to a closing brace or the end. -/
  | statements
  /-- What may follow a statement that ends in a brace. -/
  | afterItem
  /-- What may follow any other statement. -/
  | afterSimple
  /-- What may follow a conditional, match or block that starts a statement. -/
  | afterBraced
  | block
  /-- The rest of a conditional after its first block. -/
  | elsePart
  /-- A block or another conditional after `else`. -/
  | alternative
  | expression
  /-- An operand after an operator. -/
  | operand
  /-- Operators and operands that may follow an operand; a comparison and a range are open only
  until there has been one. -/
  | chain (compared ranged : Bool)
  /-- Parameters or fields: the list as a node of its own. -/
  | names (label : Label)
  /-- Names after a first one, or a comma at the end. -/
  | moreNames
  /-- A name after a comma, if there is one. -/
  | nextName
  /-- Arguments: the list as a node of its own. -/
  | arguments
  /-- Expressions after a first one. -/
  | moreItems
  /-- Expressions, or none. -/
  | items
  | pairs
  | morePairs
  | arms
  | moreArms
  | methods
  deriving Repr, DecidableEq

namespace Goal

open TokenKind

/-! ## Operands -/

/-- `if`, an expression, a block, and perhaps an alternative. -/
def conditional : List Goal :=
  [enter, drop ifWord, expression, block, elsePart, leave .conditional]

def matching : List Goal :=
  [enter, drop matchWord, expression, drop braceOpen, arms, drop braceClose,
    leave (.node .matching)]

def braced : List Goal :=
  [enter, drop braceOpen, statements, drop braceClose, leave (.node .block)]

/-- The operands that end in a brace and may be statements. -/
def bracedOperands : List (List Goal) := [conditional, matching, braced]

/-- All other operands. -/
def plainOperands : List (List Goal) :=
  [ [keep number],
    [keep string],
    [keep trueWord],
    [keep falseWord],
    [keep ident],
    [enter, keep ident, drop parenOpen, arguments, drop parenClose, leave (.node .call)],
    [enter, keep ident, drop dot, keep ident, drop parenOpen, arguments, drop parenClose,
      leave (.node .getFunc)],
    [enter, keep ident, drop dot, keep ident, leave (.node .getAttr)],
    [enter, keep ident, drop bracketOpen, expression, drop bracketClose, leave (.node .index)],
    [enter, keep ident, drop braceOpen, pairs, drop braceClose, leave (.node .callStruct)],
    [enter, drop bracketOpen, items, drop bracketClose, leave (.node .list)],
    [enter, drop parenOpen, expression, drop parenClose, leave .group] ]

def operands : List (List Goal) := plainOperands ++ bracedOperands

/-! ## Expressions -/

/-- The operators that may come next, each with what may come after it. -/
def operators (compared ranged : Bool) : List (TokenKind × Goal) :=
  [ (mulOp, chain compared ranged), (addOp, chain compared ranged) ]
  ++ (if ranged then [] else [(dots, chain compared true)])
  ++ (if compared then [] else [(compareOp, chain true false)])
  ++ [ (andOp, chain false false), (orOp, chain false false) ]

/-- At least one operator with its operand, and what follows. -/
def continued (compared ranged : Bool) (after : List Goal) : List (List Goal) :=
  (operators compared ranged).map fun (op, rest) => keep op :: operand :: rest :: after

/-- An expression that starts with one of the operands, and what follows. -/
def expressionFrom (starts : List (List Goal)) (after : List Goal) : List (List Goal) :=
  starts.map fun start => enter :: start ++ chain false false :: leave .expression :: after

/-! ## Statements -/

/-- Statements that end in a brace and are no expressions. -/
def closedItems : List (List Goal) :=
  [ [enter, drop fnWord, keep ident, drop parenOpen, names .params, drop parenClose, block,
      leave (.node .funDef), afterItem],
    [enter, drop structWord, keep ident, drop braceOpen, names .fields, drop braceClose,
      leave (.node .structDef), afterItem],
    [enter, drop implWord, keep ident, drop braceOpen, methods, drop braceClose,
      leave .methods, afterItem],
    [enter, drop whileWord, expression, block, leave (.node .whileLoop), afterItem],
    [enter, drop forWord, keep ident, drop inWord, expression, block, leave (.node .forLoop),
      afterItem] ]

/-- Statements that take a semicolon. -/
def simple : List (List Goal) :=
  [ [enter, drop letWord, keep ident, drop equal, expression, leave (.node .assign),
      afterSimple],
    [enter, keep ident, drop equal, expression, leave (.node .setVar), afterSimple],
    [enter, keep ident, keep inPlaceOp, expression, leave (.node .inPlace), afterSimple] ]
  ++ expressionFrom plainOperands [afterSimple]

/-- A statement, and what follows it. -/
def statement : List (List Goal) :=
  closedItems ++ simple ++ bracedOperands.map fun start => enter :: start ++ [afterBraced]

/-- The end of the statements, or a statement, or a semicolon before further ones. -/
def afterItemAlternatives : List (List Goal) :=
  [] :: [drop semicolon, statements] :: statement

/-! ## Productions -/

/-- The alternatives of a nonterminal. -/
def productions : Goal → List (List Goal)
  | keep _ | drop _ | enter | leave _ => []
  | statements => [] :: statement
  | afterItem => afterItemAlternatives
  | afterSimple => [[], [drop semicolon, statements]]
  | afterBraced =>
    afterItemAlternatives.map (leave .expression :: ·)
      ++ continued false false [leave .expression, afterSimple]
  | block => [braced]
  | elsePart => [[], [drop elseWord, alternative]]
  | alternative => [braced, conditional]
  | expression => expressionFrom operands []
  | operand => operands
  | chain compared ranged => [] :: continued compared ranged []
  | names label =>
    [[enter, leave (.node label)], [enter, keep ident, moreNames, leave (.node label)]]
  | moreNames => [[], [drop comma, nextName]]
  | nextName => [[], [keep ident, moreNames]]
  | arguments =>
    [enter, leave (.node .args)]
      :: (expressionFrom operands [moreItems, leave (.node .args)]).map (enter :: ·)
  | items => [] :: expressionFrom operands [moreItems]
  | moreItems => [[], [drop comma, items]]
  | pairs =>
    [[], [enter, keep ident, drop colon, expression, leave (.node .pair), morePairs]]
  | morePairs => [[], [drop comma, pairs]]
  | arms =>
    [] :: (expressionFrom operands
      [drop arrow, expression, leave (.node .case), moreArms]).map (enter :: ·)
  | moreArms => [[], [drop comma, arms]]
  | methods =>
    [[], [enter, drop fnWord, keep ident, drop parenOpen, names .params, drop parenClose, block,
      leave .method, methods]]

/-- A whole program. -/
def program : List Goal := [enter, statements, leave (.node .block)]

end Goal

end Tern
