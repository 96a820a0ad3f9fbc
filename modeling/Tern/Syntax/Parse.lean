import Tern.Syntax.Grammar
import Tern.Syntax.Lexeme

/-!
# Parsing

All readings of a program are followed side by side, token by token. A *reading* is what is
still to be read together with the rules that have been entered and what they have read. Most
tokens leave one reading; an identifier before a brace leaves two where the brace may open a
construction or a block. A token that no reading can take is unexpected: every goal can be
reached by some further tokens, so the ones before it start some program and it does not
continue any.

A node's position is the *outer* position of the first part of its rule. A dropped token's
outer position is its own, and a tree's is its node's position, unless it stands in parentheses:
then it is the outermost opening one.
-/

namespace Tern

/-! ## Parts and rules -/

/-- A node in a rule, with the position that a rule takes from it when it comes first. -/
structure Part where
  node : Node
  outer : Option Pos
  deriving Repr

/-- A rule that has been entered: the position of its first part, and its parts, the latest
first. -/
structure Frame where
  start : Option Pos
  parts : List Part
  deriving Repr

def Frame.empty : Frame := ⟨none, []⟩

/-- Two operands joined by an operator. -/
def Part.join (left op right : Part) : Part :=
  match op.node with
  | .token .dots _ _ => ⟨.tree .range [left.node, right.node] left.outer, left.outer⟩
  | _ => ⟨.tree .binop [left.node, op.node, right.node] left.outer, left.outer⟩

def Part.isOperator (p : Part) (kind : TokenKind) : Bool :=
  match p.node with
  | .token k _ _ => k == kind
  | _ => false

/-- The operators from the tightest level to the loosest. -/
def operatorLevels : List TokenKind := [.mulOp, .addOp, .dots, .compareOp, .andOp, .orOp]

/-- Joins the operands of one level, from the left. -/
def joinLevel (level : TokenKind) (left : Part) :
    List (Part × Part) → Part × List (Part × Part)
  | [] => (left, [])
  | (op, right) :: rest =>
    if op.isOperator level then joinLevel level (left.join op right) rest
    else
      let (operand, later) := joinLevel level right rest
      (left, (op, operand) :: later)

/-- Pairs each operator with the operand after it. -/
def pairOperators : List Part → List (Part × Part)
  | op :: operand :: rest => (op, operand) :: pairOperators rest
  | _ => []

/-- The tree of a row of operands and operators. -/
def joinExpression (first : Part) (rest : List (Part × Part)) : Part :=
  (operatorLevels.foldl (fun row level => joinLevel level row.1 row.2) (first, rest)).1

/-- A method of the given struct. -/
def ofStruct (struct : Node) : Node → Node
  | .tree label cs pos => .tree label (struct :: cs) pos
  | n => n

/-- What a rule makes of its parts. -/
def Rule.build (start : Option Pos) (parts : List Part) : Rule → Part
  | .node label => ⟨.tree label (parts.map (·.node)) start, start⟩
  | .conditional =>
    let label := if parts.length = 3 then Label.ifThenElse else Label.ifThen
    ⟨.tree label (parts.map (·.node)) start, start⟩
  | .expression =>
    match parts with
    | first :: rest => joinExpression first (pairOperators rest)
    | [] => ⟨.tree .empty [] start, start⟩
  | .group =>
    match parts with
    | ⟨.tree label cs pos, _⟩ :: _ => ⟨.tree label cs pos, start⟩
    | part :: _ => part
    | [] => ⟨.tree .empty [] start, start⟩
  | .method => ⟨.tree .impl (parts.map (·.node)) start, start⟩
  | .methods =>
    match parts with
    | struct :: bodies =>
      ⟨.tree .block (bodies.map fun m => ofStruct struct.node m.node) start, start⟩
    | [] => ⟨.tree .block [] start, start⟩

/-- Adds a part to the innermost rule. -/
def addPart (part : Part) : List Frame → List Frame
  | [] => []
  | f :: fs => ⟨f.start.or part.outer, part :: f.parts⟩ :: fs

/-- Notes the position of a dropped token in the innermost rule. -/
def addPos (pos : Pos) : List Frame → List Frame
  | [] => []
  | f :: fs => ⟨f.start.or (some pos), f.parts⟩ :: fs

/-- Ends the innermost rule. -/
def leaveFrame (rule : Rule) : List Frame → List Frame
  | [] => []
  | f :: fs => addPart (rule.build f.start f.parts.reverse) fs

/-! ## Readings -/

structure Reading where
  goals : List Goal
  frames : List Frame
  deriving Repr

/-- Enters and leaves the rules that begin and end before the next token. -/
def settle : List Goal → List Frame → List Goal × List Frame
  | .enter :: gs, fs => settle gs (.empty :: fs)
  | .leave rule :: gs, fs => settle gs (leaveFrame rule fs)
  | gs, fs => (gs, fs)

/-- The readings whose next goal is a token, or that have come to the end. -/
def advance : List Goal → List Frame → List Reading
  | [], fs => [⟨[], fs⟩]
  | .enter :: gs, fs => advance gs (.empty :: fs)
  | .leave rule :: gs, fs => advance gs (leaveFrame rule fs)
  | .keep k :: gs, fs => [⟨.keep k :: gs, fs⟩]
  | .drop k :: gs, fs => [⟨.drop k :: gs, fs⟩]
  | g :: gs, fs =>
    g.productions.flatMap fun production =>
      match settle production fs with
      | ([], fs') => advance gs fs'
      | (goals, fs') => [⟨goals ++ gs, fs'⟩]

/-- The reading after a token, if the token is what it waits for. -/
def Reading.take? (r : Reading) (t : Lexeme) : Option Reading :=
  match r.goals with
  | .keep k :: gs =>
    if k = t.kind then some ⟨gs, addPart ⟨.token t.kind t.text t.pos, t.pos⟩ r.frames⟩ else none
  | .drop k :: gs => if k = t.kind then some ⟨gs, addPos t.pos r.frames⟩ else none
  | _ => none

/-- Keeps one reading of those with the same goals, which have the same future. -/
def mergeReadings : List Reading → List Reading
  | [] => []
  | r :: rest => r :: (mergeReadings rest).filter (·.goals ≠ r.goals)

/-- All readings after a token. -/
def takeToken (readings : List Reading) (t : Lexeme) : List Reading :=
  (mergeReadings (readings.filterMap (·.take? t))).flatMap fun r => advance r.goals r.frames

/-- All readings before the first token. -/
def firstReadings : List Reading := advance Goal.program [.empty]

/-- The tree of a reading that has come to the end. -/
def Reading.tree? (r : Reading) : Option Node :=
  match r.goals, r.frames with
  | [], ⟨_, part :: _⟩ :: _ => some part.node
  | _, _ => none

/-! ## Programs -/

/-- Why a text is no program. -/
inductive SyntaxError
  /-- The first token that no program has at its place. -/
  | unexpectedToken (kind : TokenKind) (text : String) (pos : Pos)
  /-- A character that starts no token, after tokens that start some program. -/
  | unexpectedCharacter (char : Char) (pos : Pos)
  /-- The end, where every program goes on. -/
  | unexpectedEnd
  deriving Repr, DecidableEq

/-- The readings after all tokens, or the first token that leaves none. -/
def readTokens : List Reading → List Lexeme → Except SyntaxError (List Reading)
  | readings, [] => .ok readings
  | readings, t :: rest =>
    match takeToken readings t with
    | [] => .error (.unexpectedToken t.kind t.text t.pos)
    | later => readTokens later rest

/-- The tree of a text that has been cut into lexemes. Tokens are read before the character
that ended the cutting is complained about. -/
def parseLexed (lexed : Lexed) : Except SyntaxError Node := do
  let readings ← readTokens firstReadings (lexed.lexemes.filter (!·.kind.isIgnored))
  match lexed.failure? with
  | some f => .error (.unexpectedCharacter f.char f.pos)
  | none =>
    match readings.findSome? Reading.tree? with
    | some tree => .ok tree
    | none => .error .unexpectedEnd

/-- The tree of a program. -/
def parse (source : String) : Except SyntaxError Node := parseLexed (lex source)

/-- The first line of a syntax error's text. -/
def SyntaxError.message : SyntaxError → String
  | unexpectedToken kind text pos =>
    "Unexpected token " ++ (Node.token kind text none).inspect ++ " at line "
      ++ toString pos.line ++ ", column " ++ toString pos.column ++ "."
  | unexpectedCharacter c pos =>
    "No terminal matches '" ++ String.singleton c ++ "' in the current parser context, at line "
      ++ toString pos.line ++ " col " ++ toString pos.column
  | unexpectedEnd => "Unexpected end-of-input. Expected one of: "

end Tern
