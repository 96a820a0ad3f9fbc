/-!
# Tokens

The kinds of token, their names in diagnostics, and the positions they are found at. A token
carries its text; a program's tokens come from the lexer, but trees may also be built by hand
with kinds that the lexer never produces, which is what `TokenKind.other` is for.
-/

namespace Tern

/-- A line and a column, both counted from one. -/
structure Pos where
  line : Nat
  column : Nat
  deriving Repr, DecidableEq

/-- The start of every text. -/
def Pos.start : Pos := ⟨1, 1⟩

/-- The position after one more character. Only a newline starts a line. -/
def Pos.next (p : Pos) (c : Char) : Pos :=
  if c = '\n' then ⟨p.line + 1, 1⟩ else ⟨p.line, p.column + 1⟩

/-- The position after some text. -/
def Pos.after (p : Pos) (cs : List Char) : Pos := cs.foldl Pos.next p

inductive TokenKind
  | number | string | ident
  | inPlaceOp | compareOp | addOp | mulOp | andOp | orOp
  | trueWord | falseWord | letWord | fnWord | structWord | implWord | ifWord | elseWord
  | whileWord | forWord | inWord | matchWord
  | parenOpen | parenClose | bracketOpen | bracketClose | braceOpen | braceClose
  | semicolon | comma | dot | colon | equal | arrow | dots
  | comment | blank
  | other (name : String)
  deriving Repr, DecidableEq

namespace TokenKind

/-- Every kind that the lexer produces. -/
def known : List TokenKind :=
  [number, string, ident, inPlaceOp, compareOp, addOp, mulOp, andOp, orOp, trueWord, falseWord,
    letWord, fnWord, structWord, implWord, ifWord, elseWord, whileWord, forWord, inWord,
    matchWord, parenOpen, parenClose, bracketOpen, bracketClose, braceOpen, braceClose,
    semicolon, comma, dot, colon, equal, arrow, dots, comment, blank]

/-- The name of a kind in diagnostics. -/
def name : TokenKind → String
  | number => "NUMBER" | string => "STRING" | ident => "IDENT"
  | inPlaceOp => "IOP" | compareOp => "CMP_OP" | addOp => "ADD_OP" | mulOp => "MUL_OP"
  | andOp => "AND" | orOp => "OR"
  | trueWord => "TRUE" | falseWord => "FALSE" | letWord => "LET" | fnWord => "FN"
  | structWord => "STRUCT" | implWord => "IMPL" | ifWord => "IF" | elseWord => "ELSE"
  | whileWord => "WHILE" | forWord => "FOR" | inWord => "IN" | matchWord => "MATCH"
  | parenOpen => "LPAR" | parenClose => "RPAR" | bracketOpen => "LSQB" | bracketClose => "RSQB"
  | braceOpen => "LBRACE" | braceClose => "RBRACE"
  | semicolon => "SEMICOLON" | comma => "COMMA" | dot => "DOT" | colon => "COLON"
  | equal => "EQUAL" | arrow => "__ANON_0" | dots => "__ANON_1"
  | comment => "COMMENT" | blank => "WS"
  | other name => name

/-- The kind of that name. -/
def ofName (name : String) : TokenKind :=
  (known.find? (·.name == name)).getD (other name)

/-- Blanks and comments, which no rule of the grammar mentions. -/
def isIgnored : TokenKind → Bool
  | comment | blank => true
  | _ => false

theorem ofName_name {k : TokenKind} (h : k ∈ known) : ofName k.name = k := by
  revert h
  revert k
  decide +kernel

end TokenKind

end Tern
