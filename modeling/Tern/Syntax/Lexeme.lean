import Tern.Syntax.Token
import Tern.Text.Blank
import Tern.Text.Digit

/-!
# Lexemes

A text is cut into lexemes from left to right. Each terminal says how far it reaches from a
place, and the one that reaches furthest wins; an identifier that is spelled like a keyword
becomes that keyword. Blanks and comments are lexemes too, so the lexemes of a text follow each
other without gaps, up to its end or to the first place where no terminal reaches.
-/

namespace Tern

open Text

/-- A token of a text with its place: `start` counts characters from zero. -/
structure Lexeme where
  kind : TokenKind
  text : String
  pos : Pos
  start : Nat
  deriving Repr, DecidableEq

/-- The offset after the lexeme. -/
def Lexeme.stop (l : Lexeme) : Nat := l.start + l.text.length

/-! ## How far each terminal reaches

Zero means that the terminal does not match; none matches the empty text. -/

/-- The length of a fixed text. -/
def reachWord (word : List Char) (cs : List Char) : Nat :=
  if word.isPrefixOf cs then word.length else 0

/-- The length of a run of characters. -/
def reachRun (p : Char → Bool) (cs : List Char) : Nat := (cs.takeWhile p).length

/-- Digits, and a point with digits after it. -/
def reachNumber (cs : List Char) : Nat :=
  let whole := reachRun isDigit cs
  match cs.drop whole with
  | '.' :: rest =>
    let fraction := reachRun isDigit rest
    if whole = 0 ∨ fraction = 0 then whole else whole + 1 + fraction
  | _ => whole

/-- The length up to and with the closing quote; a backslash takes the next character with it,
which must not be a newline. -/
def reachClosing : List Char → Option Nat
  | [] => none
  | '"' :: _ => some 1
  | ['\\'] => none
  | '\\' :: c :: rest => if c = '\n' then none else (reachClosing rest).map (· + 2)
  | _ :: rest => (reachClosing rest).map (· + 1)

def reachString : List Char → Nat
  | '"' :: rest => ((reachClosing rest).map (· + 1)).getD 0
  | _ => 0

def isNameStart (c : Char) : Bool :=
  ('A' ≤ c && c ≤ 'Z') || ('a' ≤ c && c ≤ 'z') || c == '_'

def isNamePart (c : Char) : Bool := isNameStart c || isLatinDigit c

def reachName : List Char → Nat
  | c :: rest => if isNameStart c then 1 + reachRun isNamePart rest else 0
  | [] => 0

def reachComment : List Char → Nat
  | '#' :: rest => 1 + reachRun (· != '\n') rest
  | _ => 0

/-! ## Terminals -/

/-- The fixed texts, by kind. -/
def fixedTexts : List (TokenKind × List String) :=
  [ (.inPlaceOp, ["+=", "-=", "*=", "/="]),
    (.compareOp, ["==", "!=", "<=", ">=", "<", ">"]),
    (.addOp, ["+", "-"]),
    (.mulOp, ["*", "/", "%"]),
    (.andOp, ["&&"]), (.orOp, ["||"]),
    (.parenOpen, ["("]), (.parenClose, [")"]),
    (.bracketOpen, ["["]), (.bracketClose, ["]"]),
    (.braceOpen, ["\x7b"]), (.braceClose, ["\x7d"]),
    (.semicolon, [";"]), (.comma, [","]), (.dot, ["."]), (.colon, [":"]), (.equal, ["="]),
    (.arrow, ["=>"]), (.dots, [".."]) ]

/-- The reserved words. -/
def keywords : List (String × TokenKind) :=
  [ ("let", .letWord), ("fn", .fnWord), ("struct", .structWord), ("impl", .implWord),
    ("if", .ifWord), ("else", .elseWord), ("while", .whileWord), ("for", .forWord),
    ("in", .inWord), ("match", .matchWord), ("true", .trueWord), ("false", .falseWord) ]

/-- Every terminal with its reach. -/
def terminals : List (TokenKind × (List Char → Nat)) :=
  [ (.number, reachNumber), (.string, reachString), (.ident, reachName),
    (.comment, reachComment), (.blank, reachRun isBlank) ]
  ++ fixedTexts.flatMap fun (kind, texts) =>
      texts.map fun text => (kind, reachWord text.toList)

/-- The better of a match so far and a terminal's: the longer, and of equals the former. -/
def furthest (cs : List Char) (best : Option (TokenKind × Nat)) (kind : TokenKind)
    (reach : List Char → Nat) : Option (TokenKind × Nat) :=
  if (best.map (·.2)).getD 0 < reach cs then some (kind, reach cs) else best

/-- The kind and length of the longest match at the front of a text, if any. -/
def longestMatch? (cs : List Char) : Option (TokenKind × Nat) :=
  terminals.foldl (fun best (kind, reach) => furthest cs best kind reach) none

/-- A name that is spelled like a keyword is that keyword. -/
def reserve (kind : TokenKind) (text : String) : TokenKind :=
  if kind = .ident then (keywords.lookup text).getD .ident else kind

/-! ## Cutting a text -/

/-- The character where no terminal matches. -/
structure LexFailure where
  char : Char
  pos : Pos
  offset : Nat
  deriving Repr, DecidableEq

/-- The lexemes up to the end or to a failure. -/
structure Lexed where
  lexemes : List Lexeme
  failure? : Option LexFailure
  deriving Repr, DecidableEq

/-- Cuts `cs`, which stands at the given place; every lexeme takes at least one character, so
as many rounds as there are characters are enough. -/
def lexFrom : (rounds : Nat) → Pos → (offset : Nat) → List Char → Lexed
  | _, _, _, [] => ⟨[], none⟩
  | 0, _, _, _ => ⟨[], none⟩
  | rounds + 1, pos, offset, c :: rest =>
    match longestMatch? (c :: rest) with
    | none => ⟨[], some ⟨c, pos, offset⟩⟩
    | some (kind, n) =>
      let cs := (c :: rest).take n
      let text := String.ofList cs
      let later := lexFrom rounds (pos.after cs) (offset + n) ((c :: rest).drop n)
      { later with lexemes := ⟨reserve kind text, text, pos, offset⟩ :: later.lexemes }

/-- The lexemes of a text, blanks and comments included. -/
def lex (source : String) : Lexed :=
  lexFrom source.toList.length Pos.start 0 source.toList

end Tern
