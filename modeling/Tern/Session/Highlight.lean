import Tern.Syntax.Lexeme

/-!
# Highlighting

A draft is shown line by line, each line cut into fragments with a style. Every line is lexed
alone, and its lexemes are fragments. What they leave of the line is shown too: plainly before a
lexeme, and as an error after the last of them, for there lexing has failed.

A name right after a keyword that declares takes the style of what is declared, and a name right
before an opening parenthesis that of a function; blanks between do not matter.
-/

namespace Tern

inductive Style
  | plain | keyword | boolean | number | string | function | type | comment | error
  deriving Repr, DecidableEq

/-- The style in the terminal's terms. -/
def Style.attributes : Style → String
  | plain => ""
  | keyword => "bold ansicyan"
  | boolean => "ansicyan"
  | number => "ansimagenta"
  | string => "ansigreen"
  | function => "bold ansiyellow"
  | type => "bold ansiblue"
  | comment => "italic ansigray"
  | error => "bold ansired"

/-- A piece of a line. -/
structure Fragment where
  style : Style
  text : String
  deriving Repr, DecidableEq

/-! ## The style of a lexeme -/

/-- The style of a name that follows a token of this kind, if the kind decides it. -/
def TokenKind.declares? : TokenKind → Option Style
  | structWord | implWord => some .type
  | fnWord => some .function
  | _ => none

/-- The first lexeme that is no blank. -/
def nextKind? (ls : List Lexeme) : Option TokenKind :=
  (ls.find? (·.kind ≠ .blank)).map (·.kind)

/-- The style of a name between what stands before it and what follows. -/
def nameStyle (before : Option TokenKind) (after : List Lexeme) : Style :=
  match before.bind TokenKind.declares? with
  | some style => style
  | none => if nextKind? after = some .parenOpen then .function else .plain

/-- The style of a token that is no name. -/
def TokenKind.style : TokenKind → Style
  | letWord | fnWord | structWord | implWord | ifWord | elseWord | whileWord | forWord
  | inWord | matchWord => .keyword
  | trueWord | falseWord => .boolean
  | number => .number
  | string => .string
  | comment => .comment
  | _ => .plain

/-! ## Lines -/

/-- What is left of a line at the end, from an offset on. -/
def leftover (line : List Char) (offset : Nat) : List Fragment :=
  if offset < line.length then [⟨.error, String.ofList (line.drop offset)⟩] else []

/-- What is left of a line from an offset to the start of a lexeme. -/
def gap (line : List Char) (offset start : Nat) : List Fragment :=
  if offset < start then [⟨.plain, String.ofList ((line.take start).drop offset)⟩] else []

/-- The fragments of a line from an offset on, with its lexemes there, after a token of some
kind. -/
def paint (line : List Char) (before : Option TokenKind) (offset : Nat) :
    List Lexeme → List Fragment
  | [] => leftover line offset
  | l :: rest =>
    let style := if l.kind = .ident then nameStyle before rest else l.kind.style
    gap line offset l.start ++
      ⟨style, l.text⟩ :: paint line (if l.kind = .blank then before else some l.kind) l.stop rest

/-- The fragments of a line, at least one. -/
def highlightLine (line : String) : List Fragment :=
  if line = "" then [⟨.plain, ""⟩]
  else
    match paint line.toList none 0 (lex line).lexemes with
    | [] => [⟨.plain, line⟩]
    | fragments => fragments

/-- The fragments of each line of a text. -/
def highlight (text : String) : List (List Fragment) :=
  (text.splitOn "\n").map highlightLine

end Tern
