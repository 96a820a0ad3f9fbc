import Tern.Syntax.Lexeme

/-!
# Drafts

The text that a user is typing at the prompt. A draft is submitted with Enter unless something in
it is still open: a bracket, or a string that has begun. Then Enter starts a new line, indented
by four columns for each open bracket and by four more in an open string. A draft that starts
with a slash is a command and is always submitted.

Only the lexemes of a draft are looked at, so brackets in strings and in comments do not count.
-/

namespace Tern

/-! ## What is open -/

/-- How much deeper the brackets nest after a token of this kind. -/
def TokenKind.nesting : TokenKind → Int
  | parenOpen | bracketOpen | braceOpen => 1
  | parenClose | bracketClose | braceClose => -1
  | _ => 0

/-- How many brackets some lexemes leave open; negative if they close more than they open. -/
def nesting : List Lexeme → Int
  | [] => 0
  | l :: rest => l.kind.nesting + nesting rest

/-- How many brackets a draft leaves open, an unfinished string counting as one. A text that goes
wrong in any other place leaves nothing open: it is for the parser to refuse. -/
def openDepth (draft : String) : Nat :=
  let lexed := lex draft
  let depth := (nesting lexed.lexemes).toNat
  match lexed.failure? with
  | none => depth
  | some f => if f.char = '"' then depth + 1 else 0

/-- Whether a draft is meant as a command. -/
def startsCommand (draft : String) : Bool :=
  (Text.trimStart draft.toList).head? = some '/'

/-! ## Keys -/

/-- The keys that have a meaning of their own. -/
inductive Key
  | enter | backspace
  deriving Repr, DecidableEq

/-- What a key does to a draft, whose end the cursor stands at. -/
inductive Edit
  | submit
  | insert (text : String)
  /-- Takes away the last character, if there is one. -/
  | deleteLast
  /-- Offers the commands that the draft may become. -/
  | complete
  deriving Repr, DecidableEq

/-- The columns of indentation for each open bracket. -/
def indentWidth : Nat := 4

def newLine (depth : Nat) : String :=
  String.ofList ('\n' :: List.replicate (indentWidth * depth) ' ')

def Edit.apply (draft : String) : Edit → String
  | insert text => draft ++ text
  | deleteLast => String.ofList draft.toList.dropLast
  | submit | complete => draft

/-- What a key does. -/
def Key.edits (key : Key) (draft : String) : List Edit :=
  match key with
  | enter =>
    if startsCommand draft ∨ openDepth draft = 0 then [.submit]
    else [.insert (newLine (openDepth draft))]
  | backspace =>
    if draft.toList.dropLast.head? = some '/' then [.deleteLast, .complete] else [.deleteLast]

/-- The draft after a key. -/
def Key.press (key : Key) (draft : String) : String :=
  (key.edits draft).foldl Edit.apply draft

/-! ## Clean text -/

/-- Characters that a user does not see and that copied text may bring along. -/
def isInvisible (c : Char) : Bool :=
  c ∈ ['\u200b', '\u200c', '\u200d', '\ufeff', '\u00a0', '\r']

/-- A submitted text without its invisible characters. -/
def clean (text : String) : String :=
  String.ofList (text.toList.filter (!isInvisible ·))

end Tern
