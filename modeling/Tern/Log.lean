import Tern.Config
import Tern.Failure

/-!
# The log

What the interpreter records as it works: an event, with the part of the interpreter that it
belongs to and its level. Events keep their data; the text of a record is made from them.
-/

namespace Tern

/-- The parts of the interpreter that keep a log. -/
inductive Topic
  | program | calls | functions | objects | matches
  deriving Repr, DecidableEq

inductive Level
  | debug | info
  deriving Repr, DecidableEq

namespace Level

def name : Level → String
  | debug => "DEBUG"
  | info => "INFO"

def rank : Level → Nat
  | debug => 10
  | info => 20

end Level

inductive Event
  /-- A source has been loaded, from standard input or from the command line. -/
  | loaded (fromStdin : Bool)
  | started (chars : Nat)
  | finished
  | parseFailed
  | runtimeFailed
  | hostFailed
  /-- An argument of a builtin failed and counts as nothing. -/
  | argumentDropped (builtin : String) (e : RuntimeError)
  | called (name : String) (params : List String)
  | calledMethod (struct method : String) (binding : MethodArgs)
  | functionDefined (name : String) (params : List String)
  | structDefined (name : String) (fields : List String)
  | methodDefined (struct method : String) (params : List String)
  | legacyMatch (arms : Nat)
  /-- A pattern of a legacy match failed, which means nothing. -/
  | patternDropped (e : RuntimeError)
  | armSelected (index : Nat)
  deriving Repr, DecidableEq

namespace Event

def topic : Event → Topic
  | loaded _ | started _ | finished | parseFailed | runtimeFailed | hostFailed => .program
  | argumentDropped _ _ | called _ _ | calledMethod _ _ _ => .calls
  | functionDefined _ _ => .functions
  | structDefined _ _ | methodDefined _ _ _ => .objects
  | legacyMatch _ | patternDropped _ | armSelected _ => .matches

def level : Event → Level
  | loaded _ | started _ | finished => .info
  | _ => .debug

/-- A name with parameters in parentheses. -/
def signature (name : String) (params : List String) : String :=
  name ++ "(" ++ ", ".intercalate params ++ ")"

def message : Event → String
  | loaded fromStdin => "loaded source from " ++ if fromStdin then "stdin" else "argument"
  | started chars => "program start: " ++ toString chars ++ " chars"
  | finished => "program finished"
  | parseFailed => "parse failed"
  | runtimeFailed => "runtime error"
  | hostFailed => "host error"
  | argumentDropped builtin e =>
    "builtin " ++ builtin ++ ": argument replaced with None (" ++ e.message ++ ")"
  | called name params => "call " ++ signature name params
  | calledMethod struct method binding =>
    "call " ++ struct ++ "." ++ method ++ " via " ++ binding.name ++ " binding"
  | functionDefined name params => "defined function " ++ signature name params
  | structDefined name fields =>
    "defined struct " ++ name ++ " \x7b " ++ ", ".intercalate fields ++ " \x7d"
  | methodDefined struct method params =>
    "impl " ++ struct ++ "." ++ signature method params
  | legacyMatch arms => "match: legacy mode over " ++ toString arms ++ " arms"
  | patternDropped e => "match: pattern error discarded: " ++ e.message
  | armSelected index => "match: arm " ++ toString index ++ " selected"

/-- Whether a configuration keeps the event. -/
def kept (c : Config) (e : Event) : Bool := c.logRank ≤ e.level.rank

end Event

end Tern
