import Tern.Text.Blank
import Tern.Text.Case
import Tern.Text.Inspect

/-!
# Configuration

The switches of the interpreter. Each defaults to the older behaviour of the language. A
configuration comes from settings that a host passes, or from environment variables, whose
values are read without regard to case and to blanks around them.
-/

namespace Tern

/-- How a match runs its arms. -/
inductive MatchMode
  /-- Every arm runs, and the last one's value counts. -/
  | legacy
  /-- The first arm whose pattern equals the subject runs. -/
  | first
  deriving Repr, DecidableEq

/-- What the arguments of a method call are bound to. -/
inductive MethodArgs
  /-- The fields of the struct, in order. -/
  | fields
  /-- The parameters of the method. -/
  | params
  deriving Repr, DecidableEq

namespace MatchMode

def name : MatchMode → String
  | legacy => "legacy"
  | first => "first"

def all : List MatchMode := [legacy, first]

end MatchMode

namespace MethodArgs

def name : MethodArgs → String
  | fields => "fields"
  | params => "params"

def all : List MethodArgs := [fields, params]

end MethodArgs

structure Config where
  /-- Whether a body sees the environment that its function or match stands in. -/
  lexicalScope : Bool := false
  matchMode : MatchMode := .legacy
  methodArgs : MethodArgs := .fields
  /-- Whether a loop condition that is no truth value is an error rather than the end. -/
  strictWhile : Bool := false
  logLevel : String := "WARNING"
  deriving Repr, DecidableEq

/-! ## What can be wrong -/

inductive ConfigError
  | notBoolean (var raw : String)
  | notOneOf (var : String) (choices : List String) (raw : String)
  | unknownLevel (level : String)
  /-- A setting that takes one of a few words. -/
  | badSetting (setting : String) (choices : List String)
  deriving Repr, DecidableEq

def ConfigError.message : ConfigError → String
  | notBoolean var raw => var ++ " must be a boolean, got " ++ Text.inspect raw
  | notOneOf var choices raw =>
    var ++ " must be one of " ++ ", ".intercalate choices ++ "; got " ++ Text.inspect raw
  | unknownLevel level => "TERN_LOG_LEVEL is not a logging level: " ++ Text.inspect level
  | badSetting setting choices => setting ++ " must be one of " ++ ", ".intercalate choices

/-! ## Levels of the log -/

/-- The known levels with their rank. -/
def logLevels : List (String × Nat) :=
  [("CRITICAL", 50), ("FATAL", 50), ("ERROR", 40), ("WARN", 30), ("WARNING", 30), ("INFO", 20),
    ("DEBUG", 10), ("NOTSET", 0)]

/-- The rank from which on records are kept. -/
def Config.logRank (c : Config) : Nat := (logLevels.lookup c.logLevel).getD 30

/-! ## From settings -/

/-- Settings as a host gives them; what is missing takes its default. -/
structure Settings where
  lexicalScope : Option Bool := none
  matchMode : Option String := none
  methodArgs : Option String := none
  strictWhile : Option Bool := none
  logLevel : Option String := none
  deriving Repr

/-- The choice of that name, or the default when there is no name. -/
def Settings.choose {α : Type} (setting : String) (choices : List α) (nameOf : α → String)
    (default : α) : Option String → Except ConfigError α
  | none => .ok default
  | some word =>
    match choices.find? (nameOf · == word) with
    | some choice => .ok choice
    | none => .error (.badSetting setting (choices.map nameOf))

def Config.ofSettings (s : Settings) : Except ConfigError Config := do
  let matchMode ← Settings.choose "match_mode" MatchMode.all MatchMode.name .legacy s.matchMode
  let methodArgs ←
    Settings.choose "method_args" MethodArgs.all MethodArgs.name .fields s.methodArgs
  return {
    lexicalScope := s.lexicalScope.getD false
    matchMode, methodArgs
    strictWhile := s.strictWhile.getD false
    logLevel := s.logLevel.getD "WARNING" }

/-! ## From environment variables -/

/-- Environment variables by name. -/
abbrev Environ := List (String × String)

def trueWords : List String := ["1", "true", "yes", "on"]

def falseWords : List String := ["0", "false", "no", "off"]

/-- A value in lower case and without blanks around it; nothing if it is blank or missing. -/
def Environ.word? (env : Environ) (var : String) : Option (String × String) :=
  match env.lookup var with
  | none => none
  | some raw => if Text.trim raw = "" then none else some (raw, Text.lower (Text.trim raw))

/-- A truth value from a variable. -/
def Environ.boolean (env : Environ) (var : String) (default : Bool) :
    Except ConfigError Bool :=
  match env.word? var with
  | none => .ok default
  | some (raw, word) =>
    if word ∈ trueWords then .ok true
    else if word ∈ falseWords then .ok false
    else .error (.notBoolean var raw)

/-- One of a few words from a variable. -/
def Environ.choice {α : Type} (env : Environ) (var : String) (choices : List α)
    (nameOf : α → String) (default : α) : Except ConfigError α :=
  match env.word? var with
  | none => .ok default
  | some (raw, word) =>
    match choices.find? (nameOf · == word) with
    | some choice => .ok choice
    | none => .error (.notOneOf var (choices.map nameOf) raw)

/-- The level of the log; only an empty value counts as a missing one. -/
def Environ.level (env : Environ) : Except ConfigError String :=
  let raw := (env.lookup "TERN_LOG_LEVEL").getD ""
  let level := Text.upper (Text.trim (if raw = "" then "WARNING" else raw))
  if (logLevels.lookup level).isSome then .ok level else .error (.unknownLevel level)

def Config.ofEnviron (env : Environ) : Except ConfigError Config := do
  let logLevel ← env.level
  let lexicalScope ← env.boolean "TERN_LEXICAL_SCOPE" false
  let matchMode ← env.choice "TERN_MATCH_MODE" MatchMode.all MatchMode.name .legacy
  let methodArgs ← env.choice "TERN_METHOD_ARGS" MethodArgs.all MethodArgs.name .fields
  let strictWhile ← env.boolean "TERN_STRICT_WHILE" false
  return { lexicalScope, matchMode, methodArgs, strictWhile, logLevel }

/-- Whether error reports are to carry a trace of the host, as a variable's value says. -/
def traceEnabled (value : Option String) : Bool :=
  Text.lower (Text.trim (value.getD "")) ∈ trueWords

end Tern
