import Tern.Number.Notation
import Tern.Value

/-!
# Failures

Why an evaluation ends without a value. A *runtime error* is the program's own: it has a cause
and, once a node with a position has been left, the position of the innermost such node. Only
runtime errors can be discarded on the way, by the arguments of builtins and by the patterns of
legacy matches. The other failures are the host's and always end the evaluation.
-/

namespace Tern

/-! ## Runtime errors -/

/-- What two operands could not be made to do. -/
inductive Combining
  | add | subtract | multiply | divide | modulo | compare
  deriving Repr, DecidableEq

def Combining.verb : Combining → String
  | add => "add"
  | subtract => "subtract"
  | multiply => "multiply"
  | divide => "divide"
  | modulo => "take the modulo of"
  | compare => "compare"

inductive Cause
  | variableNotFound (name : String)
  | variableDefined (name : String)
  | typeMismatch (expected found : String)
  | cannotCombine (how : Combining) (left right : String)
  | functionNotFound (name : String)
  | structNotFound (name : String)
  | attributeNotFound (name : String)
  | indexOutOfBounds (index name : String)
  | isBuiltin (name : String)
  | arity (name : String) (expected found : Nat)
  /-- Something that is no node; its text in diagnostics. -/
  | notExpression (shown : String)
  | unknownNode (label : String)
  | unhandledToken (kind text : String)
  | unknownOperator (op : String)
  | unknownInPlace (op : String)
  | malformedArm (shown : String)
  deriving Repr, DecidableEq

def Cause.message : Cause → String
  | variableNotFound name => "Variable '" ++ name ++ "' not found"
  | variableDefined name => "Variable '" ++ name ++ "' is already defined"
  | typeMismatch expected found => "Type mismatch: expected " ++ expected ++ ", found " ++ found
  | cannotCombine how left right => "Cannot " ++ how.verb ++ " " ++ left ++ " and " ++ right
  | functionNotFound name => "Function '" ++ name ++ "' not found"
  | structNotFound name => "Struct '" ++ name ++ "' not found"
  | attributeNotFound name => "Attribute '" ++ name ++ "' not found"
  | indexOutOfBounds index name => "Index " ++ index ++ " out of bounds for '" ++ name ++ "'"
  | isBuiltin name => "'" ++ name ++ "' is a builtin function and cannot be redefined"
  | arity name expected found =>
    "Function '" ++ name ++ "' expects " ++ toString expected ++ " argument(s); got "
      ++ toString found
  | notExpression shown => "Not an expression node: " ++ shown
  | unknownNode label => "Unknown node: " ++ label
  | unhandledToken kind text => "Unhandled token " ++ kind ++ ":" ++ text
  | unknownOperator op => "Unknown operator " ++ Text.inspect op
  | unknownInPlace op => "Unknown in-place operator " ++ Text.inspect op
  | malformedArm shown => "Malformed match arm: " ++ shown

/-- A runtime error. -/
structure RuntimeError where
  cause : Cause
  pos : Option Pos := none
  deriving Repr, DecidableEq

/-- The message of the cause, with the position when there is one. -/
def RuntimeError.message (e : RuntimeError) : String :=
  match e.pos with
  | none => e.cause.message
  | some p =>
    e.cause.message ++ " (line " ++ toString p.line ++ ", col " ++ toString p.column ++ ")"

/-- The error with a position, unless it has one already. -/
def RuntimeError.at (e : RuntimeError) (pos : Option Pos) : RuntimeError :=
  { e with pos := e.pos.or pos }

/-! ## All failures -/

inductive Failure
  | raised (e : RuntimeError)
  /-- A value of this type was to be printed. -/
  | undisplayable (type : ValueType)
  /-- A node has the wrong number of children. -/
  | misshapen
  /-- A number token's text is no numeral. -/
  | notNumeral (text : String)
  /-- A builtin that is not there was called directly. -/
  | noBuiltin (name : String)
  /-- A range was to give a number that is beyond the finite doubles. -/
  | beyondDoubles (i : Int)
  /-- An integer was to be written that has too many digits. -/
  | unwritable (i : Int)
  /-- Evaluation nests too deep. -/
  | tooDeep
  /-- A loop has run for more turns than are allowed. -/
  | tooLong
  deriving Repr, DecidableEq

/-- The text of a printing that is not possible. -/
def ValueType.undisplayable (t : ValueType) : String :=
  "display is not implemented for " ++ t.text

end Tern
