import Tern.Failure
import Tern.Number.Arithmetic

/-!
# Operators

What the binary operators do to values. Arithmetic and order take two numbers, equality two
numbers, two strings or two truth values, and the connectives two truth values; both operands
have been evaluated in every case. Anything else is an error that shows both operands, as far as
they can be written.
-/

namespace Tern

inductive Arith
  | add | sub | mul | div | mod
  deriving Repr, DecidableEq

inductive Order
  | lt | gt | le | ge
  deriving Repr, DecidableEq

inductive Operator
  | arith (op : Arith)
  | equal
  | unequal
  | order (op : Order)
  | both
  | either
  deriving Repr, DecidableEq

namespace Arith

def apply : Arith → Float → Float → Float
  | add, a, b => a + b
  | sub, a, b => a - b
  | mul, a, b => a * b
  | div, a, b => Number.quotient a b
  | mod, a, b => Number.remainder a b

def combining : Arith → Combining
  | add => .add
  | sub => .subtract
  | mul => .multiply
  | div => .divide
  | mod => .modulo

/-- The operation of an update in place; remainders have none. -/
def ofInPlace? : String → Option Arith
  | "+=" => some add
  | "-=" => some sub
  | "*=" => some mul
  | "/=" => some div
  | _ => none

end Arith

/-- Order of numbers; what is not a number has no place in it. -/
def Order.holds : Order → Float → Float → Bool
  | lt, a, b => a < b
  | gt, a, b => b < a
  | le, a, b => a ≤ b
  | ge, a, b => b ≤ a

namespace Operator

/-- The operator of that text; the connectives have a word each beside their sign. -/
def ofText? : String → Option Operator
  | "+" => some (arith .add)
  | "-" => some (arith .sub)
  | "*" => some (arith .mul)
  | "/" => some (arith .div)
  | "%" => some (arith .mod)
  | "==" => some equal
  | "!=" => some unequal
  | "<" => some (order .lt)
  | ">" => some (order .gt)
  | "<=" => some (order .le)
  | ">=" => some (order .ge)
  | "&&" => some both
  | "||" => some either
  | "and" => some both
  | "or" => some either
  | _ => none

/-- How an error speaks of the operator. -/
def combining : Operator → Combining
  | arith op => op.combining
  | _ => .compare

/-- Whether two values of one simple type are equal; other pairs cannot be compared. -/
def equals? : Value → Value → Option Bool
  | .number a, .number b => some (a == b)
  | .string a, .string b => some (a == b)
  | .bool a, .bool b => some (a == b)
  | _, _ => none

/-- The value of an operation, if the operands are of its types. -/
def value? : Operator → Value → Value → Option Value
  | arith op, .number a, .number b => some (.number (op.apply a b))
  | equal, a, b => (equals? a b).map .bool
  | unequal, a, b => (equals? a b).map fun same => .bool !same
  | order op, .number a, .number b => some (.bool (op.holds a b))
  | both, .bool a, .bool b => some (.bool (a && b))
  | either, .bool a, .bool b => some (.bool (a || b))
  | _, _, _ => none

/-- The failure of an operation on operands that are not of its types. -/
def refusal (op : Operator) (a b : Value) : Failure :=
  match a.operandText with
  | .error i => .unwritable i
  | .ok left =>
    match b.operandText with
    | .error i => .unwritable i
    | .ok right => .raised ⟨.cannotCombine op.combining left right, none⟩

def apply (op : Operator) (a b : Value) : Except Failure Value :=
  match op.value? a b with
  | some v => .ok v
  | none => .error (op.refusal a b)

end Operator

/-- The value of an operation that is given by its text. -/
def applyOperator (op : String) (a b : Value) : Except Failure Value :=
  match Operator.ofText? op with
  | some op => op.apply a b
  | none => .error (.raised ⟨.unknownOperator op, none⟩)

end Tern
