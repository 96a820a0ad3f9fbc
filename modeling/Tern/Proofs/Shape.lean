import Tern.Failure
import Tern.Number.Numeral
import Tern.Operators

/-!
# Well-shaped trees

The trees that the evaluator is made for. `Node.WellShaped` gives one shape to each kind of node:
how many children it has, which of them are names, operators or lists, and which are evaluated in
their turn. Labels and token kinds without a meaning have no shape. `Cause.blamesTree` holds the
causes that only a tree of no such shape can give, and `Failure.Documented` the failures that are
left: those of the program itself, and those of nesting too deep or looping too long. The integers
of a range may be the reason for two more (`Failure.OfRange`).
-/

namespace Tern

namespace Node

/-- A name. -/
inductive IsName : Node → Prop
  | intro (name : String) (pos : Option Pos) : IsName (.token .ident name pos)

/-- An operator between two operands. -/
inductive IsOperator : Node → Prop
  | intro {text : String} (kind : TokenKind) (pos : Option Pos)
      (h : (Operator.ofText? text).isSome) : IsOperator (.token kind text pos)

/-- An operator of an update in place. -/
inductive IsUpdate : Node → Prop
  | intro {text : String} (kind : TokenKind) (pos : Option Pos)
      (h : (Arith.ofInPlace? text).isSome) : IsUpdate (.token kind text pos)

/-- A list of names under a label of its own: parameters or fields. -/
inductive IsNames (label : Label) : Node → Prop
  | intro {names : List Node} (pos : Option Pos) (h : ∀ n ∈ names, n.IsName) :
      IsNames label (.tree label names pos)

mutual

/-- A tree that the evaluator can take apart, down to its tokens. -/
inductive WellShaped : Node → Prop
  | ident (name : String) (pos : Option Pos) : WellShaped (.token .ident name pos)
  | number {text : String} (pos : Option Pos) (h : (Number.ofNumeral? text).isSome) :
      WellShaped (.token .number text pos)
  | string (text : String) (pos : Option Pos) : WellShaped (.token .string text pos)
  | trueWord (text : String) (pos : Option Pos) : WellShaped (.token .trueWord text pos)
  | falseWord (text : String) (pos : Option Pos) : WellShaped (.token .falseWord text pos)
  | empty (pos : Option Pos) : WellShaped (.tree .empty [] pos)
  | block {body : List Node} (pos : Option Pos) (h : ∀ n ∈ body, WellShaped n) :
      WellShaped (.tree .block body pos)
  | binop {left op right : Node} (pos : Option Pos) (hl : WellShaped left)
      (ho : op.IsOperator) (hr : WellShaped right) :
      WellShaped (.tree .binop [left, op, right] pos)
  | ifThen {cond yes : Node} (pos : Option Pos) (hc : WellShaped cond) (hy : WellShaped yes) :
      WellShaped (.tree .ifThen [cond, yes] pos)
  | ifThenElse {cond yes no : Node} (pos : Option Pos) (hc : WellShaped cond)
      (hy : WellShaped yes) (hn : WellShaped no) :
      WellShaped (.tree .ifThenElse [cond, yes, no] pos)
  | assign {name value : Node} (pos : Option Pos) (hx : name.IsName) (hv : WellShaped value) :
      WellShaped (.tree .assign [name, value] pos)
  | setVar {name value : Node} (pos : Option Pos) (hx : name.IsName) (hv : WellShaped value) :
      WellShaped (.tree .setVar [name, value] pos)
  | inPlace {name op value : Node} (pos : Option Pos) (hx : name.IsName) (ho : op.IsUpdate)
      (hv : WellShaped value) : WellShaped (.tree .inPlace [name, op, value] pos)
  | whileLoop {cond body : Node} (pos : Option Pos) (hc : WellShaped cond)
      (hb : WellShaped body) : WellShaped (.tree .whileLoop [cond, body] pos)
  | forLoop {target iterable body : Node} (pos : Option Pos) (hx : target.IsName)
      (hi : WellShaped iterable) (hb : WellShaped body) :
      WellShaped (.tree .forLoop [target, iterable, body] pos)
  | funDef {name params body : Node} (pos : Option Pos) (hx : name.IsName)
      (hp : params.IsNames .params) (hb : WellShaped body) :
      WellShaped (.tree .funDef [name, params, body] pos)
  | call {name : Node} {args : List Node} (pos posArgs : Option Pos) (hx : name.IsName)
      (ha : ∀ n ∈ args, WellShaped n) :
      WellShaped (.tree .call [name, .tree .args args posArgs] pos)
  | list {items : List Node} (pos : Option Pos) (h : ∀ n ∈ items, WellShaped n) :
      WellShaped (.tree .list items pos)
  | index {target idx : Node} (pos : Option Pos) (hx : target.IsName) (hi : WellShaped idx) :
      WellShaped (.tree .index [target, idx] pos)
  | range {start stop : Node} (pos : Option Pos) (hs : WellShaped start)
      (he : WellShaped stop) : WellShaped (.tree .range [start, stop] pos)
  | structDef {name fields : Node} (pos : Option Pos) (hx : name.IsName)
      (hf : fields.IsNames .fields) : WellShaped (.tree .structDef [name, fields] pos)
  | callStruct {name : Node} {pairs : List Node} (pos : Option Pos) (hx : name.IsName)
      (hp : ∀ n ∈ pairs, IsPair n) : WellShaped (.tree .callStruct (name :: pairs) pos)
  | getAttr {name attr : Node} (pos : Option Pos) (hx : name.IsName) (ha : attr.IsName) :
      WellShaped (.tree .getAttr [name, attr] pos)
  | impl {struct method params body : Node} (pos : Option Pos) (hs : struct.IsName)
      (hm : method.IsName) (hp : params.IsNames .params) (hb : WellShaped body) :
      WellShaped (.tree .impl [struct, method, params, body] pos)
  | getFunc {receiver method : Node} {args : List Node} (pos posArgs : Option Pos)
      (hr : receiver.IsName) (hm : method.IsName) (ha : ∀ n ∈ args, WellShaped n) :
      WellShaped (.tree .getFunc [receiver, method, .tree .args args posArgs] pos)
  | matching {subject : Node} {arms : List Node} (pos : Option Pos) (hs : WellShaped subject)
      (ha : ∀ n ∈ arms, IsArm n) : WellShaped (.tree .matching (subject :: arms) pos)

/-- A key and its value. -/
inductive IsPair : Node → Prop
  | intro {key value : Node} (pos : Option Pos) (hk : key.IsName) (hv : WellShaped value) :
      IsPair (.tree .pair [key, value] pos)

/-- An arm of a match: a pattern and a body. -/
inductive IsArm : Node → Prop
  | intro {pattern body : Node} (pos : Option Pos) (hp : WellShaped pattern)
      (hb : WellShaped body) : IsArm (.tree .case [pattern, body] pos)

end

end Node

/-! ## Failures of well-shaped trees -/

/-- Whether only a tree of no shape can be the reason: a datum, a label, a token, an operator or
an arm that means nothing, or something other than a name or a pair in its place. -/
def Cause.blamesTree : Cause → Bool
  | .notExpression _ | .unknownNode _ | .unhandledToken _ _ => true
  | .unknownOperator _ | .unknownInPlace _ | .malformedArm _ => true
  | .typeMismatch expected _ => expected == "ident" || expected == "pair"
  | _ => false

/-- The ways of ending without a value that a program is told about: a runtime error of its own,
a value that cannot be printed, nesting too deep. A loop that has not ended within the turns
allowed has not failed at all. -/
def Failure.Documented : Failure → Prop
  | .raised e => e.cause.blamesTree = false
  | .undisplayable _ | .tooDeep | .tooLong => True
  | .misshapen | .notNumeral _ | .noBuiltin _ | .beyondDoubles _ | .unwritable _ => False

/-- The failures that the integers of a range are the reason for: one of them has no double near it,
or one of the ends has too many digits to be written. -/
inductive Failure.OfRange (start stop : Int) : Failure → Prop
  | beyondDoubles {i : Int} (hstart : start ≤ i) (hstop : i < stop)
      (h : Number.ofInt? i = none) : OfRange start stop (.beyondDoubles i)
  | unwritable {i : Int} (hend : i = start ∨ i = stop) (h : Number.inFull i = .error i) :
      OfRange start stop (.unwritable i)

end Tern
