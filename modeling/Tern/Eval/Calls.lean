import Tern.Eval.Basic

/-!
# Calls

Three kinds of call. A builtin evaluates its arguments one by one, an argument that raises an
error counting as nothing, and writes in one piece. A function binds its own name and its
parameters in a new layer, its arguments evaluated in the caller's. A method's arguments are
evaluated in one scratch layer over the caller's and bound, beside `self`, to the fields of the
struct or to the method's parameters.

The parent of a callee's layer is nothing, or the frame of the function when scope is lexical.
-/

namespace Tern.Eval

/-! ## Builtins -/

/-- Runs a builtin on values. Nothing is written unless every value can be displayed. -/
def runBuiltin (b : Builtin) (args : List Value) : Eval Value :=
  match Value.displayItems args with
  | .error type => fail (.undisplayable type)
  | .ok texts => do
    match b with
    | .print => write (String.join texts)
    | .println => write (String.join texts ++ "\n")
    pure .nothing

/-- An argument of a builtin: nothing in place of an error. -/
def argument (ev : Evaluator) (env : LayerId) (b : Builtin) (n : Node) : Eval Value := do
  match ← attempt (ev n env) with
  | .ok v => pure v
  | .error e =>
    record (.argumentDropped b.name e)
    pure .nothing

def callBuiltin (ev : Evaluator) (env : LayerId) (b : Builtin) (args : List Node) :
    Eval Value := do
  let values ← each (argument ev env b) args
  runBuiltin b values

/-- Runs the builtin of that name, which must be there. -/
def runBuiltinNamed (env : LayerId) (name : String) (args : List Value) : Eval Value := do
  match ← view (·.builtin? env name) with
  | some b => runBuiltin b args
  | none => fail (.noBuiltin name)

/-! ## Functions -/

/-- Where a function's free names are looked up, when it is called from `caller`. -/
def scopeParent (f : Function) (caller : LayerId) : Eval (Option LayerId) := do
  if (← configOf caller).lexicalScope then pure f.frame else pure none

/-- An empty layer for a body. -/
def calleeLayer (caller : LayerId) (f : Function) : Eval LayerId := do
  spawn caller (← scopeParent f caller)

/-- The layer that a function's body is to run in: it binds the function's own name and the
parameters. -/
def enterFunction (ev : Evaluator) (caller : LayerId) (f : Function) (args : List Node) :
    Eval LayerId := do
  if args.length < f.params.length then
    raise (.arity f.name f.params.length args.length)
  else
    let callee ← calleeLayer caller f
    bindName callee f.name (.function f)
    forAll (fun (param, n) => do bindName callee param (← ev n caller)) (f.params.zip args)
    record (.called f.name f.params)
    pure callee

def callFunction (ev : Evaluator) (caller : LayerId) (f : Function) (args : List Node) :
    Eval Value := do
  let callee ← enterFunction ev caller f args
  ev f.body callee

/-- A call by name: of a builtin if there is one of that name, else of a bound function. -/
def call (ev : Evaluator) (env : LayerId) : List Node → Eval Value
  | [nameNode, argsNode] => do
    let name ← expectIdent nameNode
    let args := argsNode.children
    match ← view (·.builtin? env name) with
    | some b => callBuiltin ev env b args
    | none =>
      match ← lookup? env name with
      | none => raise (.functionNotFound name)
      | some (.function f) => callFunction ev env f args
      | some v => mismatch "function" v
  | _ => misshapen

/-- A function definition; builtins cannot be redefined. -/
def funDef (env : LayerId) : List Node → Eval Value
  | [nameNode, paramsNode, body] => do
    let name ← expectIdent nameNode
    if (← view (·.builtin? env name)).isSome then raise (.isBuiltin name)
    else
      let params ← identList paramsNode
      let f : Function := ⟨name, params, body, some env⟩
      bindName env name (.function f)
      record (.functionDefined name params)
      pure (.function f)
  | _ => misshapen

/-! ## Methods -/

/-- A method call that has been resolved. -/
structure MethodTarget where
  receiver : Value
  struct : StructRef
  method : Function
  deriving Repr

/-- Finds the receiver, its struct by the receiver's struct name, and the method. -/
def resolveMethod (env : LayerId) (receiver method : String) : Eval MethodTarget := do
  match ← lookup? env receiver with
  | some (.object structName fields) =>
    match ← lookup? env structName with
    | some (.struct r) =>
      match ← view fun s => (s.methodsOf r).get? method with
      | some f => pure ⟨.object structName fields, r, f⟩
      | none => raise (.functionNotFound method)
    | _ => raise (.typeMismatch "struct" "unknown")
  | _ => raise (.typeMismatch "struct" "unknown")

/-- The layer that a method's body is to run in: it binds `self`, and the names to the arguments,
which are evaluated in a scratch layer. -/
def enterMethod (ev : Evaluator) (caller : LayerId) (t : MethodTarget) (binding : MethodArgs)
    (names : List String) (args : List Node) : Eval LayerId := do
  let scratch ← spawn caller (some caller)
  let values ← each (fun n => ev n scratch) args
  let callee ← calleeLayer caller t.method
  bindName callee "self" t.receiver
  forAll (fun (name, v) => bindName callee name v) (names.zip values)
  record (.calledMethod t.struct.name t.method.name binding)
  pure callee

def runMethod (ev : Evaluator) (caller : LayerId) (t : MethodTarget) (binding : MethodArgs)
    (names : List String) (args : List Node) : Eval Value := do
  let callee ← enterMethod ev caller t binding names args
  ev t.method.body callee

def callMethod (ev : Evaluator) (caller : LayerId) (t : MethodTarget) (args : List Node) :
    Eval Value := do
  match (← configOf caller).methodArgs with
  | .fields => runMethod ev caller t .fields t.struct.fields args
  | .params =>
    let params := t.method.params
    if args.length < params.length then
      raise (.arity (t.struct.name ++ "." ++ t.method.name) params.length args.length)
    else runMethod ev caller t .params params (args.take params.length)

/-- `receiver.method(args)`. -/
def getFunc (ev : Evaluator) (env : LayerId) : List Node → Eval Value
  | [receiverNode, methodNode, argsNode] => do
    let receiver ← expectIdent receiverNode
    let method ← expectIdent methodNode
    let target ← resolveMethod env receiver method
    callMethod ev env target argsNode.children
  | _ => misshapen

end Tern.Eval
